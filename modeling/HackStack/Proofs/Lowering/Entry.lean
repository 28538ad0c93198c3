import HackStack.Proofs.Lowering.CallReturn

/-!
# Function entry

The code of a function starts by clearing its local words, which begin where `LCL` says, and moves
`SP` behind them. A function without local words has no such code; it relies on the call, which has
left `SP` where `LCL` is. So the operands of a function begin behind its local words whether it has
any or not (`function_entry`).
-/

namespace HackStack.Lowering

open HackStack.Assembly
open HackStack.Machine
open HackStack.Vm

theorem fixed_functionCode {locals : Nat} (hfits : (functionCode locals).length ≤ programSize) :
    Fixed (functionCode locals) := by
  have hsize : programSize = 0x8000 := rfl
  rw [length_functionCode "" locals, Command.size, Int.toNat_natCast] at hfits
  refine fixed_of_loads fun _ hregs => loads_functionCode hregs ?_
  omega

/-- The code of a function entry, from its first instruction to the one behind it. -/
theorem passes_functionCode {symbols : Bindings} (hregs : BindsRegisters symbols)
    {locals start : Nat} {c : Cpu}
    (hcode : CodeAt symbols c.rom.toList start (functionCode locals))
    (hfits : start + (functionCode locals).length ≤ programSize)
    (hpc : c.pc = BitVec.ofNat 16 start) (hrun : c.halted = false) {lcl : Nat}
    (hlcl : c.ram.peek 1 = BitVec.ofNat 16 lcl) (hlow : 16 ≤ lcl)
    (hhigh : lcl + locals ≤ ramCells) :
    (∃ log, Passes start (start + (functionCode locals).length) (functionCode locals).length log
      c) ∧
      EntryEffect c.ram (Cpu.step^[(functionCode locals).length] c).ram lcl locals := by
  have hfixed := fixed_functionCode (Nat.le_trans (Nat.le_add_left _ start) hfits)
  have hinstalled : Installed symbols c.rom start (functionCode locals) :=
    ⟨hcode, hfixed.loadsSmall hregs, hfits⟩
  have hat : At c.rom start c.core c := ⟨rfl, hpc, rfl, hrun⟩
  have hstraight := isStraight_functionCode locals
  refine ⟨⟨_, hat.passes_straight hinstalled hstraight⟩, ?_⟩
  have hend := hat.straight hinstalled hstraight
  obtain ⟨a, d, hexec⟩ := exec_functionCode (k := c.core) hregs locals hlcl (by omega) hhigh
  rw [hexec] at hend
  rw [show (Cpu.step^[(functionCode locals).length] c).ram = _ from congrArg Core.ram hend.core]
  exact entryEffect_entered c.ram (by omega) hhigh

/-- The frame of a function that has just started: its local words are clear, and there are no
operands behind them yet. -/
structure FreshFrame (ram : Ram) (lcl locals : Nat) : Prop where
  base : ram.peek 1 = BitVec.ofNat 16 lcl
  cleared : ∀ i < locals, ram.peek (lcl + i) = 0
  stack : ram.peek 0 = BitVec.ofNat 16 (lcl + locals)

/-- Entering a function after a call of it gives a fresh frame. -/
theorem EntryEffect.freshFrame {before ram after : Ram} {sp args locals : Nat} {back : Word}
    (hcall : CallEffect before ram sp args back) (h : EntryEffect ram after (sp + 5) locals) :
    FreshFrame after (sp + 5) locals := by
  refine ⟨?_, h.cleared, h.stack hcall.pointer⟩
  rw [h.others 1 (by decide) (by decide) (by omega), hcall.frame.lcl]

namespace Generator

section

variable {options : Options} {actions : List Action}
  (hentry : isFunctionName options.entryName = true) (hvalid : ∀ a ∈ actions, a.Valid)
  {a : Assembler} {p : Program}
  (haccepted : Assembler.new.assemble (run options actions).text = (a, .ok p))
include hentry hvalid haccepted

theorem Writes.function_words {e : Generator} {name : Text} {locals : Int}
    (h : Writes options actions e (.function name locals)) :
    CodeAt a.symbols p.words.toList e.counter (functionCode locals) := by
  obtain ⟨lines, hblock, hcode, -⟩ :=
    h.laid hentry hvalid (assembled_run hentry hvalid haccepted).image
  cases hblock
  have hinstructions : codeInstructions (functionBlock name locals) = functionCode locals :=
    codeInstructions_instructions _
  rwa [hinstructions] at hcode

/-- A call and the entry of the function that it goes to. A label that no load reaches has no words
behind it, so the frame is fresh as soon as the call is made. -/
theorem Writes.call_entry {e g : Generator} {name : Text} {locals : Nat} {args : Int}
    (hfunction : Writes options actions e (.function name locals))
    (hcall : Writes options actions g (.call name args)) {c : Cpu} {sp : Nat}
    (hrom : c.rom = p.words) (hpc : c.pc = BitVec.ofNat 16 g.counter) (hrun : c.halted = false)
    (hsp : c.ram.peek 0 = BitVec.ofNat 16 sp) (hlow : 16 + args.toNat ≤ sp)
    (hhigh : sp + 5 < ramCells) (hroom : sp + 5 + locals ≤ ramCells) :
    (e.counter < programSize → ∃ log, Passes e.counter
      (e.counter + (functionCode locals).length) (functionCode locals).length log
      (Cpu.step^[49] c)) ∧
      FreshFrame (Cpu.step^[(functionCode locals).length] (Cpu.step^[49] c)).ram (sp + 5)
        locals := by
  obtain ⟨hpc', hrun', hrom', heffect⟩ :=
    hcall.call_effect hentry hvalid haccepted hfunction hrom hpc hrun hsp hlow hhigh
  have hfits := hfunction.fits_program hentry hvalid haccepted
  rw [← length_functionCode] at hfits
  by_cases hlabel : e.counter < programSize
  · rw [loadedAddress, if_pos hlabel] at hpc'
    have hwords := hfunction.function_words hentry hvalid haccepted
    rw [← hrom'] at hwords
    obtain ⟨hpass, hentered⟩ := passes_functionCode
      (assembled_run hentry hvalid haccepted).image.predefined hwords hfits hpc' hrun'
      heffect.frame.lcl (by omega) hroom
    exact ⟨fun _ => hpass, hentered.freshFrame heffect⟩
  · refine ⟨fun h => absurd h hlabel, ?_⟩
    obtain rfl : locals = 0 := by
      rw [length_functionCode "" locals, Command.size, Int.toNat_natCast] at hfits
      omega
    exact (entryEffect_entered _ (by omega) hroom).freshFrame heffect

end

/-- **Function entry.** Wherever the block of a function stands, a processor that comes to its label
runs through it and leaves it at its end, with the local words cleared, `SP` behind them if there
are any, and nothing else changed. In a program that was accepted the label has the address of the
block, and a call of the function followed by its entry gives a fresh frame, without local words
too. -/
theorem function_entry (e : Generator) (name : Text) (locals : Nat)
    (hfits : e.counter + (Command.function name locals).size ≤ programSize) :
    ∃ code, e.block (.function name locals) = .ok (.label name :: code.map .instruction) ∧
      (e.write (.function name locals)).1.counter = e.counter + code.length ∧
      (∀ (symbols : Bindings) (c : Cpu) (lcl : Nat), BindsRegisters symbols →
        CodeAt symbols c.rom.toList e.counter code → c.pc = BitVec.ofNat 16 e.counter →
        c.halted = false → c.ram.peek 1 = BitVec.ofNat 16 lcl → 16 ≤ lcl →
        lcl + locals ≤ ramCells →
          (∃ log, Passes e.counter (e.counter + code.length) code.length log c) ∧
            EntryEffect c.ram (Cpu.step^[code.length] c).ram lcl locals) ∧
      ∀ (options : Options) (actions : List Action) (a : Assembler) (p : Program),
        isFunctionName options.entryName = true → (∀ act ∈ actions, act.Valid) →
        Assembler.new.assemble (run options actions).text = (a, .ok p) →
        Writes options actions e (.function name locals) →
          a.address? name = some (BitVec.ofNat 16 e.counter) ∧ BindsRegisters a.symbols ∧
          CodeAt a.symbols p.words.toList e.counter code ∧
          ∀ (g : Generator) (args : Int) (c : Cpu) (sp : Nat),
            Writes options actions g (.call name args) → c.rom = p.words →
            c.pc = BitVec.ofNat 16 g.counter → c.halted = false →
            c.ram.peek 0 = BitVec.ofNat 16 sp → 16 + args.toNat ≤ sp → sp + 5 < ramCells →
            sp + 5 + locals ≤ ramCells →
              (e.counter < programSize → ∃ log, Passes e.counter (e.counter + code.length)
                code.length log (Cpu.step^[49] c)) ∧
                FreshFrame (Cpu.step^[code.length] (Cpu.step^[49] c)).ram (sp + 5) locals := by
  refine ⟨functionCode locals, rfl, ?_, ?_, ?_⟩
  · rw [← perform_ofCommand, counter_perform_of_block (Action.command?_ofCommand _) rfl,
      length_functionCode name]
  · intro symbols c lcl hregs hcode hpc hrun hlcl hlow hhigh
    rw [← length_functionCode] at hfits
    exact passes_functionCode hregs hcode hfits hpc hrun hlcl hlow hhigh
  · intro options actions a p hentry hvalid haccepted hfunction
    refine ⟨hfunction.function_address hentry hvalid haccepted,
      (assembled_run hentry hvalid haccepted).image.predefined,
      hfunction.function_words hentry hvalid haccepted, ?_⟩
    intro g args c sp hcall hrom hpc hrun hsp hlow hhigh hroom
    exact hfunction.call_entry hentry hvalid haccepted hcall hrom hpc hrun hsp hlow hhigh hroom

/-- A function with two local words that calls itself, from the call to its first command. -/
theorem function_entry_loopingCalls :
    ∃ a p, Assembler.new.assemble (run ⟨true, "", false⟩ loopingCalls).text = (a, .ok p) ∧
      a.address? "Main.loop" = some 53 ∧
      (Cpu.step^[16] (Cpu.step^[49] (arriving p.words 108 emptyStack))).pc = 69 ∧
      (Cpu.step^[16] (Cpu.step^[49] (arriving p.words 108 emptyStack))).ram.peek 0 = 263 ∧
      (Cpu.step^[16] (Cpu.step^[49] (arriving p.words 108 emptyStack))).ram.peek 262 = 0 := by
  have hvalid : ∀ a ∈ loopingCalls, a.Valid := fun a ha => (loopingCalls_accepted a ha).valid
  have hlowerable : Lowerable ⟨true, "", false⟩ loopingCalls :=
    ⟨by decide, hvalid, by decide +kernel, by decide +kernel, by decide +kernel⟩
  obtain ⟨a, p, haccepted, -⟩ := hlowerable.assemble (by decide +kernel)
  have hcall : Writes ⟨true, "", false⟩ loopingCalls (run ⟨true, "", false⟩ (loopingCalls.take 7))
      (.call "Main.loop" 0) :=
    .action (show loopingCalls = loopingCalls.take 7 ++ _ :: loopingCalls.drop 8 from rfl) rfl
  have hfunction : Writes ⟨true, "", false⟩ loopingCalls
      (run ⟨true, "", false⟩ (loopingCalls.take 1)) (.function "Main.loop" (2 : Nat)) :=
    .action (show loopingCalls = loopingCalls.take 1 ++ _ :: loopingCalls.drop 2 from rfl) rfl
  have hcallCounter : (run ⟨true, "", false⟩ (loopingCalls.take 7)).counter = 108 := by
    decide +kernel
  have hcounter : (run ⟨true, "", false⟩ (loopingCalls.take 1)).counter = 53 := by
    decide +kernel
  obtain ⟨code, hblock, -, -, hprogram⟩ := function_entry
    (run ⟨true, "", false⟩ (loopingCalls.take 1)) "Main.loop" 2 (by rw [hcounter]; decide)
  have hlength : code.length = 16 := by
    have hsize := countP_block hblock
    rwa [List.countP_cons_of_neg (by decide), countP_instructions] at hsize
  obtain ⟨haddress, -, -, hrun⟩ := hprogram _ _ a p (by decide) hvalid haccepted hfunction
  obtain ⟨hpasses, hframe⟩ := hrun _ 0 (arriving p.words 108 emptyStack) 256 hcall rfl
    (by rw [hcallCounter]; rfl) rfl peek_emptyStack (by decide) (by decide) (by decide)
  obtain ⟨log, hpass⟩ := hpasses (by rw [hcounter]; decide)
  rw [hcounter] at haddress hpass
  rw [hlength] at hpass hframe
  exact ⟨a, p, haccepted, haddress, hpass.leaves, hframe.stack, hframe.cleared 1 (by decide)⟩

end Generator

end HackStack.Lowering
