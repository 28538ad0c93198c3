import HackStack.Proofs.Lowering.Control
import HackStack.Proofs.Lowering.Fragment
import HackStack.Proofs.Lowering.Frame
import HackStack.Proofs.Lowering.Written

/-!
# Calls and returns

A call saves the frame of the caller and goes to the function. A return finds the frame below `LCL`,
whatever the function has done in between, and restores it, so that a call looks to its caller as if
it had replaced the arguments by one word. `CallEffect` and `ReturnEffect` say which cells the two
change, and to what.

The only thing that can go wrong is an address: behind the last word of a full program memory a
label has an address that cannot be loaded (`loadedAddress`). A call that ends there saves the word
that was in `A` in place of its return address.
-/

namespace HackStack.Lowering

open HackStack.Assembly
open HackStack.Machine
open HackStack.Vm

/-! ## Program addresses -/

/-- What `A` holds after a load of a program address, if it held `a` before. The word of the address
behind a full program memory does nothing. -/
def loadedAddress (address : Nat) (a : Word) : Word :=
  if address < programSize then BitVec.ofNat 16 address else a

section

variable {symbols : Bindings} {rom : Array Word} {p : Nat} {k : Core} {c : Cpu}

theorem at_load_address {address : Nat} (h : At rom p k c) (hp : p < programSize)
    (hle : address ≤ programSize) (hw : rom[p]? = some (BitVec.ofNat 16 address)) :
    At rom (p + 1) ⟨loadedAddress address k.a, k.d, k.ram⟩ c.step := by
  have hsize : programSize = 0x8000 := rfl
  rw [← h.fetch hp] at hw
  have hpc : c.pc + 1 = BitVec.ofNat 16 (p + 1) := by rw [h.pc, ofNat_add_one]
  have hd : c.d = k.d := congrArg Core.d h.core
  have hram : c.ram = k.ram := congrArg Core.ram h.core
  rw [loadedAddress]
  split
  · next hlt =>
      rw [Cpu.step_load h.running hw (msb_ofNat_of_lt hlt)]
      exact ⟨h.rom, hpc, by rw [← hd, ← hram]; rfl, h.running⟩
  · next hlarge =>
      obtain rfl : address = 0x8000 := by omega
      rw [Cpu.step_of_top_bit h.running hw]
      exact ⟨h.rom, hpc, by rw [← h.core]; rfl, h.running⟩

/-! ## The two blocks -/

/-- A call up to its jump. Its return address is `r`, and the address of the function is `q`. -/
theorem call_jumps (hregs : BindsRegisters symbols) {args : Int} {sp q r : Nat} (h : At rom p k c)
    (hback : rom[p]? = some (BitVec.ofNat 16 r)) (hr : r ≤ programSize)
    (hprepare : Installed symbols rom (p + 1) (saveCaller ++ moveFrame args))
    (hfunction : rom[p + 47]? = some (BitVec.ofNat 16 q)) (hq : q ≤ programSize)
    (hjump : Installed symbols rom (p + 48) [.jump])
    (hsp : k.ram.peek 0 = BitVec.ofNat 16 sp) (hpos : 4 < sp) (hlt : sp + 4 < ramCells)
    (hargs : args.toNat ≤ sp) :
    (Cpu.step^[49] c).rom = rom ∧
      (Cpu.step^[49] c).ram = called k.ram sp args.toNat (loadedAddress r k.a) ∧
      (Cpu.step^[49] c).pc = loadedAddress q 1 ∧
      (Cpu.step^[49] c).halted = (loadedAddress q 1 + 1 == BitVec.ofNat 16 (p + 48)) := by
  have hfits : p + 49 ≤ programSize := hjump.fits
  have hsteps : Cpu.step^[49] c = (Cpu.step^[46] c.step).step.step := by
    rw [← Function.iterate_succ_apply' Cpu.step, ← Function.iterate_succ_apply' Cpu.step]
    rfl
  have hlength : (saveCaller ++ moveFrame args).length = 46 := rfl
  have hprepared := (at_load_address h (by omega) hr hback).straight hprepare
    (isStraight_prepareCall args)
  rw [exec_prepareCall (k := ⟨loadedAddress r k.a, k.d, k.ram⟩) hregs hsp hpos hlt hargs,
    hlength] at hprepared
  have hloaded := at_load_address hprepared (by omega) hq hfunction
  obtain ⟨hrom, hcore, hpc, hhalted⟩ := hloaded.jump hjump
  rw [hsteps]
  exact ⟨hrom, congrArg Core.ram hcore, hpc, hhalted⟩

end

/-! ## Calls and returns of a program -/

/-- Between the loads of its two addresses, a call is the same code in every program. -/
theorem callCode_pieces (back function : Text) (args : Int) :
    callCode back function args =
      [.symbol back] ++ ((saveCaller ++ moveFrame args) ++ ([.symbol function] ++ [.jump])) := by
  rw [callCode_eq, saveFrame_eq, List.cons_append, List.cons_append]
  rfl

theorem loads_prepareCall {ok : Text → Prop} (hregs : ∀ r ∈ predefined, ok r.1) {args : Int}
    (hargs : isCount args = true) :
    ∀ i ∈ saveCaller ++ moveFrame args, i.Loads ok programSize := by
  obtain ⟨hsp, hlcl, harg, hthis, hthat, -⟩ := ok_registers hregs
  have hframe : frameSize < programSize := by decide
  have hrange : 0 ≤ args ∧ args < programSize := by
    rw [isCount, Bool.and_eq_true, decide_eq_true_eq, decide_eq_true_eq] at hargs
    have hlast : largestIndex < programSize := by decide
    omega
  simp only [saveCaller, moveFrame, List.forall_mem_append]
  exact ⟨⟨⟨⟨⟨⟨by simp, loads_pushFromD hregs⟩, loads_saveRegister hregs hlcl⟩,
    loads_saveRegister hregs harg⟩, loads_saveRegister hregs hthis⟩,
    loads_saveRegister hregs hthat⟩, by simp [hsp, harg, hrange, hframe], by simp [hsp, hlcl]⟩

/-- The word of a load is the address of its symbol. -/
theorem word_of_symbol {symbols : Bindings} {rom : Array Word} {start : Nat} {name : Text}
    {w : Word} (hcode : CodeAt symbols rom.toList start [.symbol name])
    (hname : symbols[name]? = some w) : rom[start]? = some w := by
  obtain ⟨w', hw, hword⟩ := hcode 0 _ rfl
  rw [show (Instruction.symbol name).word? symbols = symbols[name]? from rfl, hname] at hw
  cases hw
  rwa [Array.getElem?_toList] at hword

namespace Generator

section

variable {options : Options} {actions : List Action}
  (hentry : isFunctionName options.entryName = true) (hvalid : ∀ a ∈ actions, a.Valid)
  {a : Assembler} {p : Program}
  (haccepted : Assembler.new.assemble (run options actions).text = (a, .ok p))
include hentry hvalid haccepted

theorem Writes.function_address {e : Generator} {name : Text} {locals : Int}
    (h : Writes options actions e (.function name locals)) :
    a.address? name = some (BitVec.ofNat 16 e.counter) := by
  obtain ⟨lines, hblock, -, hlabel⟩ :=
    h.laid hentry hvalid (assembled_run hentry hvalid haccepted).image
  cases hblock
  exact hlabel [] name _ rfl

/-- Where the label of a call is, and the parts of its code. -/
theorem Writes.call_words {e : Generator} {name : Text} {args : Int}
    (h : Writes options actions e (.call name args)) :
    a.address? (returnSymbol e.scope e.calls) = some (BitVec.ofNat 16 (e.counter + 49)) ∧
      CodeAt a.symbols p.words.toList e.counter [.symbol (returnSymbol e.scope e.calls)] ∧
      CodeAt a.symbols p.words.toList (e.counter + 1) (saveCaller ++ moveFrame args) ∧
      CodeAt a.symbols p.words.toList (e.counter + 47) [.symbol name] ∧
      CodeAt a.symbols p.words.toList (e.counter + 48) [.jump] := by
  obtain ⟨lines, hblock, hcode, hlabel⟩ :=
    h.laid hentry hvalid (assembled_run hentry hvalid haccepted).image
  cases hblock
  rw [callBlock] at hcode hlabel
  rw [codeInstructions_append, codeInstructions_instructions, CodeAt.append_iff] at hcode
  have hback := hlabel _ _ [] rfl
  rw [countP_instructions] at hback
  have hpieces := hcode.1
  rw [callCode_pieces] at hpieces
  obtain ⟨hload, hpieces⟩ := CodeAt.append_iff.mp hpieces
  obtain ⟨hprepare, hpieces⟩ := CodeAt.append_iff.mp hpieces
  exact ⟨hback, hload, hprepare, CodeAt.append_iff.mp hpieces⟩

theorem Writes.installed_return {e : Generator} (h : Writes options actions e .ret) :
    Installed a.symbols p.words e.counter returnBlock := by
  have himage := (assembled_run hentry hvalid haccepted).image
  obtain ⟨lines, hblock, hcode, -⟩ := h.laid hentry hvalid himage
  cases hblock
  rw [codeInstructions_instructions] at hcode
  have hfixed : Fixed returnBlock :=
    fixed_of_loads fun _ hregs => loads_returnBlock hregs (Nat.le_refl _)
  exact ⟨hcode, hfixed.loadsSmall himage.predefined, h.fits_program hentry hvalid haccepted⟩

/-- **What a call does**: it goes to the function, with the frame of the caller saved, and keeps the
rest of memory. -/
theorem Writes.call_effect {e f : Generator} {name : Text} {args locals : Int}
    (hcall : Writes options actions e (.call name args))
    (hfunction : Writes options actions f (.function name locals)) {c : Cpu} {sp : Nat}
    (hrom : c.rom = p.words) (hpc : c.pc = BitVec.ofNat 16 e.counter) (hrun : c.halted = false)
    (hsp : c.ram.peek 0 = BitVec.ofNat 16 sp) (hlow : 16 + args.toNat ≤ sp)
    (hhigh : sp + 5 < ramCells) :
    (Cpu.step^[49] c).pc = loadedAddress f.counter 1 ∧ (Cpu.step^[49] c).halted = false ∧
      (Cpu.step^[49] c).rom = p.words ∧
      CallEffect c.ram (Cpu.step^[49] c).ram sp args.toNat
        (loadedAddress (e.counter + 49) c.a) := by
  have hsize : programSize = 0x8000 := rfl
  have hregs := (assembled_run hentry hvalid haccepted).image.predefined
  have hfits : e.counter + 49 ≤ programSize := hcall.fits_program hentry hvalid haccepted
  have hends := hfunction.fits_program hentry hvalid haccepted
  have hcount := hcall.isValid hentry hvalid
  rw [Command.isValid, Bool.and_eq_true] at hcount
  obtain ⟨hback, hfirst, hprepare, hsecond, hjump⟩ := hcall.call_words hentry hvalid haccepted
  have hfixed : Fixed (saveCaller ++ moveFrame args) :=
    fixed_of_loads fun _ hregs => loads_prepareCall hregs hcount.2
  have hprepared : Installed a.symbols p.words (e.counter + 1) (saveCaller ++ moveFrame args) :=
    ⟨hprepare, hfixed.loadsSmall hregs, show e.counter + 1 + 46 ≤ programSize by omega⟩
  have hjumps : Installed a.symbols p.words (e.counter + 48) [.jump] :=
    ⟨hjump, (show Fixed [.jump] by simp [Fixed]).loadsSmall hregs, hfits⟩
  have hat : At p.words e.counter c.core c := ⟨hrom, hpc, rfl, hrun⟩
  obtain ⟨hrom', hram, hpc', hhalted⟩ := call_jumps hregs hat (word_of_symbol hfirst hback) hfits
    hprepared (word_of_symbol hsecond (hfunction.function_address hentry hvalid haccepted))
    (by omega) hjumps hsp (by omega) (by omega) (by omega)
  refine ⟨hpc', hhalted.trans ?_, hrom', ?_⟩
  · rw [beq_eq_false_iff_ne, loadedAddress]
    intro hends
    split at hends
    · next hlt =>
        rw [ofNat_add_one] at hends
        have htarget := ofNat_injective_of_lt (by omega) (by omega) hends
        -- it would lead into the call itself
        have hinside : f.counter = e.counter + 47 := by omega
        have hapart := hcall.apart hentry hvalid hfunction
        rw [show (Command.call name args).size = 49 from rfl] at hapart
        rcases hapart with hbefore | hafter | ⟨-, hsame⟩
        · omega
        · omega
        · cases hsame
    · have hsmall := ofNat_injective_of_lt (n := 2) (by omega) (by omega) hends
      omega
  · rw [hram]
    exact callEffect_called c.ram _ (by omega) hhigh

/-- **What a return does**: it goes to the address in the frame, and the caller finds its registers
and, in place of the arguments, the word on top of the stack. -/
theorem Writes.return_effect {g : Generator} (hret : Writes options actions g .ret) {before : Ram}
    {c : Cpu} {sp args s : Nat} {back : Word} (hrom : c.rom = p.words)
    (hpc : c.pc = BitVec.ofNat 16 g.counter) (hrun : c.halted = false)
    (hframe : HoldsFrame before c.ram sp args back) (hsp : c.ram.peek 0 = BitVec.ofNat 16 s)
    (hlow : 16 + args ≤ sp) (hstack : sp + 5 < s) (hhigh : s ≤ ramCells) :
    (Cpu.step^[51] c).pc = back ∧
      (Cpu.step^[51] c).halted = (back + 1 == BitVec.ofNat 16 (g.counter + 50)) ∧
      (Cpu.step^[51] c).rom = p.words ∧
      ReturnEffect before c.ram (Cpu.step^[51] c).ram sp args (s - 1) := by
  have hregs := (assembled_run hentry hvalid haccepted).image.predefined
  have hcode := hret.installed_return hentry hvalid haccepted
  have hat : At p.words g.counter c.core c := ⟨hrom, hpc, rfl, hrun⟩
  obtain ⟨top, rfl⟩ : ∃ top, s = top + 1 := ⟨s - 1, by omega⟩
  have hback : c.core.ram.peek (sp + 5 - 5) = back := hframe.back
  obtain ⟨hrom', ⟨d, hcore⟩, hpc', hhalted⟩ := return_jumps hregs hat hcode hframe.lcl hframe.arg
    hsp (by omega) (by omega) (by omega) (by omega)
  generalize Cpu.step^[51] c = c' at hrom' hcore hpc' hhalted ⊢
  have hram : c'.ram = returned c.ram (sp + 5) (sp - args) top := congrArg Core.ram hcore
  rw [hback] at hpc' hhalted
  refine ⟨hpc', hhalted, hrom', ?_⟩
  rw [hram]
  exact returnEffect_returned hframe hlow (by omega) (by omega)

/-- A return to a call of the program goes on. -/
theorem Writes.returns_running {e g : Generator} {name : Text} {args : Int}
    (hcall : Writes options actions e (.call name args)) (hret : Writes options actions g .ret) :
    (BitVec.ofNat 16 (e.counter + 49) + 1 == BitVec.ofNat 16 (g.counter + 50)) = false := by
  have hregs := (assembled_run hentry hvalid haccepted).image.predefined
  have hfits : e.counter + 49 ≤ programSize := hcall.fits_program hentry hvalid haccepted
  obtain ⟨-, -, -, -, hjump⟩ := hcall.call_words hentry hvalid haccepted
  obtain ⟨w, hw, hword⟩ := hjump 0 .jump rfl
  rw [Array.getElem?_toList] at hword
  cases hw
  exact return_continues hregs (hret.installed_return hentry hvalid haccepted) (by omega) hword

end

/-- **Calls and returns are transparent**, but for addresses that cannot be loaded. In every program
that is accepted, a call of a function of the program reaches the label of the function with the
frame of the caller saved. A return that finds this frame goes back behind the call, whatever has
happened to the rest of memory, with the registers of the caller restored and the word on top of the
stack in place of the arguments. Only behind the last word of a full program memory, a function or
the place behind a call has an address that is not loaded. -/
theorem call_return_transparent {options : Options} {actions : List Action}
    (hentry : isFunctionName options.entryName = true) (hvalid : ∀ a ∈ actions, a.Valid)
    {a : Assembler} {p : Program}
    (haccepted : Assembler.new.assemble (run options actions).text = (a, .ok p))
    {e f : Generator} {name : Text} {args locals : Int}
    (hcall : Writes options actions e (.call name args))
    (hfunction : Writes options actions f (.function name locals)) (before : Ram) {sp : Nat}
    (hsp : before.peek 0 = BitVec.ofNat 16 sp) (hlow : 16 + args.toNat ≤ sp)
    (hhigh : sp + 5 < ramCells) :
    a.address? name = some (BitVec.ofNat 16 f.counter) ∧
      a.address? (returnSymbol e.scope e.calls) = some (BitVec.ofNat 16 (e.counter + 49)) ∧
      (∀ c : Cpu, c.rom = p.words → c.pc = BitVec.ofNat 16 e.counter → c.halted = false →
        c.ram = before →
          (Cpu.step^[49] c).pc = loadedAddress f.counter 1 ∧ (Cpu.step^[49] c).halted = false ∧
            (Cpu.step^[49] c).rom = p.words ∧
            CallEffect before (Cpu.step^[49] c).ram sp args.toNat
              (loadedAddress (e.counter + 49) c.a)) ∧
      ∀ (g : Generator) (c : Cpu) (back : Word) (s : Nat), Writes options actions g .ret →
        c.rom = p.words → c.pc = BitVec.ofNat 16 g.counter → c.halted = false →
        HoldsFrame before c.ram sp args.toNat back → c.ram.peek 0 = BitVec.ofNat 16 s →
        sp + 5 < s → s ≤ ramCells →
          (Cpu.step^[51] c).pc = back ∧
            (back = BitVec.ofNat 16 (e.counter + 49) → (Cpu.step^[51] c).halted = false) ∧
            (Cpu.step^[51] c).rom = p.words ∧
            ReturnEffect before c.ram (Cpu.step^[51] c).ram sp args.toNat (s - 1) := by
  refine ⟨hfunction.function_address hentry hvalid haccepted,
    (hcall.call_words hentry hvalid haccepted).1, ?_, ?_⟩
  · rintro c hrom hpc hrun rfl
    exact hcall.call_effect hentry hvalid haccepted hfunction hrom hpc hrun hsp hlow hhigh
  · intro g c back s hret hrom hpc hrun hframe htop hstack hroom
    obtain ⟨hpc', hhalted, hrom', heffect⟩ :=
      hret.return_effect hentry hvalid haccepted hrom hpc hrun hframe htop hlow hstack hroom
    refine ⟨hpc', ?_, hrom', heffect⟩
    rintro rfl
    rw [hhalted]
    exact hcall.returns_running hentry hvalid haccepted hret

/-! ## A function that calls itself -/

def emptyStack : Ram := Ram.zero.poke 0 (BitVec.ofNat 16 stackStart)

theorem peek_emptyStack : emptyStack.peek 0 = BitVec.ofNat 16 stackStart :=
  Ram.peek_poke_self _ _ _

/-- Memory when a function that was called with no arguments and an empty stack returns 7. -/
def returning (back : Word) : Ram :=
  ((called emptyStack stackStart 0 back).poke 261 7).poke 0 262

theorem holdsFrame_returning (back : Word) : HoldsFrame emptyStack (returning back) 256 0 back := by
  have hcalled : CallEffect emptyStack (called emptyStack stackStart 0 back) stackStart 0 back :=
    callEffect_called emptyStack back (by decide) (by decide)
  have hframe := hcalled.frame
  have hkept : ∀ m < 261, m ≠ 0 →
      (returning back).peek m = (called emptyStack stackStart 0 back).peek m := by
    intro m hm hzero
    have hcells : ramCells = 0x8000 := rfl
    rw [returning, Ram.peek_poke_of_ne _ _ (by decide) (by omega) (by omega),
      Ram.peek_poke_of_ne _ _ (by decide) (by omega) (by omega)]
  refine ⟨?_, ?_, ?_, ?_⟩
  · rw [hkept 1 (by decide) (by decide)]
    exact hframe.lcl
  · rw [hkept 2 (by decide) (by decide)]
    exact hframe.arg
  · rw [hkept 256 (by decide) (by decide)]
    exact hframe.back
  · intro i hi
    rw [hkept _ (by omega) (by omega)]
    exact hframe.saved i hi

theorem peek_returning (back : Word) : (returning back).peek 261 = 7 := by
  rw [returning, Ram.peek_poke_of_ne _ _ (by decide) (by decide) (by decide), Ram.peek_poke_self]

/-- A function that calls itself: the call and the return, with no arguments. The value that is
returned takes the cell of the return address. -/
theorem call_return_transparent_loopingCalls :
    ∃ a p, Assembler.new.assemble (run ⟨true, "", false⟩ loopingCalls).text = (a, .ok p) ∧
      (Cpu.step^[49] (arriving p.words 108 emptyStack)).pc = 53 ∧
      (Cpu.step^[49] (arriving p.words 108 emptyStack)).ram.peek 256 = 157 ∧
      (Cpu.step^[51] (arriving p.words 157 (returning 157))).pc = 157 ∧
      (Cpu.step^[51] (arriving p.words 157 (returning 157))).ram.peek 256 = 7 := by
  have hvalid : ∀ a ∈ loopingCalls, a.Valid := fun a ha => (loopingCalls_accepted a ha).valid
  have hlowerable : Lowerable ⟨true, "", false⟩ loopingCalls :=
    ⟨by decide, hvalid, by decide +kernel, by decide +kernel, by decide +kernel⟩
  obtain ⟨a, p, haccepted, -⟩ := hlowerable.assemble (by decide +kernel)
  have hcall : Writes ⟨true, "", false⟩ loopingCalls (run ⟨true, "", false⟩ (loopingCalls.take 7))
      (.call "Main.loop" 0) :=
    .action (show loopingCalls = loopingCalls.take 7 ++ _ :: loopingCalls.drop 8 from rfl) rfl
  have hfunction : Writes ⟨true, "", false⟩ loopingCalls
      (run ⟨true, "", false⟩ (loopingCalls.take 1)) (.function "Main.loop" 2) :=
    .action (show loopingCalls = loopingCalls.take 1 ++ _ :: loopingCalls.drop 2 from rfl) rfl
  have hret : Writes ⟨true, "", false⟩ loopingCalls (run ⟨true, "", false⟩ (loopingCalls.take 8))
      .ret :=
    .action (show loopingCalls = loopingCalls.take 8 ++ _ :: loopingCalls.drop 9 from rfl) rfl
  have hcallCounter : (run ⟨true, "", false⟩ (loopingCalls.take 7)).counter = 108 := by
    decide +kernel
  have hfunctionCounter : (run ⟨true, "", false⟩ (loopingCalls.take 1)).counter = 53 := by
    decide +kernel
  have hretCounter : (run ⟨true, "", false⟩ (loopingCalls.take 8)).counter = 157 := by
    decide +kernel
  obtain ⟨-, -, hcalls, hreturns⟩ := call_return_transparent (by decide) hvalid haccepted hcall
    hfunction emptyStack (show emptyStack.peek 0 = BitVec.ofNat 16 256 from peek_emptyStack)
    (by decide) (by decide)
  rw [hcallCounter, hfunctionCounter] at hcalls
  obtain ⟨hpc, -, -, heffect⟩ := hcalls (arriving p.words 108 emptyStack) rfl rfl rfl rfl
  obtain ⟨hpc', -, -, heffect'⟩ := hreturns _ (arriving p.words 157 (returning 157)) 157 262 hret
    rfl (by rw [hretCounter]; rfl) rfl (holdsFrame_returning 157) (Ram.peek_poke_self _ _ _)
    (by decide) (by decide)
  exact ⟨a, p, haccepted, hpc, heffect.frame.back, hpc', heffect'.value.trans (peek_returning 157)⟩

/-! ## A call in the last words of the program memory -/

/-- A call that fills the program memory to the end. -/
def callAtEnd : List Action :=
  [.unit "Main", .write (.goto "start"), .write (.function "f" 0), .write (.push 7 7), .write .ret,
    .write (.function "pad" 6520), .write (.label "x"), .write (.goto "x"), .write .ret,
    .unit "Main", .write (.label "start"), .write (.call "f" 0)]

theorem callAtEnd_valid : ∀ a ∈ callAtEnd, a.Valid := by
  simp only [callAtEnd, List.forall_mem_cons]
  have hmain : isIdentifier "Main" = true := by decide
  exact ⟨hmain, ⟨_, rfl, rfl⟩, ⟨_, rfl, rfl⟩, ⟨_, rfl, rfl⟩, ⟨_, rfl, rfl⟩, ⟨_, rfl, rfl⟩,
    ⟨_, rfl, rfl⟩, ⟨_, rfl, rfl⟩, ⟨_, rfl, rfl⟩, hmain, ⟨_, rfl, rfl⟩, ⟨_, rfl, rfl⟩, by simp⟩

theorem counter_callAtEnd {n : Nat} :
    (run ⟨false, "", true⟩ (callAtEnd.take n)).counter =
      (callAtEnd.take n).foldl (fun n a => n + a.size) 0 :=
  counter_performAll (fun a ha => callAtEnd_valid a (List.mem_of_mem_take ha)) _

theorem assemble_callAtEnd :
    ∃ a p, Assembler.new.assemble (run ⟨false, "", true⟩ callAtEnd).text = (a, .ok p) := by
  have hdefined : definitions ⟨false, "", true⟩ callAtEnd =
      [.function "f", .function "pad", .label "pad" "x", .label "Main" "start",
        .back "Main" 0] := by
    simp only [definitions, callAtEnd, definesAll_cons]
    decide +kernel
  have hlowerable : Lowerable ⟨false, "", true⟩ callAtEnd :=
    ⟨by decide, callAtEnd_valid, by rw [hdefined]; decide, by rw [hdefined]; decide +kernel,
      by rw [hdefined]; decide⟩
  have hcounter := counter_callAtEnd (n := 12)
  obtain ⟨a, p, haccepted, -⟩ := hlowerable.assemble (by
    rw [show callAtEnd = callAtEnd.take 12 from rfl, hcounter]
    decide +kernel)
  exact ⟨a, p, haccepted⟩

/-- The call goes to the function, but what it has saved is not its return address. -/
theorem return_address_lost :
    ∃ a p, Assembler.new.assemble (run ⟨false, "", true⟩ callAtEnd).text = (a, .ok p) ∧
      a.address? "f" = some 2 ∧ a.address? (returnSymbol "Main" 0) = some 0x8000 ∧
      (Cpu.step^[49] (arriving p.words 32719 emptyStack)).pc = 2 ∧
      (Cpu.step^[49] (arriving p.words 32719 emptyStack)).ram.peek 256 = 0 := by
  obtain ⟨a, p, haccepted⟩ := assemble_callAtEnd
  have hentry : isFunctionName (Options.entryName ⟨false, "", true⟩) = true := by decide
  have hcall : Writes ⟨false, "", true⟩ callAtEnd (run ⟨false, "", true⟩ (callAtEnd.take 11))
      (.call "f" 0) := .action (show callAtEnd = callAtEnd.take 11 ++ _ :: [] from rfl) rfl
  have hfunction : Writes ⟨false, "", true⟩ callAtEnd (run ⟨false, "", true⟩ (callAtEnd.take 2))
      (.function "f" 0) :=
    .action (show callAtEnd = callAtEnd.take 2 ++ _ :: callAtEnd.drop 3 from rfl) rfl
  have hcallCounter : (run ⟨false, "", true⟩ (callAtEnd.take 11)).counter = 32719 := by
    rw [counter_callAtEnd]
    decide +kernel
  have hfunctionCounter : (run ⟨false, "", true⟩ (callAtEnd.take 2)).counter = 2 := by
    rw [counter_callAtEnd]
    decide +kernel
  obtain ⟨hscope, hcalls⟩ := scope_calls_performAll (new ⟨false, "", true⟩) (callAtEnd.take 11)
  replace hscope : (run ⟨false, "", true⟩ (callAtEnd.take 11)).scope = "Main" := by
    rw [run, hscope]
    decide +kernel
  replace hcalls : (run ⟨false, "", true⟩ (callAtEnd.take 11)).calls = 0 := by
    rw [run, hcalls]
    decide +kernel
  have haddress := hfunction.function_address hentry callAtEnd_valid haccepted
  obtain ⟨hback, -⟩ := hcall.call_words hentry callAtEnd_valid haccepted
  obtain ⟨hpc, -, -, heffect⟩ := hcall.call_effect hentry callAtEnd_valid haccepted hfunction
    (c := arriving p.words 32719 emptyStack) rfl (by rw [hcallCounter]; rfl) rfl
    peek_emptyStack (by decide) (by decide)
  rw [hcallCounter, hscope, hcalls] at hback
  rw [hfunctionCounter] at haddress hpc
  rw [hcallCounter] at heffect
  exact ⟨a, p, haccepted, haddress, hback, hpc, heffect.frame.back⟩

end Generator

end HackStack.Lowering
