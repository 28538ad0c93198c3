import HackStack.Proofs.Lowering.Control
import HackStack.Proofs.Lowering.Fragment
import HackStack.Proofs.Lowering.Pace

/-!
# What data commands write

`push`, `pop` and the operations work on the stack and the segments. `dataWrites` says which memory
cells such a command writes, in which order, and what it puts there, in terms of the memory before.
The code of the command makes these writes and no others, wherever it stands
(`data_command_effect`).

A `pop` computes its address before `SP` moves and clears the cell that it leaves before it stores,
so the popped word arrives even if its destination is that cell, `SP` or the scratch register.
-/

namespace HackStack.Vm

/-- Whether a command works on the stack and the segments alone. -/
def Command.isData : Command → Bool
  | arithmetic _ | push _ _ | pop _ _ => true
  | _ => false

end HackStack.Vm

namespace HackStack.Lowering

open HackStack.Assembly
open HackStack.Machine
open HackStack.Vm

/-! ## The writes -/

/-- The address of the word at an index of a segment, where `static` is the address of the static
variable with that index. A constant has none. -/
def segmentAddress (ram : Ram) (static : Word) (index : Int) : Segment → Word
  | .local => ram.peek 1 + BitVec.ofInt 16 index
  | .argument => ram.peek 2 + BitVec.ofInt 16 index
  | .this => ram.peek 3 + BitVec.ofInt 16 index
  | .that => ram.peek 4 + BitVec.ofInt 16 index
  | .temp => BitVec.ofInt 16 (5 + index)
  | .pointer => BitVec.ofInt 16 (3 + index)
  | .static => static
  | .constant => 0

def segmentWord (ram : Ram) (static : Word) (index : Int) : Segment → Word
  | .constant => BitVec.ofInt 16 index
  | s => ram.read (segmentAddress ram static index s)

/-- The cells that a data command writes when `SP` is `sp`, in order, and the words that it puts
there. -/
def dataWrites (ram : Ram) (static : Int → Word) (sp : Nat) : Command → List (Nat × Word)
  | .push s i => [(sp, segmentWord ram (static i) i s), (0, BitVec.ofNat 16 (sp + 1))]
  | .pop s i =>
    let address := segmentAddress ram (static i) i s
    [(13, address), (0, BitVec.ofNat 16 (sp - 1)), (sp - 1, 0),
      (address.toNat % ramCells, ram.peek (sp - 1))]
  | .arithmetic op =>
    if op.isUnary then [(sp - 1, op.result 0 (ram.peek (sp - 1)))]
    else
      [(0, BitVec.ofNat 16 (sp - 1)), (sp - 1, 0),
        (sp - 2, op.result (ram.peek (sp - 2)) (ram.peek (sp - 1)))]
  | _ => []

/-- The stack lies above the registers, has the operands of the command, and has room for its
result. -/
def StackSuits (sp : Nat) : Command → Prop
  | .push _ _ => 16 ≤ sp ∧ sp < ramCells
  | .pop _ _ => 17 ≤ sp ∧ sp ≤ ramCells
  | .arithmetic op => (if op.isUnary then 17 else 18) ≤ sp ∧ sp ≤ ramCells
  | _ => False

/-- The address that a program has given to the static variable of a unit. -/
def staticAddress (symbols : Bindings) (unit : Text) (index : Int) : Word :=
  (symbols[cellSymbol unit index]?).getD 0

section

variable {symbols : Bindings} (hregs : BindsRegisters symbols) {unit : Text} {s : Segment}
include hregs

theorem location_of_place {n : Nat} {p : Place} (hp : place unit s n = .ok p)
    (hs : s ≠ .constant) (ram : Ram) :
    p.location symbols ram = segmentAddress ram (staticAddress symbols unit n) n s := by
  cases s with
  | «local» =>
      cases hp
      rw [Place.location, hregs.lcl, segmentAddress, BitVec.ofInt_natCast]
      rfl
  | argument =>
      cases hp
      rw [Place.location, hregs.arg, segmentAddress, BitVec.ofInt_natCast]
      rfl
  | this =>
      cases hp
      rw [Place.location, hregs.this, segmentAddress, BitVec.ofInt_natCast]
      rfl
  | that =>
      cases hp
      rw [Place.location, hregs.that, segmentAddress, BitVec.ofInt_natCast]
      rfl
  | temp =>
      simp only [place] at hp
      split at hp
      · cases hp
        exact (BitVec.ofInt_natCast 16 (5 + n)).symm
      · cases hp
  | pointer =>
      simp only [place] at hp
      split at hp
      · cases hp
        exact (BitVec.ofInt_natCast 16 (3 + n)).symm
      · cases hp
  | static =>
      cases hp
      rfl
  | constant => exact absurd rfl hs

theorem word_of_place {n : Nat} {p : Place} (hp : place unit s n = .ok p) (ram : Ram) :
    p.word symbols ram = segmentWord ram (staticAddress symbols unit n) n s := by
  by_cases hs : s = .constant
  · subst hs
    cases hp
    exact (BitVec.ofInt_natCast 16 n).symm
  · rw [Place.word_eq_read hp hs, location_of_place hregs hp hs]
    cases s with
    | constant => exact absurd rfl hs
    | _ => rfl

end

/-! ## The code -/

section

variable {symbols : Bindings} (hregs : BindsRegisters symbols) {rom : Array Word} {start sp : Nat}
  {k : Core} {c : Cpu} (hat : At rom start k c) (hsp : k.ram.peek 0 = BitVec.ofNat 16 sp)
include hregs hat hsp

theorem passes_arithmetic {op : Op} (static : Int → Word)
    (hcode : Installed symbols rom start (arithmeticBlock start op))
    (hsuits : StackSuits sp (.arithmetic op)) :
    ∃ n, Passes start (start + (Command.arithmetic op).size) n
      (dataWrites k.ram static sp (.arithmetic op)) c := by
  cases hop : op.isUnary with
  | true =>
      rw [StackSuits, if_pos hop] at hsuits
      obtain ⟨low, rfl⟩ : ∃ low, sp = low + 1 := ⟨sp - 1, by omega⟩
      rw [dataWrites, if_pos hop]
      exact ⟨3, passes_unary hregs hat hop hcode hsp (by omega)⟩
  | false =>
      rw [StackSuits, if_neg (by simp [hop])] at hsuits
      obtain ⟨low, rfl⟩ : ∃ low, sp = low + 2 := ⟨sp - 2, by omega⟩
      rw [dataWrites, if_neg (by simp [hop])]
      obtain ⟨n, -, hpass⟩ := passes_binary hregs hat hop hcode hsp (by omega) (by omega)
      exact ⟨n, hpass⟩

variable {unit : Text} {s : Segment} {i : Nat} {p : Place} (hp : place unit s i = .ok p)
include hp

theorem passes_push (hcode : Installed symbols rom start (pushBlock p))
    (hsuits : StackSuits sp (.push s i)) :
    ∃ n, Passes start (start + (Command.push s i).size) n
      (dataWrites k.ram (staticAddress symbols unit) sp (.push s i)) c := by
  obtain ⟨hlow, hhigh⟩ := hsuits
  have hpass := passes_pushBlock hregs hat hcode hsp (by omega) hhigh
  rw [word_of_place hregs hp, length_pushBlock hp] at hpass
  exact ⟨_, hpass⟩

theorem passes_pop {address : List Instruction} (haddress : p.address = .ok address)
    (hcode : Installed symbols rom start (popCode address)) (hsuits : StackSuits sp (.pop s i)) :
    ∃ n, Passes start (start + (Command.pop s i).size) n
      (dataWrites k.ram (staticAddress symbols unit) sp (.pop s i)) c := by
  obtain ⟨hlow, hhigh⟩ := hsuits
  obtain ⟨low, rfl⟩ : ∃ low, sp = low + 1 := ⟨sp - 1, by omega⟩
  have hpass := passes_popCode hregs hat haddress hcode hsp (by omega) (by omega)
  rw [location_of_place hregs hp ((exists_address_iff hp).mp ⟨_, haddress⟩),
    length_popCode hp haddress] at hpass
  exact ⟨_, hpass⟩

end

/-- A data command that was accepted has code, which makes the writes of the command. -/
theorem exists_dataCode (e : Generator) {c : Command} (hvalid : c.isValid = true)
    (hdata : c.isData = true) :
    ∃ code, e.block c = .ok (code.map .instruction) ∧ code.length = c.size ∧
      ∀ (symbols : Bindings) (cpu : Cpu) (sp : Nat), BindsRegisters symbols →
        Installed symbols cpu.rom e.counter code → cpu.pc = BitVec.ofNat 16 e.counter →
        cpu.halted = false → cpu.ram.peek 0 = BitVec.ofNat 16 sp → StackSuits sp c →
          ∃ n, Passes e.counter (e.counter + c.size) n
            (dataWrites cpu.ram (staticAddress symbols e.unit) sp c) cpu := by
  have hat : ∀ cpu : Cpu, cpu.pc = BitVec.ofNat 16 e.counter → cpu.halted = false →
      At cpu.rom e.counter cpu.core cpu := fun cpu hpc hrun => ⟨rfl, hpc, rfl, hrun⟩
  obtain ⟨lines, hblock⟩ := e.block_of_isValid hvalid
  cases c with
  | arithmetic op =>
      refine ⟨_, rfl, length_arithmeticBlock _ _, ?_⟩
      intro symbols cpu sp hregs hcode hpc hrun hsp hsuits
      exact passes_arithmetic hregs (hat cpu hpc hrun) hsp _ hcode hsuits
  | push s i =>
      obtain ⟨n, rfl⟩ := Int.eq_ofNat_of_zero_le (Command.index_nonneg hvalid (Or.inl rfl))
      obtain ⟨p, hp, rfl⟩ := Generator.block_push hblock
      refine ⟨_, hblock, length_pushBlock hp, ?_⟩
      intro symbols cpu sp hregs hcode hpc hrun hsp hsuits
      exact passes_push hregs (hat cpu hpc hrun) hsp hp hcode hsuits
  | pop s i =>
      obtain ⟨n, rfl⟩ := Int.eq_ofNat_of_zero_le (Command.index_nonneg hvalid (Or.inr rfl))
      obtain ⟨p, address, hp, haddress, rfl⟩ := Generator.block_pop hblock
      refine ⟨_, hblock, length_popCode hp haddress, ?_⟩
      intro symbols cpu sp hregs hcode hpc hrun hsp hsuits
      exact passes_pop hregs (hat cpu hpc hrun) hsp hp haddress hcode hsuits
  | _ => cases hdata

namespace Generator

/-- The code of a data command loads small numbers, predefined symbols and its static variable. -/
theorem loads_data {e : Generator} {act : Action} {c : Command} {code : List Instruction}
    (hact : act.command? = some c) (hdata : c.isData = true) (hvalid : c.isValid = true)
    (hfits : e.counter + c.size ≤ programSize) (hblock : e.block c = .ok (code.map .instruction)) :
    ∀ i ∈ code, i.Loads
      (fun t => t ∈ predefined.map Prod.fst ∨ ∃ n : Nat, t = cellSymbol e.unit n) programSize := by
  have hcell : ∀ s ∈ e.mentions act, ∃ n : Nat, s.text = cellSymbol e.unit n := by
    intro s hs
    rw [mentions, hact] at hs
    cases c with
    | push segment i =>
        cases segment with
        | static => exact ⟨i.toNat, congrArg CodeSymbol.text (List.mem_singleton.mp hs)⟩
        | _ => cases hs
    | pop segment i =>
        cases segment with
        | static => exact ⟨i.toNat, congrArg CodeSymbol.text (List.mem_singleton.mp hs)⟩
        | _ => cases hs
    | arithmetic op => cases hs
    | _ => cases hdata
  intro i hi
  refine loads_block hact hvalid ?_ ?_ (Nat.le_refl _) hfits hblock i ?_
  · exact fun r hr => Or.inl (List.mem_map_of_mem hr)
  · exact fun s hs => Or.inr (hcell s hs)
  · rwa [codeInstructions_instructions]

section

variable {options : Options} {actions : List Action}
  (hentry : isFunctionName options.entryName = true) (hvalid : ∀ a ∈ actions, a.Valid)
  {a : Assembler} {p : Program}
  (haccepted : Assembler.new.assemble (run options actions).text = (a, .ok p))
include hentry hvalid haccepted

/-- **The code of a data command is installed** in every program that was accepted. -/
theorem Writes.installed_data {e : Generator} {c : Command} {code : List Instruction}
    (h : Writes options actions e c) (hdata : c.isData = true)
    (hblock : e.block c = .ok (code.map .instruction)) :
    Installed a.symbols p.words e.counter code := by
  have hsize : programSize = 0x8000 := rfl
  have hassembled := assembled_run hentry hvalid haccepted
  have hcommand := h.isValid hentry hvalid
  have hwritten := h.mem_code hblock
  have hfits := h.fits_program hentry hvalid haccepted
  obtain ⟨lines, hlines, hcode, -⟩ := h.laid hentry hvalid hassembled.image
  cases hblock.symm.trans hlines
  rw [codeInstructions_instructions] at hcode
  have hlength := countP_block hblock
  rw [countP_instructions] at hlength
  refine ⟨hcode, ?_, hlength ▸ hfits⟩
  cases h with
  | start hb => cases hdata
  | @action before after act _ hactions hact =>
      subst hactions
      have hnamed : ∀ b ∈ before, b.isNamed = true := fun b hb =>
        (hvalid b (List.mem_append_left _ hb)).isNamed
      have hloads := loads_data hact hdata hcommand hfits hblock
      intro o w ho hw
      cases o with
      | number n =>
          obtain ⟨hpos, hlt⟩ := hloads _ ho
          cases Option.some.inj hw
          exact msb_ofNat_of_lt (by omega)
      | symbol t =>
          rcases hloads _ ho with hpredefined | ⟨n, rfl⟩
          · obtain ⟨r, hr, rfl⟩ := List.mem_map.mp hpredefined
            cases (hassembled.image.predefined r hr).symm.trans hw
            rw [BitVec.msb_eq_false_iff_two_mul_lt]
            have hsmall := predefined_small r hr
            omega
          · -- the static variable is a variable of the program
            refine loads_variable hassembled (mem_freeOperands.mpr ⟨?_, ?_, ?_⟩) hw
            · exact mem_codeInstructions.mpr (hwritten _ (List.mem_map_of_mem ho))
            · exact cellSymbol_notMem_codeLabels hentry hvalid
                (named_run options before hnamed).unit n
            · exact @CodeSymbol.text_notMem_predefined (.cell _ n) rfl

/-- The static variable of a data command has an address in the program. -/
theorem Writes.static_address {e : Generator} {c : Command} {n : Nat}
    (h : Writes options actions e c) (hc : c = .push .static n ∨ c = .pop .static n) :
    a.address? (cellSymbol e.unit n) = some (staticAddress a.symbols e.unit n) := by
  have hassembled := assembled_run hentry hvalid haccepted
  obtain ⟨lines, hlines, hcode, -⟩ := h.laid hentry hvalid hassembled.image
  obtain ⟨rest, hrest⟩ := e.block_of_static hc
  cases hrest.symm.trans hlines
  rw [codeInstructions_instructions] at hcode
  obtain ⟨w, hw, -⟩ := hcode 0 _ rfl
  have hbound : a.symbols[cellSymbol e.unit n]? = some w := hw
  rw [staticAddress, Assembler.address?, hbound]
  rfl

end

end Generator

/-- **What data commands write.** Wherever the code of a data command is installed and the stack
suits the command, the processor runs through the code, leaves it at its end, and makes the writes
of the command, in this order and no others. In a program that was accepted the code of each data
command is installed, and its static variable has an address. -/
theorem data_command_effect (e : Generator) {c : Command} (haccepted : c.Accepted)
    (hdata : c.isData = true) :
    ∃ code, e.block c = .ok (code.map .instruction) ∧
      (e.write c).1.counter = e.counter + code.length ∧
      (∀ (symbols : Bindings) (cpu : Cpu) (sp : Nat), BindsRegisters symbols →
        Installed symbols cpu.rom e.counter code → cpu.pc = BitVec.ofNat 16 e.counter →
        cpu.halted = false → cpu.ram.peek 0 = BitVec.ofNat 16 sp → StackSuits sp c →
          ∃ n, Passes e.counter (e.counter + code.length) n
            (dataWrites cpu.ram (staticAddress symbols e.unit) sp c) cpu) ∧
      ∀ (options : Options) (actions : List Action) (a : Assembler) (p : Program),
        isFunctionName options.entryName = true → (∀ act ∈ actions, act.Valid) →
        Assembler.new.assemble (Generator.run options actions).text = (a, .ok p) →
        Generator.Writes options actions e c →
          BindsRegisters a.symbols ∧ Installed a.symbols p.words e.counter code ∧
            ∀ n : Nat, c = .push .static n ∨ c = .pop .static n →
              a.address? (cellSymbol e.unit n) = some (staticAddress a.symbols e.unit n) := by
  have hvalid := haccepted.isValid
  obtain ⟨code, hblock, hlength, hpasses⟩ := exists_dataCode e hvalid hdata
  refine ⟨code, hblock, ?_, ?_, ?_⟩
  · rw [← e.perform_ofCommand, Generator.counter_perform (Action.command?_ofCommand c) hvalid,
      hlength]
  · rw [hlength]
    exact hpasses
  · intro options actions a p hentry hactions hassemble hwrites
    exact ⟨(Generator.assembled_run hentry hactions hassemble).image.predefined,
      hwrites.installed_data hentry hactions hassemble hdata hblock,
      fun n hc => hwrites.static_address hentry hactions hassemble hc⟩

/-- Pops a word to the cell that it is popped from. -/
def poppingInPlace : List Action := [.unit "Main", .write (.push 7 7), .write (.pop 1 0)]

/-- Memory in which the first local word is the topmost word of the stack. -/
def inPlace : Ram := ((Ram.zero.poke 0 257).poke 1 256).poke 256 7

theorem peek_inPlace : inPlace.peek 0 = 257 ∧ inPlace.peek 1 = 256 ∧ inPlace.peek 256 = 7 := by
  refine ⟨?_, ?_, Ram.peek_poke_self _ _ _⟩
  · rw [inPlace, Ram.peek_poke_of_ne _ _ (by decide) (by decide) (by decide),
      Ram.peek_poke_of_ne _ _ (by decide) (by decide) (by decide), Ram.peek_poke_self]
  · rw [inPlace, Ram.peek_poke_of_ne _ _ (by decide) (by decide) (by decide), Ram.peek_poke_self]

/-- The cell is cleared before the word is stored there, so the word survives. -/
theorem data_command_effect_inPlace :
    (Command.pop .local 0).Accepted ∧
    ∃ a p,
      Assembler.new.assemble (Generator.run ⟨false, "", true⟩ poppingInPlace).text = (a, .ok p) ∧
      ∃ n, (Cpu.step^[n] (arriving p.words 7 inPlace)).pc = 20 ∧
        (arriving p.words 7 inPlace).writes n = [(13, 256), (0, 256), (256, 0), (256, 7)] ∧
        (Cpu.step^[n] (arriving p.words 7 inPlace)).ram.peek 256 = 7 := by
  have hpop : (Command.pop .local 0).Accepted := ⟨"pop local 0", 1, by decide⟩
  have hvalid : ∀ a ∈ poppingInPlace, a.Valid := by
    simp only [poppingInPlace, List.forall_mem_cons]
    exact ⟨show isIdentifier "Main" = true by decide, ⟨_, rfl, rfl⟩, ⟨_, rfl, rfl⟩, by simp⟩
  have hlowerable : Generator.Lowerable ⟨false, "", true⟩ poppingInPlace :=
    ⟨by decide, hvalid, by decide +kernel, by decide +kernel, by decide +kernel⟩
  obtain ⟨a, p, haccepted, -⟩ := hlowerable.assemble (by decide +kernel)
  have hwrites : Generator.Writes ⟨false, "", true⟩ poppingInPlace
      (Generator.run ⟨false, "", true⟩ (poppingInPlace.take 2)) (.pop .local 0) :=
    .action (show poppingInPlace = poppingInPlace.take 2 ++ _ :: [] from rfl) rfl
  have hcounter : (Generator.run ⟨false, "", true⟩ (poppingInPlace.take 2)).counter = 7 := by
    decide +kernel
  obtain ⟨code, hblock, -, hpasses, hplaced⟩ := data_command_effect
    (Generator.run ⟨false, "", true⟩ (poppingInPlace.take 2)) hpop rfl
  obtain ⟨hregs, hinstalled, -⟩ := hplaced _ _ a p (by decide) hvalid haccepted hwrites
  have hlength : code.length = 13 := by
    have hsize := countP_block hblock
    rwa [countP_instructions] at hsize
  obtain ⟨hsp, hlcl, hword⟩ := peek_inPlace
  rw [hcounter, hlength] at hpasses
  rw [hcounter] at hinstalled
  obtain ⟨n, hpass⟩ := hpasses a.symbols (arriving p.words 7 inPlace) 257 hregs hinstalled rfl rfl
    hsp ⟨by decide, by decide⟩
  have hlog : dataWrites inPlace
      (staticAddress a.symbols (Generator.run ⟨false, "", true⟩ (poppingInPlace.take 2)).unit) 257
        (.pop .local 0) = [(13, 256), (0, 256), (256, 0), (256, 7)] := by
    simp only [dataWrites, segmentAddress, hlcl, hword]
    decide
  refine ⟨hpop, a, p, haccepted, n, hpass.leaves, hpass.writes.trans hlog, ?_⟩
  rw [hpass.ram, show (arriving p.words 7 inPlace).ram = inPlace from rfl, hlog]
  exact Ram.peek_poke_self _ _ _

end HackStack.Lowering
