import Mathlib.Logic.Function.Iterate
import HackStack.Proofs.Assembly.Image
import HackStack.Proofs.Machine.Memory
import HackStack.Proofs.Machine.Step

/-!
# Straight-line code

Code that does not jump acts on the registers and the memory alone. `Instruction.exec` is what one
instruction does there and `execAll` what several do; `Installed` says that the program memory holds
the words of code. A processor that stands at installed straight-line code has executed all of it
after as many steps as there are instructions (`At.straight`). What a jump does is `At.jump`.
-/

namespace HackStack.Assembly

open HackStack.Machine

namespace Instruction

/-- What an instruction does to the registers and the memory. -/
def exec (symbols : Bindings) (k : Core) : Instruction → Core
  | load operand => ⟨((load operand).word? symbols).getD 0, k.d, k.ram⟩
  | compute dest comp _ => k.store dest (comp.value k)

/-- Whether the next instruction always follows. -/
def isStraight : Instruction → Bool
  | load _ => true
  | compute _ _ jump => jump == .never

variable {symbols : Bindings} {k : Core}

theorem exec_symbol {name : Text} {v : Word} (h : symbols[name]? = some v) :
    (symbol name).exec symbols k = ⟨v, k.d, k.ram⟩ := by
  show Core.mk ((symbols[name]?).getD 0) k.d k.ram = _
  rw [h]
  rfl

@[simp] theorem exec_number {n : Int} :
    (number n).exec symbols k = ⟨BitVec.ofNat 16 n.toNat, k.d, k.ram⟩ := rfl

@[simp] theorem exec_setA {c : Comp} : (setA c).exec symbols k = ⟨c.value k, k.d, k.ram⟩ := rfl

@[simp] theorem exec_setD {c : Comp} : (setD c).exec symbols k = ⟨k.a, c.value k, k.ram⟩ := rfl

@[simp] theorem exec_setM {c : Comp} :
    (setM c).exec symbols k = ⟨k.a, k.d, k.ram.write k.a (c.value k)⟩ := rfl

@[simp] theorem exec_setAM {c : Comp} :
    (setAM c).exec symbols k = ⟨c.value k, k.d, k.ram.write k.a (c.value k)⟩ := rfl

@[simp] theorem isStraight_symbol {name : Text} : (symbol name).isStraight = true := rfl

@[simp] theorem isStraight_number {n : Int} : (number n).isStraight = true := rfl

@[simp] theorem isStraight_load {o : Operand} : (load o).isStraight = true := rfl

@[simp] theorem isStraight_setA {c : Comp} : (setA c).isStraight = true := rfl

@[simp] theorem isStraight_setD {c : Comp} : (setD c).isStraight = true := rfl

@[simp] theorem isStraight_setM {c : Comp} : (setM c).isStraight = true := rfl

@[simp] theorem isStraight_setAM {c : Comp} : (setAM c).isStraight = true := rfl

end Instruction

def execAll (symbols : Bindings) (code : List Instruction) (k : Core) : Core :=
  code.foldl (Instruction.exec symbols) k

@[simp] theorem execAll_nil (symbols : Bindings) (k : Core) : execAll symbols [] k = k := rfl

@[simp] theorem execAll_cons (symbols : Bindings) (i : Instruction) (code : List Instruction)
    (k : Core) : execAll symbols (i :: code) k = execAll symbols code (i.exec symbols k) := rfl

theorem execAll_append (symbols : Bindings) (first second : List Instruction) (k : Core) :
    execAll symbols (first ++ second) k = execAll symbols second (execAll symbols first k) :=
  List.foldl_append

/-! ## Installed code -/

theorem msb_ofNat_of_lt {n : Nat} (h : n < programSize) : (BitVec.ofNat 16 n).msb = false := by
  have hsize : programSize = 0x8000 := rfl
  rw [BitVec.msb_eq_false_iff_two_mul_lt, BitVec.toNat_ofNat, Nat.mod_eq_of_lt (by omega)]
  omega

/-- The words that code loads have bit 15 clear. -/
def LoadsSmall (symbols : Bindings) (code : List Instruction) : Prop :=
  ∀ o w, .load o ∈ code → (Instruction.load o).word? symbols = some w → w.msb = false

/-- The program memory holds code at an address. -/
structure Installed (symbols : Bindings) (rom : Array Word) (start : Nat)
    (code : List Instruction) : Prop where
  words : CodeAt symbols rom.toList start code
  small : LoadsSmall symbols code
  fits : start + code.length ≤ programSize

theorem Installed.append_iff {symbols : Bindings} {rom : Array Word} {start : Nat}
    {first second : List Instruction} :
    Installed symbols rom start (first ++ second) ↔
      Installed symbols rom start first ∧
        Installed symbols rom (start + first.length) second := by
  constructor
  · rintro ⟨hwords, hsmall, hfits⟩
    rw [CodeAt.append_iff] at hwords
    rw [List.length_append] at hfits
    exact ⟨⟨hwords.1, fun o w ho => hsmall o w (List.mem_append_left _ ho), by omega⟩,
      ⟨hwords.2, fun o w ho => hsmall o w (List.mem_append_right _ ho), by omega⟩⟩
  · rintro ⟨⟨hfirst, hsmallFirst, -⟩, ⟨hsecond, hsmallSecond, hfits⟩⟩
    refine ⟨CodeAt.append_iff.mpr ⟨hfirst, hsecond⟩, fun o w ho => ?_, ?_⟩
    · rcases List.mem_append.mp ho with ho | ho
      · exact hsmallFirst o w ho
      · exact hsmallSecond o w ho
    · rw [List.length_append]
      omega

theorem Installed.cons_iff {symbols : Bindings} {rom : Array Word} {start : Nat} {i : Instruction}
    {code : List Instruction} :
    Installed symbols rom start (i :: code) ↔
      Installed symbols rom start [i] ∧ Installed symbols rom (start + 1) code :=
  @Installed.append_iff symbols rom start [i] code

/-- The word of the first installed instruction. -/
theorem Installed.head {symbols : Bindings} {rom : Array Word} {start : Nat} {i : Instruction}
    (h : Installed symbols rom start [i]) :
    ∃ w, i.word? symbols = some w ∧ rom[start]? = some w := by
  obtain ⟨w, hw, hrom⟩ := h.words 0 i rfl
  rw [Nat.add_zero, Array.getElem?_toList] at hrom
  exact ⟨w, hw, hrom⟩

end HackStack.Assembly

namespace HackStack.Machine

open HackStack.Assembly

/-! ## Executing installed code -/

/-- A running processor at a program address, with given registers and memory. -/
structure At (rom : Array Word) (pc : Nat) (k : Core) (c : Cpu) : Prop where
  rom : c.rom = rom
  pc : c.pc = BitVec.ofNat 16 pc
  core : c.core = k
  running : c.halted = false

/-- A processor that comes to a program address with a given memory. -/
def arriving (rom : Array Word) (start : Nat) (ram : Ram) : Cpu :=
  { Cpu.load rom with pc := BitVec.ofNat 16 start, ram := ram }

theorem At.fetch {rom : Array Word} {p : Nat} {k : Core} {c : Cpu} (h : At rom p k c)
    (hp : p < programSize) : c.rom[c.pc.toNat]? = rom[p]? := by
  have hsize : programSize = 0x8000 := rfl
  rw [h.rom, h.pc, BitVec.toNat_ofNat, Nat.mod_eq_of_lt (by omega)]

/-- One instruction that does not jump. -/
theorem At.exec {symbols : Bindings} {rom : Array Word} {p : Nat} {k : Core} {c : Cpu}
    {i : Instruction} (h : At rom p k c) (hi : Installed symbols rom p [i])
    (hstraight : i.isStraight = true) : At rom (p + 1) (i.exec symbols k) c.step := by
  obtain ⟨w, hw, hrom⟩ := hi.head
  have hfits : p < programSize := hi.fits
  rw [← h.fetch hfits] at hrom
  have hcore := h.core
  have hpc : c.pc + 1 = BitVec.ofNat 16 (p + 1) := by
    rw [h.pc, BitVec.ofNat_add]
    rfl
  cases i with
  | load o =>
      have hstep := Cpu.step_load h.running hrom (hi.small o w List.mem_cons_self hw)
      rw [hstep]
      refine ⟨h.rom, hpc, ?_, h.running⟩
      rw [Instruction.exec, hw, ← hcore]
      rfl
  | compute dest comp jump =>
      have hjump : jump = .never := beq_iff_eq.mp hstraight
      cases Option.some.inj hw
      obtain ⟨hcore', hpc', hrom', hhalted⟩ := Cpu.step_compute h.running hrom
      refine ⟨hrom'.trans h.rom, ?_, ?_, ?_⟩
      · rw [hpc', hjump]
        exact hpc
      · rw [hcore', hcore]
        rfl
      · rw [hhalted, hjump]
        rfl

/-- **Straight-line code.** -/
theorem At.straight {symbols : Bindings} {rom : Array Word} {code : List Instruction} {p : Nat}
    {k : Core} {c : Cpu} (h : At rom p k c) (hcode : Installed symbols rom p code)
    (hstraight : ∀ i ∈ code, i.isStraight = true) :
    At rom (p + code.length) (execAll symbols code k) (Cpu.step^[code.length] c) := by
  induction code generalizing p k c with
  | nil => exact h
  | cons i code ih =>
      obtain ⟨hi, hrest⟩ := Installed.cons_iff.mp hcode
      obtain ⟨hstraightI, hstraightRest⟩ := List.forall_mem_cons.mp hstraight
      have hnext := ih (h.exec hi hstraightI) hrest hstraightRest
      rw [List.length_cons, Function.iterate_succ_apply, execAll_cons, Nat.add_comm code.length 1,
        ← Nat.add_assoc]
      exact hnext

/-- **A jump.** It leaves registers and memory alone, and halts if it is unconditional and leads to
the instruction before it. -/
theorem At.jump {symbols : Bindings} {rom : Array Word} {p : Nat} {k : Core} {c : Cpu}
    {comp : Comp} {jump : Jump} (h : At rom p k c)
    (hi : Installed symbols rom p [.jumpOn comp jump]) :
    c.step.rom = rom ∧ c.step.core = k ∧
      c.step.pc = (if jump.holds (comp.value k) then k.a else BitVec.ofNat 16 (p + 1)) ∧
      c.step.halted = (jump == .jmp && k.a + 1 == BitVec.ofNat 16 p) := by
  obtain ⟨w, hw, hrom⟩ := hi.head
  have hfits : p < programSize := hi.fits
  rw [← h.fetch hfits] at hrom
  cases Option.some.inj hw
  obtain ⟨hcore', hpc', hrom', hhalted⟩ := Cpu.step_compute h.running hrom
  have ha : c.a = k.a := congrArg Core.a h.core
  have hpc : c.pc + 1 = BitVec.ofNat 16 (p + 1) := by
    rw [h.pc, BitVec.ofNat_add]
    rfl
  refine ⟨hrom'.trans h.rom, ?_, ?_, ?_⟩
  · rw [hcore', h.core]
    rfl
  · rw [hpc', h.core, ha, hpc]
  · rw [hhalted, ha, h.pc]

end HackStack.Machine
