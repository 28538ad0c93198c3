import Mathlib.Tactic.IntervalCases
import HackStack.Assembly.Mnemonic
import HackStack.Machine.Cpu

/-!
# One step of the processor

A word with bit 15 clear loads itself (`step_load`). A word that encodes a computation evaluates
what its mnemonic spells, stores it where its destination says and jumps if the sign of the result
is right (`step_compute`). `Core` is what instructions compute on: the two registers and the memory.
-/

namespace HackStack.Machine

/-- The registers and the memory. -/
structure Core where
  a : Word
  d : Word
  ram : Ram

def Cpu.core (c : Cpu) : Core := ⟨c.a, c.d, c.ram⟩

/-- The memory word that `A` addresses. -/
def Core.m (k : Core) : Word := k.ram.read k.a

end HackStack.Machine

namespace HackStack.Assembly

open HackStack.Machine

def Comp.value (k : Core) : Comp → Word
  | .zero => 0
  | .one => 1
  | .minusOne => -1
  | .d => k.d
  | .a => k.a
  | .notD => ~~~k.d
  | .notA => ~~~k.a
  | .negD => -k.d
  | .negA => -k.a
  | .dPlusOne => k.d + 1
  | .aPlusOne => k.a + 1
  | .dMinusOne => k.d - 1
  | .aMinusOne => k.a - 1
  | .dPlusA => k.d + k.a
  | .dMinusA => k.d - k.a
  | .aMinusD => k.a - k.d
  | .dAndA => k.d &&& k.a
  | .dOrA => k.d ||| k.a
  | .m => k.m
  | .notM => ~~~k.m
  | .negM => -k.m
  | .mPlusOne => k.m + 1
  | .mMinusOne => k.m - 1
  | .dPlusM => k.d + k.m
  | .dMinusM => k.d - k.m
  | .mMinusD => k.m - k.d
  | .dAndM => k.d &&& k.m
  | .dOrM => k.d ||| k.m

def Jump.holds (out : Word) : Jump → Bool
  | .never => false
  | .jgt => !out.msb && out != 0
  | .jeq => out == 0
  | .jge => !out.msb
  | .jlt => out.msb
  | .jne => out != 0
  | .jle => out.msb || out == 0
  | .jmp => true

end HackStack.Assembly

namespace HackStack.Machine

open HackStack.Assembly

/-- The cells of a destination receive a word. The memory is addressed by the `A` of before. -/
def Core.store (k : Core) (dest : Dest) (out : Word) : Core where
  a := if dest.a then out else k.a
  d := if dest.d then out else k.d
  ram := if dest.m then k.ram.write k.a out else k.ram

/-! ## Bits of an encoded computation -/

section

variable (c d j : Word)

theorem encodeCompute_bit_fifteen : (encodeCompute c d j).getLsbD 15 = true := by
  simp [encodeCompute]

theorem encodeCompute_bit_twelve : (encodeCompute c d j).getLsbD 12 = c.getLsbD 6 := by
  simp [encodeCompute]

theorem encodeCompute_control {i : Nat} (hi : i < 6) :
    (encodeCompute c d j >>> 6).getLsbD i = c.getLsbD i := by
  interval_cases i <;> simp [encodeCompute]

theorem encodeCompute_dest {i : Nat} (hi : i < 3) :
    (encodeCompute c d j).getLsbD (3 + i) = d.getLsbD i := by
  interval_cases i <;> simp [encodeCompute]

theorem encodeCompute_jump {i : Nat} (hi : i < 3) :
    (encodeCompute c d j).getLsbD i = j.getLsbD i := by
  interval_cases i <;> simp [encodeCompute]

theorem encodeCompute_and_seven : encodeCompute c d j &&& 7 = j &&& 7 := by
  apply BitVec.eq_of_getLsbD_eq
  intro i hi
  interval_cases i <;> simp [encodeCompute]

end

/-! ## Computing -/

section

variable (x y : Word)

theorem ones_and : 65535#16 &&& x = x := BitVec.allOnes_and

theorem and_ones : x &&& 65535#16 = x := BitVec.and_allOnes

theorem add_ones : x + 65535#16 = x - 1#16 := by bv_omega

theorem ones_add : 65535#16 + x = x - 1#16 := by bv_omega

theorem not_sub_one : ~~~(x - 1#16) = -x := by bv_omega

theorem neg_not : -(~~~x) = x + 1#16 := by bv_omega

theorem not_not_add : ~~~(~~~x + y) = x - y := by bv_omega

theorem not_add_not : ~~~(x + ~~~y) = y - x := by bv_omega

theorem not_and_not : ~~~(~~~x &&& ~~~y) = x ||| y := by
  rw [BitVec.not_and, BitVec.not_not, BitVec.not_not]

end

/-- The arithmetic unit computes what the mnemonic spells. -/
theorem alu_encodeCompute (k : Core) (comp : Comp) (d j : Word) :
    alu k.d (if comp.code.getLsbD 6 then k.m else k.a) (encodeCompute comp.code d j >>> 6) =
      comp.value k := by
  unfold alu
  simp only [encodeCompute_control comp.code d j (show 5 < 6 by decide),
    encodeCompute_control comp.code d j (show 4 < 6 by decide),
    encodeCompute_control comp.code d j (show 3 < 6 by decide),
    encodeCompute_control comp.code d j (show 2 < 6 by decide),
    encodeCompute_control comp.code d j (show 1 < 6 by decide),
    encodeCompute_control comp.code d j (show 0 < 6 by decide)]
  cases comp <;>
    simp [Comp.code, Comp.value, ones_and, and_ones, add_ones, ones_add, not_sub_one, neg_not,
      not_not_add, not_add_not, not_and_not]

theorem dest_code_bits (dest : Dest) :
    dest.code.getLsbD 2 = dest.a ∧ dest.code.getLsbD 1 = dest.d ∧ dest.code.getLsbD 0 = dest.m := by
  obtain ⟨a, d, m⟩ := dest
  cases a <;> cases d <;> cases m <;> decide

theorem jumps_encodeCompute (out c d : Word) (jump : Jump) :
    jumps out (encodeCompute c d jump.code) = jump.holds out := by
  unfold jumps
  rw [encodeCompute_jump c d jump.code (show 2 < 3 by decide),
    encodeCompute_jump c d jump.code (show 1 < 3 by decide),
    encodeCompute_jump c d jump.code (show 0 < 3 by decide)]
  by_cases h : out = 0
  · cases h
    cases jump <;> decide
  · have hne : ¬ out = 0#16 := h
    cases jump <;> cases hmsb : out.msb <;> simp [Jump.code, Jump.holds, hmsb, hne]

/-! ## Steps -/

theorem Cpu.step_load {c : Cpu} {w : Word} (hrun : c.halted = false)
    (hw : c.rom[c.pc.toNat]? = some w) (hmsb : w.msb = false) :
    c.step = { c with a := w, pc := c.pc + 1, steps := c.steps + 1 } := by
  have hbit : w.getLsbD 15 = false := by rwa [BitVec.msb_eq_getLsbD_last] at hmsb
  simp only [step, hrun, hw, hbit, Bool.false_eq_true, if_false]

/-- Behind the last word of the program there is nothing to execute. -/
theorem Cpu.step_at_end {c : Cpu} (hrun : c.halted = false) (h : c.rom[c.pc.toNat]? = none) :
    c.step = { c with halted := true } := by
  simp only [step, hrun, h, Bool.false_eq_true, if_false]

theorem Cpu.step_computing {c : Cpu} {w : Word} (hrun : c.halted = false)
    (hw : c.rom[c.pc.toNat]? = some w) (hmsb : w.msb = true) :
    c.step = ({ c with steps := c.steps + 1 } : Cpu).compute w := by
  have hbit : w.getLsbD 15 = true := by rwa [BitVec.msb_eq_getLsbD_last] at hmsb
  simp only [step, hrun, hw, hbit, Bool.false_eq_true, if_false, if_true]

/-- A computing word without the bit for `A` leaves `A` as it was. -/
theorem Cpu.step_a_of_bit_clear {c : Cpu} {w : Word} (hrun : c.halted = false)
    (hw : c.rom[c.pc.toNat]? = some w) (hmsb : w.msb = true) (hdest : w.getLsbD 5 = false) :
    c.step.a = c.a := by
  have hbit : w.getLsbD 15 = true := by rwa [BitVec.msb_eq_getLsbD_last] at hmsb
  simp only [step, hrun, hw, hbit, hdest, compute, Bool.false_eq_true, if_false, if_true]

/-- The word with bit 15 alone computes and forgets the result. -/
theorem Cpu.step_of_top_bit {c : Cpu} (hrun : c.halted = false)
    (hw : c.rom[c.pc.toNat]? = some 0x8000) :
    c.step = { c with pc := c.pc + 1, steps := c.steps + 1 } := by
  have hbit : ∀ i < 15, (0x8000 : Word).getLsbD i = false := by decide
  have htop : (0x8000 : Word).getLsbD 15 = true := by decide
  simp only [step, hrun, hw, htop, compute, jumps, hbit 5 (by decide), hbit 4 (by decide),
    hbit 3 (by decide), hbit 2 (by decide), hbit 1 (by decide), hbit 0 (by decide),
    Bool.false_eq_true, if_false, if_true, Bool.false_and, Bool.or_false]

/-- **One computing step.** -/
theorem Cpu.step_compute {c : Cpu} {comp : Comp} {dest : Dest} {jump : Jump}
    (hrun : c.halted = false)
    (hw : c.rom[c.pc.toNat]? = some (encodeCompute comp.code dest.code jump.code)) :
    c.step.core = c.core.store dest (comp.value c.core) ∧
      c.step.pc = (if jump.holds (comp.value c.core) then c.a else c.pc + 1) ∧
      c.step.rom = c.rom ∧
      c.step.halted = (jump == .jmp && c.a + 1 == c.pc) := by
  obtain ⟨hdestA, hdestD, hdestM⟩ := dest_code_bits dest
  have hout : alu c.d (if (encodeCompute comp.code dest.code jump.code).getLsbD 12
      then c.ram.read c.a else c.a) (encodeCompute comp.code dest.code jump.code >>> 6) =
        comp.value c.core := by
    rw [encodeCompute_bit_twelve]
    exact alu_encodeCompute c.core comp dest.code jump.code
  have hbits : (encodeCompute comp.code dest.code jump.code).getLsbD 5 = dest.a ∧
      (encodeCompute comp.code dest.code jump.code).getLsbD 4 = dest.d ∧
      (encodeCompute comp.code dest.code jump.code).getLsbD 3 = dest.m := by
    rw [← hdestA, ← hdestD, ← hdestM]
    exact ⟨encodeCompute_dest _ _ _ (show 2 < 3 by decide),
      encodeCompute_dest _ _ _ (show 1 < 3 by decide),
      encodeCompute_dest _ _ _ (show 0 < 3 by decide)⟩
  have hhalt : (jump.holds (comp.value c.core) &&
      (encodeCompute comp.code dest.code jump.code &&& 7) == 7) = (jump == .jmp) := by
    rw [encodeCompute_and_seven]
    cases jump <;> simp [Jump.code, Jump.holds]
  have hstep : c.step =
      { c with
        steps := c.steps + 1
        ram := if dest.m then c.ram.write c.a (comp.value c.core) else c.ram
        d := if dest.d then comp.value c.core else c.d
        a := if dest.a then comp.value c.core else c.a
        pc := if jump.holds (comp.value c.core) then c.a else c.pc + 1
        halted := jump == .jmp && c.a + 1 == c.pc } := by
    simp only [step, hrun, hw, encodeCompute_bit_fifteen, Bool.false_eq_true, if_false, if_true,
      compute, hout, hbits, jumps_encodeCompute, ← hhalt]
  rw [hstep]
  exact ⟨rfl, rfl, rfl, rfl⟩

end HackStack.Machine
