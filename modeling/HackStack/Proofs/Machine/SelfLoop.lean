import Mathlib.Data.Finset.Card
import HackStack.Proofs.Machine.Limit

/-!
# Halting at a jump

A processor halts at an unconditional jump to the instruction before it. This is meant for the loop
of two instructions at the end of a program, of which the first loads its own address, but the
processor looks at its registers only. `Stuck` is that nothing would come of going on.

- `haltsByJump_iff`: when the processor halts by a jump.
- `BeforeJump.stuck_iff`: if the target loads its own address, one more round decides whether the
  processor is stuck.
- `BeforeJump.stuck_iff_six`: in every case six more steps do. As long as `D` and the memory stay
  the same, there are five states at most in the loop, so that one of them comes again.
-/

namespace HackStack.Machine

open HackStack.Assembly

/-- An instruction that jumps whatever it computes. -/
def JumpsAlways (w : Word) : Prop := w.msb = true ∧ w &&& 7 = 7

/-- The instruction at an address loads this address. -/
def LoadsItself (rom : Array Word) (address : Word) : Prop :=
  rom[address.toNat]? = some address ∧ address.msb = false

namespace Cpu

/-- The next step halts the processor, and not because it has come to the end of the program. -/
def HaltsByJump (c : Cpu) : Prop :=
  c.halted = false ∧ c.pc.toNat < c.rom.size ∧ c.step.halted = true

/-- The next step of a processor that pays no heed to having halted. -/
def goOn (c : Cpu) : Cpu := c.resume.step

/-- A state with the `D` and the memory of another one, at its program address or the next. -/
def Undisturbed (c later : Cpu) : Prop :=
  later.d = c.d ∧ later.ram = c.ram ∧ (later.pc = c.pc ∨ later.pc = c.pc + 1)

/-- However long the processor goes on, it changes neither `D` nor the memory, and it stays at two
instructions. -/
def Stuck (c : Cpu) : Prop := ∀ n, c.Undisturbed (goOn^[n] c)

/-! ## Going on -/

/-- What a step depends on. -/
def view (c : Cpu) : Core × Word × Array Word := (c.core, c.pc, c.rom)

section

variable {c : Cpu} {w : Word}

theorem goOn_at_end (h : c.rom[c.pc.toNat]? = none) : c.goOn = { c with halted := true } :=
  step_at_end (c := c.resume) rfl h

theorem goOn_load (hw : c.rom[c.pc.toNat]? = some w) (hmsb : w.msb = false) :
    c.goOn = { c with a := w, pc := c.pc + 1, steps := c.steps + 1, halted := false } :=
  step_load (c := c.resume) rfl hw hmsb

theorem goOn_computing (hw : c.rom[c.pc.toNat]? = some w) (hmsb : w.msb = true) :
    c.goOn = ({ c with steps := c.steps + 1, halted := false } : Cpu).compute w :=
  step_computing (c := c.resume) rfl hw hmsb

end

theorem view_eq_iff {c c' : Cpu} :
    c.view = c'.view ↔
      c.a = c'.a ∧ c.d = c'.d ∧ c.ram = c'.ram ∧ c.pc = c'.pc ∧ c.rom = c'.rom := by
  simp only [view, core, Prod.mk.injEq, Core.mk.injEq, and_assoc]

theorem view_goOn {c c' : Cpu} (h : c.view = c'.view) : c.goOn.view = c'.goOn.view := by
  obtain ⟨a, d, pc, ram, rom, halted, steps, bound⟩ := c
  obtain ⟨a', d', pc', ram', rom', halted', steps', bound'⟩ := c'
  obtain ⟨rfl, rfl, rfl, rfl, rfl⟩ := view_eq_iff.mp h
  cases hw : rom[pc.toNat]? with
  | none =>
      rw [goOn_at_end hw, goOn_at_end hw]
      rfl
  | some w =>
      cases hmsb : w.msb with
      | false =>
          rw [goOn_load hw hmsb, goOn_load hw hmsb]
          rfl
      | true =>
          rw [goOn_computing hw hmsb, goOn_computing hw hmsb]
          rfl

theorem view_iterate_goOn {c c' : Cpu} (h : c.view = c'.view) (n : Nat) :
    (goOn^[n] c).view = (goOn^[n] c').view := by
  induction n with
  | zero => exact h
  | succ n ih =>
      rw [Function.iterate_succ_apply', Function.iterate_succ_apply']
      exact view_goOn ih

/-- A state that looks like an earlier one leads back to it. -/
theorem view_repeats {c : Cpu} {i j : Nat} (hij : i < j)
    (h : (goOn^[i] c).view = (goOn^[j] c).view) (n : Nat) :
    ∃ m < j, (goOn^[n] c).view = (goOn^[m] c).view := by
  induction n using Nat.strong_induction_on with
  | _ n ih =>
      by_cases hn : n < j
      · exact ⟨n, hn, rfl⟩
      · obtain ⟨k, rfl⟩ := Nat.exists_eq_add_of_le (Nat.le_of_not_lt hn)
        obtain ⟨m, hm, hview⟩ := ih (i + k) (by omega)
        refine ⟨m, hm, ?_⟩
        rw [← hview, Nat.add_comm j k, Nat.add_comm i k, Function.iterate_add_apply,
          Function.iterate_add_apply]
        exact view_iterate_goOn h.symm k

theorem undisturbed_congr {c later later' : Cpu} (h : later.view = later'.view) :
    c.Undisturbed later ↔ c.Undisturbed later' := by
  obtain ⟨-, hd, hram, hpc, -⟩ := view_eq_iff.mp h
  rw [Undisturbed, Undisturbed, hd, hram, hpc]

/-- A processor is stuck if it has come to a state for the second time and nothing has happened
until then. -/
theorem stuck_of_repeats {c : Cpu} {i j : Nat} (hij : i < j)
    (h : (goOn^[i] c).view = (goOn^[j] c).view)
    (hcalm : ∀ n < j, c.Undisturbed (goOn^[n] c)) : c.Stuck := by
  intro n
  obtain ⟨m, hm, hview⟩ := view_repeats hij h n
  exact (undisturbed_congr hview).mpr (hcalm m hm)

theorem rom_goOn (c : Cpu) : c.goOn.rom = c.rom := by
  cases hw : c.rom[c.pc.toNat]? with
  | none => rw [goOn_at_end hw]
  | some w =>
      cases hmsb : w.msb with
      | false => rw [goOn_load hw hmsb]
      | true => rw [goOn_computing hw hmsb, compute]

theorem rom_iterate_goOn (c : Cpu) (n : Nat) : (goOn^[n] c).rom = c.rom := by
  induction n with
  | zero => rfl
  | succ n ih => rw [Function.iterate_succ_apply', rom_goOn, ih]

/-- A step goes to the next instruction, or jumps, or is none. -/
theorem pc_goOn (c : Cpu) :
    c.goOn.pc = c.pc + 1 ∨ c.goOn.pc = c.a ∨ c.goOn.view = c.view := by
  cases hw : c.rom[c.pc.toNat]? with
  | none =>
      rw [goOn_at_end hw]
      exact Or.inr (Or.inr rfl)
  | some w =>
      cases hmsb : w.msb with
      | false =>
          rw [goOn_load hw hmsb]
          exact Or.inl rfl
      | true =>
          have hpc : c.goOn.pc = c.a ∨ c.goOn.pc = c.pc + 1 := by
            rw [goOn_computing hw hmsb, compute]
            exact ite_eq_or_eq _ _ _
          exact hpc.elim (fun h => Or.inr (Or.inl h)) Or.inl

/-! ## Jumps that are always made -/

theorem jumps_of_jumpsAlways {w : Word} (h : JumpsAlways w) (out : Word) : jumps out w = true := by
  have hbit : ∀ i < 3, w.getLsbD i = true := by
    intro i hi
    have hseven : (w &&& 7).getLsbD i = (7 : Word).getLsbD i := by rw [h.2]
    have hset : ∀ i < 3, (7 : Word).getLsbD i = true := by decide
    rw [BitVec.getLsbD_and, hset i hi, Bool.and_true] at hseven
    exact hseven
  rw [jumps, hbit 0 (by decide), hbit 1 (by decide), hbit 2 (by decide)]
  by_cases hzero : out = 0#16
  · simp [hzero]
  · cases hmsb : out.msb <;> simp [hzero]

theorem pc_goOn_of_jump {c : Cpu} {w : Word} (hw : c.rom[c.pc.toNat]? = some w)
    (h : JumpsAlways w) : c.goOn.pc = c.a := by
  rw [goOn_computing hw h.1, compute]
  simp only [jumps_of_jumpsAlways h, if_true]

/-- **When a processor halts by a jump.** -/
theorem haltsByJump_iff (c : Cpu) :
    c.HaltsByJump ↔
      c.halted = false ∧ (∃ w, c.rom[c.pc.toNat]? = some w ∧ JumpsAlways w) ∧ c.a + 1 = c.pc := by
  constructor
  · rintro ⟨hrun, hpc, hhalts⟩
    have hw := Array.getElem?_eq_getElem hpc
    refine ⟨hrun, ?_⟩
    cases hmsb : c.rom[c.pc.toNat].msb with
    | false =>
        rw [step_load hrun hw hmsb] at hhalts
        rw [hrun] at hhalts
        cases hhalts
    | true =>
        rw [step_computing hrun hw hmsb, compute] at hhalts
        simp only [Bool.and_eq_true, beq_iff_eq] at hhalts
        exact ⟨⟨_, hw, hmsb, hhalts.1.2⟩, hhalts.2⟩
  · rintro ⟨hrun, ⟨w, hw, hjump⟩, hnext⟩
    refine ⟨hrun, (Array.getElem?_eq_some_iff.mp hw).1, ?_⟩
    rw [step_computing hrun hw hjump.1, compute]
    simp only [jumps_of_jumpsAlways hjump, hjump.2, hnext, beq_self_eq_true, Bool.and_self]

theorem step_eq_goOn {c : Cpu} (h : c.halted = false) : c.step = c.goOn := by
  rw [goOn, resume, ← h]

/-- A processor that has halted by a jump stands before the jump. -/
structure BeforeJump (c : Cpu) (w : Word) : Prop where
  word : c.rom[(c.pc + 1).toNat]? = some w
  jump : JumpsAlways w

theorem HaltsByJump.beforeJump {c : Cpu} (h : c.HaltsByJump) :
    c.step.pc = c.a ∧ ∀ w, c.rom[c.pc.toNat]? = some w → c.step.BeforeJump w := by
  obtain ⟨hrun, ⟨w, hw, hjump⟩, hnext⟩ := (haltsByJump_iff c).mp h
  have hpc : c.step.pc = c.a := by
    rw [step_eq_goOn hrun]
    exact pc_goOn_of_jump hw hjump
  refine ⟨hpc, ?_⟩
  intro v hv
  obtain rfl : v = w := Option.some.inj (hv.symm.trans hw)
  refine ⟨?_, hjump⟩
  rw [hpc, hnext, step_eq_goOn hrun, rom_goOn]
  exact hw

theorem BeforeJump.goOn_pc {c s : Cpu} {w : Word} (hjump : c.BeforeJump w) (hrom : s.rom = c.rom)
    (hpc : s.pc = c.pc + 1) : s.goOn.pc = s.a := by
  refine pc_goOn_of_jump ?_ hjump.jump
  rw [hrom, hpc]
  exact hjump.word

/-! ## The loop that is meant -/

section

variable {c : Cpu} {w : Word} (hjump : c.BeforeJump w) (hself : LoadsItself c.rom c.pc)
include hjump hself

/-- The two steps of a round, wherever it starts from. -/
theorem BeforeJump.round {s : Cpu} (hrom : s.rom = c.rom) (hpc : s.pc = c.pc) :
    (s.goOn.a = c.pc ∧ s.goOn.d = s.d ∧ s.goOn.ram = s.ram ∧ s.goOn.pc = c.pc + 1) ∧
      s.goOn.goOn.pc = c.pc := by
  have hfirst : s.rom[s.pc.toNat]? = some c.pc := by
    rw [hrom, hpc]
    exact hself.1
  have hload : s.goOn.a = c.pc ∧ s.goOn.d = s.d ∧ s.goOn.ram = s.ram ∧ s.goOn.pc = c.pc + 1 := by
    rw [goOn_load hfirst hself.2]
    exact ⟨rfl, rfl, rfl, congrArg (· + 1) hpc⟩
  refine ⟨hload, ?_⟩
  rw [hjump.goOn_pc ((rom_goOn s).trans hrom) hload.2.2.2]
  exact hload.1

theorem BeforeJump.pc_after_rounds (k : Nat) : (goOn^[2 * k] c).pc = c.pc := by
  induction k with
  | zero => rfl
  | succ k ih =>
      rw [Nat.mul_succ, Function.iterate_succ_apply', Function.iterate_succ_apply']
      exact (hjump.round hself (rom_iterate_goOn c (2 * k)) ih).2

/-- The processor does not leave the loop, whatever the jump stores. -/
theorem BeforeJump.pc_in_loop (n : Nat) :
    (goOn^[n] c).pc = c.pc ∨ (goOn^[n] c).pc = c.pc + 1 := by
  obtain ⟨k, rfl | rfl⟩ := Nat.even_or_odd' n
  · exact Or.inl (hjump.pc_after_rounds hself k)
  · rw [Function.iterate_succ_apply']
    have hround := hjump.round hself (rom_iterate_goOn c (2 * k)) (hjump.pc_after_rounds hself k)
    exact Or.inr hround.1.2.2.2

/-- One more round decides whether the processor is stuck. -/
theorem BeforeJump.stuck_iff : c.Stuck ↔ c.Undisturbed (goOn^[2] c) := by
  constructor
  · intro h
    exact h 2
  · intro hround
    obtain ⟨⟨ha, hd, hram, hpc⟩, hback⟩ := hjump.round hself rfl rfl
    obtain ⟨⟨ha', hd', hram', hpc'⟩, -⟩ :=
      hjump.round hself (rom_iterate_goOn c 2) hback
    -- the load of the first round and that of the second leave the same state
    have hagain : c.goOn.view = (goOn^[2] c).goOn.view := by
      refine view_eq_iff.mpr ⟨ha.trans ha'.symm, ?_, ?_, hpc.trans hpc'.symm, ?_⟩
      · exact hd.trans (hd'.trans hround.1).symm
      · exact hram.trans (hram'.trans hround.2.1).symm
      · rw [rom_goOn, rom_goOn, rom_iterate_goOn]
    have hloaded : c.Undisturbed c.goOn := ⟨hd, hram, Or.inr hpc⟩
    refine stuck_of_repeats (i := 1) (j := 3) (by decide) hagain ?_
    intro n hn
    rcases n with _ | _ | _ | n
    · exact ⟨rfl, rfl, Or.inl rfl⟩
    · exact hloaded
    · exact hround
    · omega

/-- A jump that stores nothing in `D` and the memory ends a program. -/
theorem BeforeJump.stuck (hmemory : w.getLsbD 3 = false) (hdata : w.getLsbD 4 = false) :
    c.Stuck := by
  rw [hjump.stuck_iff hself]
  obtain ⟨⟨-, hd, hram, hpc⟩, hback⟩ := hjump.round hself rfl rfl
  have hsecond : c.goOn.rom[c.goOn.pc.toNat]? = some w := by
    rw [rom_goOn, hpc]
    exact hjump.word
  refine ⟨?_, ?_, Or.inl hback⟩
  · show c.goOn.goOn.d = c.d
    rw [goOn_computing hsecond hjump.jump.1, compute]
    simp only [hdata, Bool.false_eq_true, if_false]
    exact hd
  · show c.goOn.goOn.ram = c.ram
    rw [goOn_computing hsecond hjump.jump.1, compute]
    simp only [hmemory, Bool.false_eq_true, if_false]
    exact hram

end

/-! ## Every loop -/

/-- The values of `A` and the program address that a processor can have before a jump that it does
not get away from. In the loop at `c`, `A` is an address of the loop whenever the jump is made; the
instruction before the jump is come to from the start, from the jump, or from itself. -/
def loopStates (c : Cpu) : Finset (Word × Word) :=
  {(c.a, c.pc), (({ c with a := c.pc, pc := c.pc + 1 } : Cpu).goOn.a, c.pc),
    (({ c with a := c.pc } : Cpu).goOn.a, c.pc), (c.pc, c.pc + 1), (c.pc + 1, c.pc + 1)}

/-- One step within the loop, of a processor that will be in the loop after the next step too. -/
theorem BeforeJump.goOn_mem_loopStates {c s : Cpu} {w : Word} (hjump : c.BeforeJump w)
    (hrom : s.rom = c.rom) (hs : c.Undisturbed s) (hnext : c.Undisturbed s.goOn)
    (hafter : c.Undisturbed s.goOn.goOn) (hmem : (s.a, s.pc) ∈ c.loopStates) :
    (s.goOn.a, s.goOn.pc) ∈ c.loopStates := by
  have hne : c.pc ≠ c.pc + 1 := by bv_omega
  obtain ⟨hd, hram, hpc⟩ := hs
  -- the five states are known by where the processor stands now and where it stood before
  rcases hnext.2.2 with hfirst | hsecond
  · rcases hpc with hstay | hback
    · rcases pc_goOn s with hforward | hreturn | hend
      · exact absurd (hfirst.symm.trans (hforward.trans (congrArg (· + 1) hstay))) hne
      · have ha : s.a = c.pc := hreturn.symm.trans hfirst
        have hview : s.view = ({ c with a := c.pc } : Cpu).view :=
          view_eq_iff.mpr ⟨ha, hd, hram, hstay, hrom⟩
        rw [hfirst, (view_eq_iff.mp (view_goOn hview)).1]
        simp [loopStates]
      · obtain ⟨ha, -, -, hpc, -⟩ := view_eq_iff.mp hend
        rw [ha, hpc]
        exact hmem
    · have ha : s.a = c.pc := (hjump.goOn_pc hrom hback).symm.trans hfirst
      have hview : s.view = ({ c with a := c.pc, pc := c.pc + 1 } : Cpu).view :=
        view_eq_iff.mpr ⟨ha, hd, hram, hback, hrom⟩
      rw [hfirst, (view_eq_iff.mp (view_goOn hview)).1]
      simp [loopStates]
  · have hjumps : s.goOn.goOn.pc = s.goOn.a :=
      hjump.goOn_pc ((rom_goOn s).trans hrom) hsecond
    have hin : s.goOn.a = c.pc ∨ s.goOn.a = c.pc + 1 := hjumps ▸ hafter.2.2
    rw [hsecond]
    rcases hin with ha | ha
    · rw [ha]
      simp [loopStates]
    · rw [ha]
      simp [loopStates]

theorem BeforeJump.mem_loopStates {c : Cpu} {w : Word} (hjump : c.BeforeJump w)
    (hcalm : ∀ n ≤ 6, c.Undisturbed (goOn^[n] c)) {n : Nat} (hn : n ≤ 5) :
    ((goOn^[n] c).a, (goOn^[n] c).pc) ∈ c.loopStates := by
  induction n with
  | zero => simp [loopStates]
  | succ n ih =>
      have hnext := hcalm (n + 1) (by omega)
      have hafter := hcalm (n + 2) (by omega)
      rw [Function.iterate_succ_apply'] at hafter
      rw [Function.iterate_succ_apply'] at hnext hafter ⊢
      exact hjump.goOn_mem_loopStates (rom_iterate_goOn c n) (hcalm n (by omega)) hnext hafter
        (ih (by omega))

theorem Undisturbed.view_eq {c later later' : Cpu} (h : c.Undisturbed later)
    (h' : c.Undisturbed later') (hrom : later.rom = later'.rom)
    (heq : (later.a, later.pc) = (later'.a, later'.pc)) : later.view = later'.view := by
  obtain ⟨ha, hpc⟩ := Prod.mk.inj heq
  exact view_eq_iff.mpr ⟨ha, h.1.trans h'.1.symm, h.2.1.trans h'.2.1.symm, hpc, hrom⟩

theorem BeforeJump.stuck_iff_six {c : Cpu} {w : Word} (hjump : c.BeforeJump w) :
    c.Stuck ↔ ∀ n ≤ 6, c.Undisturbed (goOn^[n] c) := by
  constructor
  · intro h n _
    exact h n
  · intro hcalm
    have hcard : c.loopStates.card < (Finset.range 6).card := by
      rw [Finset.card_range]
      exact Nat.lt_succ_of_le Finset.card_le_five
    -- there are fewer states than steps, so that two steps lead to the same one
    obtain ⟨i, hi, j, hj, hne, heq⟩ := Finset.exists_ne_map_eq_of_card_lt_of_maps_to hcard
      (f := fun n => ((goOn^[n] c).a, (goOn^[n] c).pc)) fun n hn =>
        hjump.mem_loopStates hcalm (Nat.le_of_lt_succ (Finset.mem_range.mp hn))
    have hi := Finset.mem_range.mp hi
    have hj := Finset.mem_range.mp hj
    have hrom : (goOn^[i] c).rom = (goOn^[j] c).rom := by
      rw [rom_iterate_goOn, rom_iterate_goOn]
    have hview : (goOn^[i] c).view = (goOn^[j] c).view :=
      (hcalm i (by omega)).view_eq (hcalm j (by omega)) hrom heq
    rcases Nat.lt_or_gt_of_ne hne with hlt | hgt
    · exact stuck_of_repeats hlt hview fun n hn => hcalm n (by omega)
    · exact stuck_of_repeats hgt hview.symm fun n hn => hcalm n (by omega)

/-- **Halting at a jump.** A processor halts by a jump exactly if the jump is always made and leads
to the instruction before it, whatever this instruction is. If it loads its own address, the
processor would not leave the two instructions any more; it is then stuck exactly if one more round
changes neither `D` nor the memory, and so it is if the jump stores in neither. In every case it is
stuck exactly if six more steps disturb nothing. -/
theorem jump_halts_exactly (c : Cpu) :
    (c.HaltsByJump ↔
      c.halted = false ∧ (∃ w, c.rom[c.pc.toNat]? = some w ∧ JumpsAlways w) ∧ c.a + 1 = c.pc) ∧
    (c.HaltsByJump → c.step.pc = c.a ∧
      (LoadsItself c.rom c.step.pc →
        (∀ n, (goOn^[n] c.step).pc = c.step.pc ∨ (goOn^[n] c.step).pc = c.step.pc + 1) ∧
        (c.step.Stuck ↔ c.step.Undisturbed (goOn^[2] c.step)) ∧
        ∀ w, c.rom[c.pc.toNat]? = some w → w.getLsbD 3 = false → w.getLsbD 4 = false →
          c.step.Stuck) ∧
      (c.step.Stuck ↔ ∀ n ≤ 6, c.step.Undisturbed (goOn^[n] c.step))) := by
  refine ⟨haltsByJump_iff c, ?_⟩
  intro h
  obtain ⟨hrun, ⟨w, hw, -⟩, -⟩ := (haltsByJump_iff c).mp h
  obtain ⟨hpc, hbefore⟩ := h.beforeJump
  have hjump := hbefore w hw
  refine ⟨hpc, ?_, hjump.stuck_iff_six⟩
  intro hself
  have hrom : c.step.rom = c.rom := by rw [step_eq_goOn hrun, rom_goOn]
  rw [← hrom] at hself
  refine ⟨hjump.pc_in_loop hself, hjump.stuck_iff hself, ?_⟩
  intro v hv
  exact (hbefore v hv).stuck hself

/-- A program that stores 1 in `D` and ends with the usual loop. -/
def finishing : Cpu :=
  load #[2, encodeCompute Comp.one.code (Dest.mk false true false).code Jump.never.code, 2,
    encodeCompute Comp.zero.code Dest.nowhere.code Jump.jmp.code]

theorem jump_halts_finishing :
    (step^[3] finishing).HaltsByJump ∧ (step^[4] finishing).d = 1 ∧
      (step^[4] finishing).Stuck := by
  obtain ⟨hiff, hhalts⟩ := jump_halts_exactly (step^[3] finishing)
  have hjump : (step^[3] finishing).HaltsByJump :=
    hiff.mpr ⟨rfl, ⟨_, rfl, by decide, by decide⟩, by decide⟩
  obtain ⟨-, hself, -⟩ := hhalts hjump
  obtain ⟨-, -, hstuck⟩ := hself ⟨rfl, rfl⟩
  exact ⟨hjump, by decide +kernel, hstuck _ rfl (by decide) (by decide)⟩

/-- A program that counts in `D` and never ends; it jumps back to an instruction that loads
nothing. -/
def counting : Cpu :=
  load #[1, encodeCompute Comp.dPlusOne.code (Dest.mk false true false).code Jump.never.code,
    encodeCompute Comp.zero.code Dest.nowhere.code Jump.jmp.code]

theorem counting_halts_with_work_left :
    (step^[2] counting).HaltsByJump ∧ ¬LoadsItself counting.rom (step^[3] counting).pc ∧
      (step^[3] counting).d = 1 ∧ (goOn (step^[3] counting)).d = 2 ∧
      ¬(step^[3] counting).Stuck ∧ counting.run = (step^[3] counting, none) := by
  have hchange : (goOn (step^[3] counting)).d ≠ (step^[3] counting).d := by decide +kernel
  have hruns : ∀ m < 3, ¬((step^[m] counting).halted = true ∨
      (step^[m] counting).limit ≤ (step^[m] counting).steps) := by decide +kernel
  refine ⟨⟨by decide +kernel, by decide +kernel, by decide +kernel⟩, ?_, by decide +kernel,
    by decide +kernel, fun h => hchange (h 1).1, ?_⟩
  · rintro ⟨hword, -⟩
    exact absurd hword (by decide +kernel)
  · have hhalted : (step^[3] counting).halted = true := by decide +kernel
    rw [run_of_running hruns, run_of_stops (Or.inl hhalted), ending, if_pos hhalted]

end Cpu

end HackStack.Machine
