import Mathlib.Order.Bounds.Basic
import HackStack.Proofs.Machine.Jump

/-!
# The step limit

`run` goes through the states that the steps of a processor lead to and stops at the first one that
has halted or has reached the limit (`Stops`). The limit does not otherwise enter into a step, so a
processor that was cut off can go on with a higher limit and comes to where it would have come with
that limit at once.

- `exists_run_eq`: a run ends, namely at the first state that stops it.
- `run_of_running`: a run can be entered anywhere on its way.
- `run_withBound`: what a higher limit makes of a run.
-/

namespace HackStack.Machine.Cpu

/-- A run stops here: the processor has halted, or it has reached its limit. -/
def Stops (c : Cpu) : Prop := c.halted = true ∨ c.limit ≤ c.steps

/-- What a run comes to if it stops here. -/
def ending (c : Cpu) : Cpu × Option Unfinished :=
  (c, if c.halted then none else some ⟨c.pc, c.steps⟩)

def withBound (c : Cpu) (bound : Int) : Cpu := { c with stepBound := bound }

/-! ## Where a run stops -/

theorem run_of_stops {c : Cpu} (h : c.Stops) : c.run = c.ending := by
  rw [run, ending]
  by_cases hhalted : c.halted = true
  · rw [if_pos hhalted, if_pos hhalted]
  · have hlimit : c.limit ≤ c.steps := h.resolve_left hhalted
    rw [if_neg hhalted, if_pos hlimit, if_neg hhalted]

theorem run_of_not_stops {c : Cpu} (h : ¬c.Stops) : c.run = c.step.run := by
  obtain ⟨hhalted, hlimit⟩ := not_or.mp h
  rw [run, if_neg hhalted, if_neg hlimit]

/-- **A run ends** at the first state that stops it. -/
theorem exists_run_eq (c : Cpu) :
    ∃ n, IsLeast {n | (step^[n] c).Stops} n ∧ c.run = (step^[n] c).ending := by
  -- along the recursion of `run`, which ends because a step halts or is counted
  induction c using run.induct with
  | case1 c hhalted =>
      have hstops : c.Stops := Or.inl hhalted
      exact ⟨0, ⟨hstops, fun n _ => Nat.zero_le n⟩, run_of_stops hstops⟩
  | case2 c hhalted hlimit =>
      have hstops : c.Stops := Or.inr hlimit
      exact ⟨0, ⟨hstops, fun n _ => Nat.zero_le n⟩, run_of_stops hstops⟩
  | case3 c hhalted hlimit ih =>
      have hruns : ¬c.Stops := not_or.mpr ⟨hhalted, hlimit⟩
      obtain ⟨n, ⟨hstops, hfirst⟩, hrun⟩ := ih
      refine ⟨n + 1, ⟨hstops, ?_⟩, ?_⟩
      · intro m hm
        cases m with
        | zero => exact absurd hm hruns
        | succ m => exact Nat.succ_le_succ (hfirst hm)
      · rw [run_of_not_stops hruns, hrun, Function.iterate_succ_apply]

/-- A run can be entered at every state on its way. -/
theorem run_of_running {c : Cpu} {n : Nat} (h : ∀ m < n, ¬(step^[m] c).Stops) :
    c.run = (step^[n] c).run := by
  induction n with
  | zero => rfl
  | succ n ih =>
      rw [ih fun m hm => h m (Nat.lt_succ_of_lt hm), run_of_not_stops (h n (Nat.lt_succ_self n)),
        Function.iterate_succ_apply']

theorem step_steps_le (c : Cpu) : c.step.steps ≤ c.steps + 1 := by
  by_cases hhalted : c.halted = true
  · rw [step_of_halted hhalted]
    omega
  · rcases step_halts_or_counts c (by simpa using hhalted) with ⟨-, hsteps⟩ | hsteps
    · omega
    · omega

/-- No step is counted beyond the limit. -/
theorem run_steps_le (c : Cpu) : c.run.1.steps ≤ max c.steps c.limit := by
  induction c using run.induct with
  | case1 c hhalted =>
      rw [run_of_stops (Or.inl hhalted)]
      exact le_max_left _ _
  | case2 c hhalted hlimit =>
      rw [run_of_stops (Or.inr hlimit)]
      exact le_max_left _ _
  | case3 c hhalted hlimit ih =>
      rw [run_of_not_stops (not_or.mpr ⟨hhalted, hlimit⟩)]
      rw [step_limit] at ih
      have hstep := step_steps_le c
      omega

/-! ## Other limits -/

theorem step_withBound (c : Cpu) (bound : Int) :
    (c.withBound bound).step = c.step.withBound bound := by
  by_cases hhalted : c.halted = true
  · have hhalted' : (c.withBound bound).halted = true := hhalted
    rw [step_of_halted hhalted, step_of_halted hhalted']
  · have hrun : c.halted = false := by simpa using hhalted
    have hrun' : (c.withBound bound).halted = false := hrun
    cases hw : c.rom[c.pc.toNat]? with
    | none =>
        rw [step_at_end hrun hw, step_at_end hrun' hw]
        rfl
    | some w =>
        cases hmsb : w.msb with
        | false =>
            rw [step_load hrun hw hmsb, step_load hrun' hw hmsb]
            rfl
        | true =>
            rw [step_computing hrun hw hmsb, step_computing hrun' hw hmsb]
            rfl

theorem iterate_step_withBound (c : Cpu) (bound : Int) (n : Nat) :
    step^[n] (c.withBound bound) = (step^[n] c).withBound bound := by
  have hcomm : Function.Semiconj (fun c => withBound c bound) step step :=
    fun c => (step_withBound c bound).symm
  exact (hcomm.iterate_right n c).symm

/-- Up to where a processor is cut off, it does not matter by which of two limits. -/
theorem run_withBound {c : Cpu} {low high : Int}
    (h : (c.withBound low).limit ≤ (c.withBound high).limit) :
    ((c.withBound low).run.1.withBound high).run = (c.withBound high).run := by
  obtain ⟨n, ⟨-, hfirst⟩, hrun⟩ := exists_run_eq (c.withBound low)
  have hrunning : ∀ m < n, ¬(step^[m] (c.withBound high)).Stops := by
    intro m hm hstops
    have hlow : ¬(step^[m] (c.withBound low)).Stops := fun hlow => absurd (hfirst hlow) (by omega)
    rw [iterate_step_withBound] at hstops hlow
    -- a state stops a run with the higher limit only if it stops one with the lower limit
    refine hlow (hstops.imp id ?_)
    intro hlimit
    have hlimits : ((step^[m] c).withBound low).limit ≤ ((step^[m] c).withBound high).limit := h
    have hsteps : ((step^[m] c).withBound high).limit ≤ (step^[m] c).steps := hlimit
    show ((step^[m] c).withBound low).limit ≤ (step^[m] c).steps
    omega
  rw [run_of_running hrunning, hrun, iterate_step_withBound, iterate_step_withBound]
  rfl

/-! ## Runs -/

theorem limit_iterate_step (c : Cpu) (n : Nat) : (step^[n] c).limit = c.limit := by
  induction n with
  | zero => rfl
  | succ n ih => rw [Function.iterate_succ_apply', step_limit, ih]

theorem run_succeeds_iff (c : Cpu) : c.run.2 = none ↔ c.run.1.halted = true := by
  obtain ⟨n, -, hrun⟩ := exists_run_eq c
  rw [hrun, ending]
  simp

/-- A run that was cut off has reached the limit. -/
theorem limit_le_of_unfinished {c : Cpu} {u : Unfinished} (h : c.run.2 = some u) :
    u = ⟨c.run.1.pc, c.run.1.steps⟩ ∧ c.limit ≤ c.run.1.steps := by
  obtain ⟨n, ⟨hstops, -⟩, hrun⟩ := exists_run_eq c
  rw [hrun, ending] at h
  rw [hrun, ← limit_iterate_step c n]
  by_cases hhalted : (step^[n] c).halted = true
  · simp [hhalted] at h
  · rw [if_neg hhalted] at h
    exact ⟨(Option.some.inj h).symm, hstops.resolve_left hhalted⟩

/-- **The step limit only cuts a run off.** Every run ends, at the first state that has halted or
has reached the limit. It succeeds exactly if that state has halted, and otherwise reports where it
stands; no step is counted beyond the limit. A run that was cut off goes on with a higher limit as
if it had had this limit from the start, and a run that has succeeded ends in the same state with
every higher limit. -/
theorem run_only_cuts_off (c : Cpu) :
    (∃ n, IsLeast {n | (step^[n] c).Stops} n ∧ c.run.1 = step^[n] c) ∧
    (c.run.2 = none ↔ c.run.1.halted = true) ∧
    (∀ u, c.run.2 = some u → u = ⟨c.run.1.pc, c.run.1.steps⟩ ∧ c.limit ≤ c.run.1.steps) ∧
    c.run.1.steps ≤ max c.steps c.limit ∧
    ∀ low high, (c.withBound low).limit ≤ (c.withBound high).limit →
      ((c.withBound low).run.2 ≠ none →
        ((c.withBound low).run.1.withBound high).run = (c.withBound high).run) ∧
      ((c.withBound low).run.2 = none →
        (c.withBound high).run = ((c.withBound low).run.1.withBound high, none)) := by
  refine ⟨?_, run_succeeds_iff c, fun u hu => limit_le_of_unfinished hu, run_steps_le c, ?_⟩
  · obtain ⟨n, hleast, hrun⟩ := exists_run_eq c
    exact ⟨n, hleast, congrArg Prod.fst hrun⟩
  · intro low high hle
    refine ⟨fun _ => run_withBound hle, ?_⟩
    intro hsuccess
    have hhalted : ((c.withBound low).run.1.withBound high).halted = true :=
      (run_succeeds_iff (c.withBound low)).mp hsuccess
    rw [← run_withBound hle, run_of_stops (Or.inl hhalted), ending, if_pos hhalted]

/-- A program of one instruction, which has been executed when a limit of one step is reached. -/
def singleLoad : Cpu := load #[7]

theorem run_singleLoad :
    (singleLoad.withBound 1).run.2 = some ⟨1, 1⟩ ∧
      ((singleLoad.withBound 1).run.1.withBound 2).run = (singleLoad.withBound 2).run ∧
      (singleLoad.withBound 2).run.2 = none ∧
      (singleLoad.withBound (-3)).run = ((singleLoad.withBound 2).run.1.withBound (-3), none) := by
  have hstart : ∀ bound, 1 ≤ (singleLoad.withBound bound).limit →
      ¬(singleLoad.withBound bound).Stops := by
    rintro bound hbound (hhalted | hlimit)
    · cases hhalted
    · have hzero : (singleLoad.withBound bound).steps = 0 := rfl
      omega
  have hone : (singleLoad.withBound 1).run = ((singleLoad.withBound 1).step).ending := by
    rw [run_of_not_stops (hstart 1 (by decide)), run_of_stops]
    exact Or.inr (by decide)
  have htwo : (singleLoad.withBound 2).run = ((singleLoad.withBound 2).step.step).ending := by
    rw [run_of_not_stops (hstart 2 (by decide)), run_of_not_stops, run_of_stops]
    · exact Or.inl rfl
    · rintro (hhalted | hlimit)
      · cases hhalted
      · exact absurd hlimit (by decide)
  obtain ⟨-, -, -, -, hlimits⟩ := run_only_cuts_off singleLoad
  have hfails : (singleLoad.withBound 1).run.2 = some ⟨1, 1⟩ := by
    rw [hone]
    rfl
  have hsucceeds : (singleLoad.withBound 2).run.2 = none := by
    rw [htwo]
    rfl
  refine ⟨hfails, (hlimits 1 2 (by decide)).1 ?_, hsucceeds,
    (hlimits 2 (-3) (by decide)).2 hsucceeds⟩
  rw [hfails]
  exact Option.some_ne_none _

end HackStack.Machine.Cpu
