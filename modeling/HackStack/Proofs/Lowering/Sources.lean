import Mathlib.Data.List.Forall2
import HackStack.Lowering.Program

/-!
# Writing sources

The generator after a list of sources is the one that has written the commands of each of them, unit
after unit (`writeSources_of_parse`). A list of sources can be cut anywhere (`writeSources_append`).
-/

namespace HackStack.Lowering.Generator

open HackStack.Vm

theorem writeSources_cons {e : Generator} {counts : Array Nat} {name src : Text}
    {cs : List Command} (h : parse src = .ok cs) (rest : List (Text × Text)) :
    e.writeSources counts ((name, src) :: rest) =
      (e.writeUnit name cs).1.writeSources (counts.push (e.writeUnit name cs).2) rest := by
  rw [writeSources, h]

/-- Sources that can be parsed are written. -/
theorem writeSources_of_parse {units : List (Text × Text)} {parsed : List (Text × List Command)}
    (h : List.Forall₂ (fun u v => u.1 = v.1 ∧ parse u.2 = .ok v.2) units parsed) (e : Generator)
    (counts : Array Nat) :
    ∃ counts', e.writeSources counts units =
      .ok (parsed.foldl (fun e u => (e.writeUnit u.1 u.2).1) e, counts') := by
  induction h generalizing e counts with
  | nil => exact ⟨_, rfl⟩
  | @cons u v units parsed huv hrest ih =>
      obtain ⟨name, src⟩ := u
      obtain ⟨rfl, hparse⟩ := huv
      rw [writeSources_cons hparse]
      exact ih _ _

/-- Sources are written one after another. -/
theorem writeSources_append {e e' : Generator} {counts : Array Nat} {counts' : List Nat}
    {before : List (Text × Text)} (h : e.writeSources counts before = .ok (e', counts'))
    (rest : List (Text × Text)) :
    e.writeSources counts (before ++ rest) = e'.writeSources counts'.toArray rest := by
  induction before generalizing e counts with
  | nil =>
      cases h
      simp
  | cons u before ih =>
      obtain ⟨name, src⟩ := u
      cases hparse : parse src with
      | error err =>
          rw [writeSources, hparse] at h
          cases h
      | ok cs =>
          rw [writeSources_cons hparse] at h
          rw [List.cons_append, writeSources_cons hparse]
          exact ih h

end HackStack.Lowering.Generator
