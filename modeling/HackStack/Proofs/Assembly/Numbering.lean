import HackStack.Proofs.Assembly.Passes

/-!
# Line numbers

The numbers of lines are there for the source map and for error messages. Statements that differ in
nothing but the numbers of their lines come to the same words and the same bindings, and are refused
together (`sameOutcome_of_statements`).
-/

namespace HackStack.Assembly

open HackStack.Machine

/-- Two attempts at assembly come to the same: both fail, or both succeed with the same words and
the same address of every symbol. -/
inductive SameOutcome :
    Assembler × Except AssemblyError Program → Assembler × Except AssemblyError Program → Prop where
  | fail {a b : Assembler} (e f : AssemblyError) : SameOutcome (a, .error e) (b, .error f)
  | succeed {a b : Assembler} {p q : Program} (words : p.words = q.words)
      (addresses : ∀ t, a.address? t = b.address? t) : SameOutcome (a, .ok p) (b, .ok q)

theorem SameOutcome.of_errors {x y : Assembler × Except AssemblyError Program}
    (hx : ∃ e, x.2 = .error e) (hy : ∃ f, y.2 = .error f) : SameOutcome x y := by
  obtain ⟨a, r⟩ := x
  obtain ⟨b, s⟩ := y
  obtain ⟨e, rfl⟩ := hx
  obtain ⟨f, rfl⟩ := hy
  exact .fail e f

def bareStatements (ss : List (Nat × Statement)) : List Statement := ss.map Prod.snd

theorem bareStatements_eq_cons {ss : List (Nat × Statement)} {s : Statement} {rest : List Statement}
    (h : bareStatements ss = s :: rest) :
    ∃ n tail, ss = (n, s) :: tail ∧ bareStatements tail = rest := by
  obtain ⟨⟨n, t⟩, tail, rfl, rfl, hrest⟩ := List.map_eq_cons_iff.mp h
  exact ⟨n, tail, rfl, hrest⟩

namespace Assembler

variable {ss ss' : List (Nat × Statement)} (h : bareStatements ss = bareStatements ss')
include h

/-- The first pass binds the same labels, and fails for the same statements. -/
theorem bindLabels_of_bareStatements (symbols : Bindings) (next : Nat) :
    (bindLabels symbols next ss).1 = (bindLabels symbols next ss').1 ∧
      ((bindLabels symbols next ss).2 = none ↔ (bindLabels symbols next ss').2 = none) := by
  induction ss generalizing ss' symbols next with
  | nil =>
      rw [List.map_eq_nil_iff.mp h.symm]
      exact ⟨rfl, Iff.rfl⟩
  | cons s rest ih =>
      obtain ⟨n, s⟩ := s
      obtain ⟨m, tail, rfl, htail⟩ := bareStatements_eq_cons h.symm
      have hrest := ih htail.symm
      rcases bindLabels_cons symbols next n s rest with ⟨name, rfl, hn⟩ | ⟨hrom, -, hn⟩
      · rcases bindLabels_cons symbols next m (.label name) tail with ⟨_, hname, hm⟩ | ⟨hrom, -⟩
        · cases hname
          rw [hn, hm]
          split
          · exact ⟨rfl, by simp⟩
          · exact hrest _ next
        · cases hrom
      · rcases bindLabels_cons symbols next m s tail with ⟨name, rfl, -⟩ | ⟨-, -, hm⟩
        · cases hrom
        · rw [hn, hm]
          split
          · exact ⟨rfl, by simp⟩
          · exact hrest symbols (next + 1)

theorem isLegal_of_bareStatements :
    (∀ s ∈ ss, s.2.isLegal = true) ↔ ∀ s ∈ ss', s.2.isLegal = true := by
  have hmap : ∀ ts : List (Nat × Statement),
      (∀ s ∈ ts, s.2.isLegal = true) ↔ ∀ s ∈ bareStatements ts, s.isLegal = true := by
    intro ts
    rw [bareStatements, List.forall_mem_map]
  rw [hmap, hmap, h]

theorem useAll_of_bareStatements (a : Assembler) : a.useAll ss = a.useAll ss' := by
  have hmap : ∀ ts : List (Nat × Statement), a.useAll ts = (bareStatements ts).foldl use a := by
    intro ts
    rw [useAll, bareStatements, List.foldl_map]
  rw [hmap, hmap, h]

theorem words_of_bareStatements (symbols : Bindings) :
    (instructionsOf ss).map (fun s => s.2.word? symbols) =
      (instructionsOf ss').map (fun s => s.2.word? symbols) := by
  have hmap : ∀ ts : List (Nat × Statement),
      (instructionsOf ts).map (fun s => s.2.word? symbols) =
        ((bareStatements ts).filter Statement.occupiesRom).map (Statement.word? symbols) := by
    intro ts
    rw [bareStatements, List.filter_map, List.map_map]
    rfl
  rw [hmap, hmap, h]

/-- The second pass makes the same words. -/
theorem sameOutcome_makeWords (a : Assembler) :
    SameOutcome (a.makeWords ⟨#[], #[]⟩ ss) (a.makeWords ⟨#[], #[]⟩ ss') := by
  by_cases hlegal : ∀ s ∈ ss, s.2.isLegal = true
  · obtain ⟨p, hp, hwords, -⟩ := makeWords_of_legal (a := a) hlegal ⟨#[], #[]⟩
    obtain ⟨q, hq, hwords', -⟩ :=
      makeWords_of_legal (a := a) ((isLegal_of_bareStatements h).mp hlegal) ⟨#[], #[]⟩
    rw [useAll_of_bareStatements h, words_of_bareStatements h, ← hwords'] at hwords
    rw [hp, hq, useAll_of_bareStatements h]
    refine .succeed ?_ fun t => rfl
    exact Array.toList_inj.mp (List.map_injective_iff.mpr (fun v w => Option.some.inj) hwords)
  · have hillegal : ∀ ts : List (Nat × Statement), ¬(∀ s ∈ ts, s.2.isLegal = true) →
        ∃ e, (a.makeWords ⟨#[], #[]⟩ ts).2 = .error e := by
      intro ts hts
      push Not at hts
      obtain ⟨s, hs, hill⟩ := hts
      exact makeWords_of_illegal ⟨s, hs, by simpa using hill⟩ _
    refine .of_errors (hillegal ss hlegal) (hillegal ss' ?_)
    rwa [← isLegal_of_bareStatements h]

end Assembler

/-- **Line numbers do not matter** to what is assembled. -/
theorem sameOutcome_of_statements {first second : Text} {ss ss' : List (Nat × Statement)}
    (hfirst : statements first = .ok ss) (hsecond : statements second = .ok ss')
    (h : bareStatements ss = bareStatements ss') (a : Assembler) :
    SameOutcome (a.assemble first) (a.assemble second) := by
  obtain ⟨hbound, hpass⟩ := Assembler.bindLabels_of_bareStatements h a.symbols 0
  by_cases hnone : (Assembler.bindLabels a.symbols 0 ss).2 = none
  · rw [Assembler.assemble_of_none hfirst hnone, hbound,
      Assembler.assemble_of_none hsecond (hpass.mp hnone)]
    exact Assembler.sameOutcome_makeWords h _
  · obtain ⟨e, he⟩ := Option.ne_none_iff_exists'.mp hnone
    obtain ⟨f, hf⟩ := Option.ne_none_iff_exists'.mp (mt hpass.mpr hnone)
    exact .of_errors ⟨e, Assembler.assemble_of_some hfirst he⟩
      ⟨f, Assembler.assemble_of_some hsecond hf⟩

end HackStack.Assembly
