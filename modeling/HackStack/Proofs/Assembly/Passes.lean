import Mathlib.Data.List.Basic
import HackStack.Assembly.Assembler
import HackStack.Proofs.Text.Ascii

/-!
# The two passes of the assembler

What each pass does to a list of statements, in terms of the statements alone.

- The first pass succeeds exactly if the labels are new and distinct and the instructions fit
  (`bindLabels_eq_none_iff`), and then binds each label to the number of instructions before it
  (`bindLabels_of_mem`, `bindLabels_of_notMem`).
- The second pass succeeds exactly if every statement is legal by itself (`makeWords_ok_iff`). Then
  each instruction has the word that it has under the bindings at the end of the pass
  (`makeWords_words`), and the symbols that are still unbound get consecutive addresses in the order
  of their first use (`Allocated.makeWords`).
-/

namespace HackStack.Assembly

open HackStack.Machine

/-! ## Statements by themselves -/

namespace Statement

/-- The symbol that a statement refers to. -/
def reference? : Statement → Option Text
  | load operand => if operand.head?.any Text.isDigit then none else some operand
  | _ => none

/-- Whether a statement can be made a word of, whatever is bound. -/
def isLegal : Statement → Bool
  | label _ => true
  | load operand =>
    if operand.head?.any Text.isDigit then (Text.natUpTo? maxConstant operand).isSome
    else isSymbolName operand
  | compute dest comp jump => (computeWord dest comp jump 0).toOption.isSome

/-- The word of a statement under given bindings. -/
def word? (symbols : Bindings) : Statement → Option Word
  | label _ => none
  | load operand =>
    if operand.head?.any Text.isDigit then (Text.natUpTo? maxConstant operand).map (BitVec.ofNat 16)
    else symbols[operand]?
  | compute dest comp jump => (computeWord dest comp jump 0).toOption

end Statement

/-- The labels of statements with their addresses, if the first instruction gets `next`. -/
def labelAddresses (next : Nat) : List (Nat × Statement) → List (Text × Nat)
  | [] => []
  | (_, .label name) :: rest => (name, next) :: labelAddresses next rest
  | (_, _) :: rest => labelAddresses (next + 1) rest

def instructionsOf (ss : List (Nat × Statement)) : List (Nat × Statement) :=
  ss.filter fun s => s.2.occupiesRom

namespace Assembler

/-! ## The first pass -/

/-- What the first pass does with one statement. -/
theorem bindLabels_cons (symbols : Bindings) (next n : Nat) (s : Statement)
    (rest : List (Nat × Statement)) :
    (∃ name, s = .label name ∧
      bindLabels symbols next ((n, s) :: rest) =
        if symbols.contains name then (symbols, some (.duplicateLabel name n))
        else bindLabels (symbols.insert name (BitVec.ofNat 16 next)) next rest) ∨
    (s.occupiesRom = true ∧ labelAddresses next ((n, s) :: rest) = labelAddresses (next + 1) rest ∧
      bindLabels symbols next ((n, s) :: rest) =
        if programSize < next + 1 then (symbols, some (.tooLarge n))
        else bindLabels symbols (next + 1) rest) := by
  cases s with
  | label name => exact Or.inl ⟨name, rfl, rfl⟩
  | load operand => exact Or.inr ⟨rfl, rfl, rfl⟩
  | compute dest comp jump => exact Or.inr ⟨rfl, rfl, rfl⟩

theorem instructionsOf_cons_of_pos {n : Nat} {s : Statement} (h : s.occupiesRom = true)
    (rest : List (Nat × Statement)) :
    instructionsOf ((n, s) :: rest) = (n, s) :: instructionsOf rest :=
  List.filter_cons_of_pos h

/-- **The first pass succeeds** if the labels are new and distinct and the instructions fit. -/
theorem bindLabels_eq_none_iff (symbols : Bindings) (next : Nat) (ss : List (Nat × Statement))
    (hnext : next ≤ programSize) :
    (bindLabels symbols next ss).2 = none ↔
      ((labelAddresses next ss).map Prod.fst).Nodup ∧
        (∀ name ∈ (labelAddresses next ss).map Prod.fst, symbols.contains name = false) ∧
        next + (instructionsOf ss).length ≤ programSize := by
  induction ss generalizing symbols next with
  | nil => simp [bindLabels, labelAddresses, instructionsOf, hnext]
  | cons s rest ih =>
      obtain ⟨n, s⟩ := s
      rcases bindLabels_cons symbols next n s rest with ⟨name, rfl, h⟩ | ⟨hrom, haddr, h⟩
      · have hlabels : labelAddresses next ((n, .label name) :: rest) =
            (name, next) :: labelAddresses next rest := rfl
        have hinstr : instructionsOf ((n, .label name) :: rest) = instructionsOf rest := rfl
        rw [h, hlabels, hinstr, List.map_cons, List.nodup_cons, List.forall_mem_cons]
        by_cases hc : symbols.contains name = true
        · simp [hc]
        · rw [if_neg hc, ih _ next hnext]
          simp only [Std.HashMap.contains_insert, Bool.or_eq_false_iff, beq_eq_false_iff_ne]
          constructor
          · rintro ⟨hnodup, hnew, hfit⟩
            exact ⟨⟨fun hm => (hnew name hm).1 rfl, hnodup⟩,
              ⟨Bool.eq_false_iff.mpr hc, fun t ht => (hnew t ht).2⟩, hfit⟩
          · rintro ⟨⟨hname, hnodup⟩, ⟨-, hnew⟩, hfit⟩
            exact ⟨hnodup, fun t ht => ⟨fun e => hname (e ▸ ht), hnew t ht⟩, hfit⟩
      · rw [h, haddr, instructionsOf_cons_of_pos hrom, List.length_cons]
        by_cases hc : programSize < next + 1
        · rw [if_pos hc]
          simp only [reduceCtorEq, false_iff]
          rintro ⟨-, -, hfit⟩
          omega
        · rw [if_neg hc, ih symbols (next + 1) (by omega), Nat.add_right_comm, Nat.add_assoc]

/-- What is no label keeps its binding. -/
theorem bindLabels_of_notMem {symbols : Bindings} {next : Nat} {ss : List (Nat × Statement)}
    {t : Text} (ht : t ∉ (labelAddresses next ss).map Prod.fst) :
    (bindLabels symbols next ss).1[t]? = symbols[t]? := by
  induction ss generalizing symbols next with
  | nil => rfl
  | cons s rest ih =>
      obtain ⟨n, s⟩ := s
      rcases bindLabels_cons symbols next n s rest with ⟨name, rfl, h⟩ | ⟨-, haddr, h⟩
      · rw [h]
        change t ∉ name :: (labelAddresses next rest).map Prod.fst at ht
        rw [List.mem_cons, not_or] at ht
        split
        · rfl
        · rw [ih ht.2, Std.HashMap.getElem?_insert]
          simp [Ne.symm ht.1]
      · rw [h]
        rw [haddr] at ht
        split
        · rfl
        · exact ih ht

/-- **A label is bound** to the number of instructions before it. -/
theorem bindLabels_of_mem {symbols : Bindings} {next : Nat} {ss : List (Nat × Statement)}
    {t : Text} {address : Nat} (hok : (bindLabels symbols next ss).2 = none)
    (hnext : next ≤ programSize) (ht : (t, address) ∈ labelAddresses next ss) :
    (bindLabels symbols next ss).1[t]? = some (BitVec.ofNat 16 address) := by
  induction ss generalizing symbols next with
  | nil => cases ht
  | cons s rest ih =>
      obtain ⟨n, s⟩ := s
      have hnodup := ((bindLabels_eq_none_iff _ _ _ hnext).mp hok).1
      rcases bindLabels_cons symbols next n s rest with ⟨name, rfl, h⟩ | ⟨-, haddr, h⟩
      · rw [h] at hok ⊢
        split at hok
        · cases hok
        · next hc =>
            rw [if_neg hc]
            rcases List.mem_cons.mp ht with heq | ht
            · -- what is bound here is not bound again further on
              cases heq
              rw [bindLabels_of_notMem (List.nodup_cons.mp hnodup).1,
                Std.HashMap.getElem?_insert_self]
            · exact ih hok hnext ht
      · rw [h] at hok ⊢
        rw [haddr] at ht
        split at hok
        · cases hok
        · next hc =>
            rw [if_neg hc]
            exact ih hok (by omega) ht

/-- What is bound after the first pass: what was bound before, and the labels. -/
theorem contains_bindLabels {symbols : Bindings} {next : Nat} {ss : List (Nat × Statement)}
    (hok : (bindLabels symbols next ss).2 = none) (hnext : next ≤ programSize) (t : Text) :
    (bindLabels symbols next ss).1.contains t = true ↔
      symbols.contains t = true ∨ t ∈ (labelAddresses next ss).map Prod.fst := by
  by_cases hlabel : t ∈ (labelAddresses next ss).map Prod.fst
  · obtain ⟨⟨name, address⟩, hmem, rfl⟩ := List.mem_map.mp hlabel
    rw [Std.HashMap.contains_eq_isSome_getElem?, bindLabels_of_mem hok hnext hmem]
    simp [hlabel]
  · rw [Std.HashMap.contains_eq_isSome_getElem?, bindLabels_of_notMem hlabel,
      ← Std.HashMap.contains_eq_isSome_getElem?]
    simp [hlabel]

/-! ## The second pass -/

/-- The assembler after it has made a word of a statement: a symbol that was unbound is a variable
now. -/
def use (a : Assembler) (s : Statement) : Assembler :=
  match s.reference? with
  | some t =>
    if a.symbols.contains t then a else ⟨a.symbols.insert t a.nextVariable, a.nextVariable + 1⟩
  | none => a

def useAll (a : Assembler) (ss : List (Nat × Statement)) : Assembler :=
  ss.foldl (fun a s => a.use s.2) a

/-- Every symbol keeps its binding from `σ` to `τ`. -/
def Extends (σ τ : Bindings) : Prop := ∀ (t : Text) (v : Word), σ[t]? = some v → τ[t]? = some v

theorem extends_use (a : Assembler) (s : Statement) : Extends a.symbols (a.use s).symbols := by
  intro t v h
  unfold use
  cases s.reference? with
  | none => exact h
  | some r =>
      dsimp only
      split
      · exact h
      · next hr =>
          have hne : r ≠ t := by
            rintro rfl
            rw [Std.HashMap.contains_eq_isSome_getElem?, h] at hr
            exact hr rfl
          rw [Std.HashMap.getElem?_insert]
          simpa [hne] using h

theorem extends_useAll (a : Assembler) (ss : List (Nat × Statement)) :
    Extends a.symbols (a.useAll ss).symbols := by
  induction ss generalizing a with
  | nil => exact fun _ _ h => h
  | cons s rest ih => exact fun t v h => ih (a.use s.2) t v (extends_use a s.2 t v h)

theorem word?_mono {σ τ : Bindings} (h : Extends σ τ) {s : Statement} {w : Word}
    (hw : s.word? σ = some w) : s.word? τ = some w := by
  cases s with
  | label name => cases hw
  | load operand =>
      rw [Statement.word?] at hw ⊢
      split at hw
      · next hd => rw [if_pos hd, hw]
      · next hd => rw [if_neg hd, h _ _ hw]
  | compute dest comp jump => exact hw

theorem loadWord_of_legal {a : Assembler} {operand : Text}
    (h : (Statement.load operand).isLegal = true) (n : Nat) :
    ∃ w, a.loadWord operand n = (a.use (.load operand), .ok w) ∧
      (Statement.load operand).word? (a.use (.load operand)).symbols = some w := by
  rw [Statement.isLegal] at h
  rw [loadWord, use, Statement.reference?, Statement.word?]
  by_cases hd : operand.head?.any Text.isDigit = true
  · rw [if_pos hd] at h
    obtain ⟨v, hv⟩ := Option.isSome_iff_exists.mp h
    refine ⟨BitVec.ofNat 16 v, ?_, ?_⟩ <;> simp [hd, hv]
  · rw [if_neg hd] at h
    rw [if_neg hd, if_neg hd, if_neg hd, if_pos h]
    dsimp only
    cases hv : a.symbols[operand]? with
    | some v =>
        have hc : a.symbols.contains operand = true := by
          rw [Std.HashMap.contains_eq_isSome_getElem?, hv]
          rfl
        rw [if_pos hc]
        exact ⟨v, rfl, hv⟩
    | none =>
        have hc : ¬ a.symbols.contains operand = true := by
          rw [Std.HashMap.contains_eq_isSome_getElem?, hv]
          exact Bool.false_ne_true
        rw [if_neg hc]
        exact ⟨a.nextVariable, rfl, Std.HashMap.getElem?_insert_self⟩

theorem loadWord_of_illegal {a : Assembler} {operand : Text}
    (h : (Statement.load operand).isLegal = false) (n : Nat) :
    ∃ e, a.loadWord operand n = (a, .error e) := by
  rw [Statement.isLegal] at h
  rw [loadWord]
  by_cases hd : operand.head?.any Text.isDigit = true
  · rw [if_pos hd, Option.isSome_eq_false_iff, Option.isNone_iff_eq_none] at h
    rw [if_pos hd, h]
    exact ⟨_, rfl⟩
  · rw [if_neg hd] at h
    rw [if_neg hd, h]
    exact ⟨_, rfl⟩

/-- A computing instruction has a word exactly if each table knows its field. -/
theorem computeWord_eq_ok_iff {dest comp jump : Text} {n : Nat} {w : Word} :
    computeWord dest comp jump n = .ok w ↔
      ∃ d c j, Dest.ofText? dest = some d ∧ Comp.ofText? comp = some c ∧
        Jump.ofText? jump = some j ∧ w = encodeCompute c.code d.code j.code := by
  constructor
  · intro h
    unfold computeWord at h
    split at h
    · cases h
    · next c hc =>
        split at h
        · cases h
        · next d hd =>
            split at h
            · cases h
            · next j hj =>
                cases h
                exact ⟨d, c, j, hd, hc, hj, rfl⟩
  · rintro ⟨d, c, j, hd, hc, hj, rfl⟩
    rw [computeWord, hc, hd, hj]

/-- Where an instruction has a word, it has it on every line. -/
theorem computeWord_of_legal {dest comp jump : Text}
    (h : (Statement.compute dest comp jump).isLegal = true) (n : Nat) (symbols : Bindings) :
    ∃ w, computeWord dest comp jump n = .ok w ∧
      (Statement.compute dest comp jump).word? symbols = some w := by
  rw [Statement.isLegal] at h
  rw [Statement.word?]
  cases hzero : computeWord dest comp jump 0 with
  | error e =>
      rw [hzero] at h
      cases h
  | ok w => exact ⟨w, computeWord_eq_ok_iff.mpr (computeWord_eq_ok_iff.mp hzero), rfl⟩

theorem computeWord_of_illegal {dest comp jump : Text}
    (h : (Statement.compute dest comp jump).isLegal = false) (n : Nat) :
    ∃ e, computeWord dest comp jump n = .error e := by
  rw [Statement.isLegal] at h
  cases hword : computeWord dest comp jump n with
  | error e => exact ⟨e, rfl⟩
  | ok w =>
      have hzero : computeWord dest comp jump 0 = .ok w :=
        computeWord_eq_ok_iff.mpr (computeWord_eq_ok_iff.mp hword)
      rw [hzero] at h
      cases h

/-- What the second pass does with one instruction: it makes the word that the instruction has from
now on, or it fails. -/
theorem makeWords_cons_of_legal {a : Assembler} {n : Nat} {s : Statement}
    (hs : s.isLegal = true) (hrom : s.occupiesRom = true) (p : Program)
    (rest : List (Nat × Statement)) :
    ∃ w, s.word? (a.use s).symbols = some w ∧
      a.makeWords p ((n, s) :: rest) =
        (a.use s).makeWords ⟨p.words.push w, p.lines.push n⟩ rest := by
  cases s with
  | label name => cases hrom
  | load operand =>
      obtain ⟨w, hload, hword⟩ := loadWord_of_legal (a := a) hs n
      exact ⟨w, hword, by rw [makeWords, hload]⟩
  | compute dest comp jump =>
      obtain ⟨w, hcompute, hword⟩ := computeWord_of_legal hs n (a.use _).symbols
      refine ⟨w, hword, ?_⟩
      rw [makeWords, hcompute]
      rfl

theorem makeWords_cons_of_illegal {a : Assembler} {n : Nat} {s : Statement}
    (hs : s.isLegal = false) (p : Program) (rest : List (Nat × Statement)) :
    ∃ e, (a.makeWords p ((n, s) :: rest)).2 = .error e := by
  cases s with
  | label name => cases hs
  | load operand =>
      obtain ⟨e, hload⟩ := loadWord_of_illegal (a := a) hs n
      exact ⟨e, by rw [makeWords, hload]⟩
  | compute dest comp jump =>
      obtain ⟨e, hcompute⟩ := computeWord_of_illegal hs n
      exact ⟨e, by rw [makeWords, hcompute]⟩

/-- **The second pass makes the words** that the instructions have under the final bindings. -/
theorem makeWords_of_legal {a : Assembler} {ss : List (Nat × Statement)}
    (h : ∀ s ∈ ss, s.2.isLegal = true) (p : Program) :
    ∃ p', a.makeWords p ss = (a.useAll ss, .ok p') ∧
      p'.words.toList.map some =
        p.words.toList.map some ++
          (instructionsOf ss).map (fun s => s.2.word? (a.useAll ss).symbols) ∧
      p'.lines.toList = p.lines.toList ++ (instructionsOf ss).map Prod.fst := by
  induction ss generalizing a p with
  | nil => exact ⟨p, rfl, by simp [instructionsOf], by simp [instructionsOf]⟩
  | cons s rest ih =>
      obtain ⟨n, s⟩ := s
      obtain ⟨hs, hrest⟩ := List.forall_mem_cons.mp h
      by_cases hrom : s.occupiesRom = true
      · obtain ⟨w, hword, hstep⟩ := makeWords_cons_of_legal (a := a) (n := n) hs hrom p rest
        obtain ⟨p', hp', hwords, hlines⟩ := ih (a := a.use s) hrest ⟨p.words.push w, p.lines.push n⟩
        have hlater := word?_mono (extends_useAll (a.use s) rest) hword
        refine ⟨p', hstep.trans hp', ?_, ?_⟩
        · rw [hwords, instructionsOf_cons_of_pos hrom, List.map_cons]
          show _ = _ ++ s.word? ((a.use s).useAll rest).symbols :: _
          rw [hlater, Array.toList_push]
          simp only [List.map_append, List.map_cons, List.map_nil, List.append_assoc,
            List.singleton_append]
          rfl
        · rw [hlines, instructionsOf_cons_of_pos hrom]
          simp
      · -- a label leaves no word and changes no binding
        cases s with
        | label name => exact ih (a := a) hrest p
        | load operand => exact absurd rfl hrom
        | compute dest comp jump => exact absurd rfl hrom

theorem makeWords_of_illegal {a : Assembler} {ss : List (Nat × Statement)}
    (h : ∃ s ∈ ss, s.2.isLegal = false) (p : Program) : ∃ e, (a.makeWords p ss).2 = .error e := by
  induction ss generalizing a p with
  | nil =>
      obtain ⟨s, hs, -⟩ := h
      cases hs
  | cons s rest ih =>
      obtain ⟨n, s⟩ := s
      cases hs : s.isLegal with
      | false => exact makeWords_cons_of_illegal hs p rest
      | true =>
          have hrest : ∃ s ∈ rest, s.2.isLegal = false := by
            obtain ⟨t, ht, hill⟩ := h
            rcases List.mem_cons.mp ht with rfl | ht
            · rw [hs] at hill
              cases hill
            · exact ⟨t, ht, hill⟩
          by_cases hrom : s.occupiesRom = true
          · obtain ⟨w, -, hstep⟩ := makeWords_cons_of_legal (a := a) (n := n) hs hrom p rest
            rw [hstep]
            exact ih hrest _
          · cases s with
            | label name => exact ih hrest p
            | load operand => exact absurd rfl hrom
            | compute dest comp jump => exact absurd rfl hrom

/-! ## Both passes -/

theorem assemble_of_some {a : Assembler} {code : Text} {ss : List (Nat × Statement)}
    {e : AssemblyError} (hs : statements code = .ok ss)
    (hpass : (bindLabels a.symbols 0 ss).2 = some e) : (a.assemble code).2 = .error e := by
  obtain ⟨symbols, nextVariable⟩ := a
  rw [assemble, hs]
  dsimp only at hpass ⊢
  rcases hbind : bindLabels symbols 0 ss with ⟨σ, r⟩
  rw [hbind] at hpass
  cases hpass
  rfl

theorem assemble_of_none {a : Assembler} {code : Text} {ss : List (Nat × Statement)}
    (hs : statements code = .ok ss) (hpass : (bindLabels a.symbols 0 ss).2 = none) :
    a.assemble code =
      makeWords ⟨(bindLabels a.symbols 0 ss).1, a.nextVariable⟩ ⟨#[], #[]⟩ ss := by
  obtain ⟨symbols, nextVariable⟩ := a
  rw [assemble, hs]
  dsimp only at hpass ⊢
  rcases hbind : bindLabels symbols 0 ss with ⟨σ, r⟩
  rw [hbind] at hpass
  cases hpass
  rfl

/-! ## Variables -/

/-- The variables after a statement, if those before it are `vars` and `base` is what was bound
before there were any. -/
def addVariable (base : Bindings) (vars : List Text) (s : Statement) : List Text :=
  match s.reference? with
  | some t => if base.contains t || vars.contains t then vars else vars ++ [t]
  | none => vars

/-- The variables of statements in the order of their first use. -/
def newVariables (base : Bindings) (ss : List (Nat × Statement)) : List Text :=
  ss.foldl (fun vars s => addVariable base vars s.2) []

/-- An assembler that has bound the variables `vars`, and nothing else, since its bindings were
`base`. -/
structure Allocated (base : Bindings) (vars : List Text) (a : Assembler) : Prop where
  nodup : vars.Nodup
  fresh : ∀ t ∈ vars, base[t]? = none
  next : a.nextVariable = BitVec.ofNat 16 (16 + vars.length)
  lookup : ∀ t, a.symbols[t]? =
    base[t]?.or ((vars.idxOf? t).map fun k => BitVec.ofNat 16 (16 + k))

theorem idxOf?_snoc_of_ne {vars : List Text} {t u : Text} (h : t ≠ u) :
    (vars ++ [t]).idxOf? u = vars.idxOf? u := by
  induction vars with
  | nil => simp [List.idxOf?_cons, h]
  | cons v vars ih => rw [List.cons_append, List.idxOf?_cons, List.idxOf?_cons, ih]

/-- A symbol that is already bound, or no symbol, adds no variable. -/
theorem Allocated.contains {base : Bindings} {vars : List Text} {a : Assembler}
    (h : Allocated base vars a) (t : Text) :
    a.symbols.contains t = (base.contains t || vars.contains t) := by
  rw [Std.HashMap.contains_eq_isSome_getElem?, Std.HashMap.contains_eq_isSome_getElem?, h.lookup,
    Option.isSome_or, Option.isSome_map]
  congr 1
  rw [Bool.eq_iff_iff, List.isSome_idxOf?, List.contains_iff_mem]

theorem Allocated.use {base : Bindings} {vars : List Text} {a : Assembler}
    (h : Allocated base vars a) (s : Statement) :
    Allocated base (addVariable base vars s) (a.use s) := by
  unfold addVariable Assembler.use
  cases s.reference? with
  | none => exact h
  | some t =>
      dsimp only
      rw [← h.contains]
      by_cases hc : a.symbols.contains t = true
      · rw [if_pos hc, if_pos hc]
        exact h
      · rw [if_neg hc, if_neg hc]
        rw [h.contains, Bool.or_eq_true, not_or] at hc
        have hbase : base[t]? = none := by
          have hnone := hc.1
          rw [Std.HashMap.contains_eq_isSome_getElem?] at hnone
          exact Option.not_isSome_iff_eq_none.mp hnone
        have hvars : t ∉ vars := by simpa using hc.2
        -- a new variable goes to the end of the list, and so to the next address
        refine ⟨?_, ?_, ?_, ?_⟩
        · exact List.nodup_append.mpr ⟨h.nodup, by simp, by
            rintro u hu v hv rfl
            exact hvars (List.mem_singleton.mp hv ▸ hu)⟩
        · intro u hu
          rcases List.mem_append.mp hu with hu | hu
          · exact h.fresh u hu
          · rw [List.mem_singleton.mp hu, hbase]
        · show a.nextVariable + 1 = _
          rw [h.next, List.length_append, List.length_singleton, ← Nat.add_assoc,
            BitVec.ofNat_add (16 + vars.length)]
          rfl
        · intro u
          show (a.symbols.insert t a.nextVariable)[u]? = _
          rw [Std.HashMap.getElem?_insert]
          by_cases hu : t = u
          · cases hu
            rw [hbase, Text.idxOf?_append_cons hvars, h.next]
            simp
          · rw [idxOf?_snoc_of_ne hu, ← h.lookup]
            simp [hu]

theorem Allocated.useAll {base : Bindings} {vars : List Text} {a : Assembler}
    (h : Allocated base vars a) (ss : List (Nat × Statement)) :
    Allocated base (ss.foldl (fun vars s => addVariable base vars s.2) vars) (a.useAll ss) := by
  induction ss generalizing vars a with
  | nil => exact h
  | cons s rest ih => exact ih (h.use s.2)

/-- **Variables** get consecutive addresses from 16 on. -/
theorem allocated_useAll (symbols : Bindings) (ss : List (Nat × Statement)) :
    Allocated symbols (newVariables symbols ss) (useAll ⟨symbols, 16⟩ ss) := by
  refine Allocated.useAll ⟨List.nodup_nil, fun t ht => ?_, rfl, fun t => ?_⟩ ss
  · cases ht
  · simp

theorem mem_addVariable {base : Bindings} {vars : List Text} {s : Statement} {t : Text} :
    t ∈ addVariable base vars s ↔
      t ∈ vars ∨ (s.reference? = some t ∧ base.contains t = false) := by
  unfold addVariable
  cases s.reference? with
  | none => simp
  | some r =>
      by_cases hbase : base.contains r = true
      · simp only [hbase, Bool.true_or, if_true]
        grind
      · by_cases hvars : vars.contains r = true
        · simp only [hvars, Bool.or_true, if_true]
          grind
        · simp only [Bool.not_eq_true] at hbase hvars
          simp only [hbase, hvars, Bool.or_self, Bool.false_eq_true, if_false]
          grind

/-- The variables are the symbols that are referred to and not bound otherwise. -/
theorem mem_newVariables {base : Bindings} {ss : List (Nat × Statement)} {t : Text} :
    t ∈ newVariables base ss ↔
      (∃ s ∈ ss, s.2.reference? = some t) ∧ base.contains t = false := by
  have hfold : ∀ vars : List Text,
      t ∈ ss.foldl (fun vars s => addVariable base vars s.2) vars ↔
        t ∈ vars ∨ ((∃ s ∈ ss, s.2.reference? = some t) ∧ base.contains t = false) := by
    induction ss with
    | nil => simp
    | cons s rest ih =>
        intro vars
        rw [List.foldl_cons, ih, mem_addVariable, List.exists_mem_cons_iff]
        tauto
  rw [newVariables, hfold]
  simp

end Assembler

end HackStack.Assembly
