import Mathlib.Data.List.Dedup
import HackStack.Proofs.Assembly.Image
import HackStack.Proofs.Text.Comment
import HackStack.Proofs.Vm.Name

/-!
# What the assembler makes of a text

`sourceStatements` reads the statements of a text line by line, with no regard to what they mean,
and `Translates` says in terms of these lines which words, which source map and which bindings
belong to the text. Every text that a new assembler accepts is translated so, although a symbol may
be used before the line that makes it a label, and both passes write to one table.

- `label_mem_sourceStatements`, `load_mem_sourceStatements`: which lines hold labels and loads.
- `labelAddresses_of_split`: what the first pass counts for a label is the number of instruction
  lines before it.
- `idxOf?_newVariables`: what the second pass counts for a variable is the number of other variables
  that are used before its first use.
-/

namespace HackStack.Assembly

open HackStack.Machine

/-! ## The lines of a text -/

/-- The statement on a numbered line, if there is one, with the number of the line. -/
def numberedStatement? (line : Text × Nat) : Option (Nat × Statement) :=
  (parseStatement line.1 line.2).toOption.join.map (line.2, ·)

/-- The statements on the lines of a text with the numbers of their lines, which are counted from
1 on. -/
def sourceStatements (code : Text) : List (Nat × Statement) :=
  ((code.splitOn Text.lineFeed).zipIdx 1).filterMap numberedStatement?

theorem mem_sourceStatements {code : Text} {n : Nat} {s : Statement} :
    (n, s) ∈ sourceStatements code ↔
      ∃ line, 1 ≤ n ∧ (code.splitOn Text.lineFeed)[n - 1]? = some line ∧
        parseStatement line n = .ok (some s) := by
  have hstatement : ∀ line m, numberedStatement? (line, m) = some (n, s) ↔
      m = n ∧ parseStatement line n = .ok (some s) := by
    intro line m
    rw [numberedStatement?, Option.map_eq_some_iff]
    constructor
    · rintro ⟨_, hs, heq⟩
      cases heq
      refine ⟨rfl, ?_⟩
      dsimp only at hs
      cases hparse : parseStatement line m with
      | error e => simp [hparse, Except.toOption] at hs
      | ok found =>
          rw [hparse] at hs
          cases found with
          | none => cases hs
          | some _ =>
              cases hs
              rfl
    · rintro ⟨rfl, hparse⟩
      exact ⟨s, by rw [hparse]; rfl, rfl⟩
  rw [sourceStatements, List.mem_filterMap]
  constructor
  · rintro ⟨⟨line, m⟩, hmem, hs⟩
    obtain ⟨rfl, hparse⟩ := (hstatement line m).mp hs
    obtain ⟨hle, hline⟩ := List.mem_zipIdx_iff_le_and_getElem?_sub.mp hmem
    exact ⟨line, hle, hline, hparse⟩
  · rintro ⟨line, hle, hline, hparse⟩
    exact ⟨(line, n), List.mem_zipIdx_iff_le_and_getElem?_sub.mpr ⟨hle, hline⟩,
      (hstatement line n).mpr ⟨rfl, hparse⟩⟩

/-- Without its comment and the white space around it, the line is a name in round brackets. -/
def HoldsLabel (line name : Text) : Prop :=
  ∃ code inner, Text.IsCode line code ∧ Text.IsTrimmed code (0x28 :: (inner ++ [0x29])) ∧
    Text.IsTrimmed inner name ∧ isSymbolName name = true

/-- Without its comment and the white space around it, the line is `@` and an operand. -/
def HoldsLoad (line operand : Text) : Prop :=
  ∃ code rest, Text.IsCode line code ∧ Text.IsTrimmed code (0x40 :: rest) ∧
    Text.IsTrimmed rest operand ∧ operand ≠ []

theorem parseStatement_eq_label_iff {line name : Text} {n : Nat} :
    parseStatement line n = .ok (some (.label name)) ↔ HoldsLabel line name := by
  constructor
  · intro h
    have htrimmed := Text.isTrimmed_trim line.dropComment
    unfold parseStatement at h
    split at h
    · cases h
    · next rest hrest =>
        split at h
        · next hlast =>
            dsimp only at h
            split at h
            · next hname =>
                cases h
                rw [hrest, ← List.dropLast_append_getLast? _ hlast] at htrimmed
                exact ⟨_, _, Text.isCode_dropComment line, htrimmed, Text.isTrimmed_trim _, hname⟩
            · cases h
        · cases h
    · split at h <;> cases h
    · dsimp only at h
      split at h <;> cases h
  · rintro ⟨code, inner, hcode, htrimmed, hinner, hname⟩
    rw [parseStatement, ← Text.eq_dropComment_of_isCode hcode, ← htrimmed.eq_trim]
    simp [← hinner.eq_trim, hname]

theorem parseStatement_eq_load_iff {line operand : Text} {n : Nat} :
    parseStatement line n = .ok (some (.load operand)) ↔ HoldsLoad line operand := by
  constructor
  · intro h
    have htrimmed := Text.isTrimmed_trim line.dropComment
    unfold parseStatement at h
    split at h
    · cases h
    · split at h
      · dsimp only at h
        split at h <;> cases h
      · cases h
    · next rest hrest =>
        split at h
        · cases h
        · next hne =>
            cases h
            rw [hrest] at htrimmed
            exact ⟨_, _, Text.isCode_dropComment line, htrimmed, Text.isTrimmed_trim _, hne⟩
    · dsimp only at h
      split at h <;> cases h
  · rintro ⟨code, rest, hcode, htrimmed, hrest, hne⟩
    rw [parseStatement, ← Text.eq_dropComment_of_isCode hcode, ← htrimmed.eq_trim]
    simp only [← hrest.eq_trim]

/-- **Labels**, in terms of the lines alone. -/
theorem label_mem_sourceStatements {code : Text} {n : Nat} {t : Text} :
    (n, Statement.label t) ∈ sourceStatements code ↔
      ∃ line, 1 ≤ n ∧ (code.splitOn Text.lineFeed)[n - 1]? = some line ∧ HoldsLabel line t := by
  simp only [mem_sourceStatements, parseStatement_eq_label_iff]

/-- **Loads**, in terms of the lines alone. -/
theorem load_mem_sourceStatements {code : Text} {n : Nat} {t : Text} :
    (n, Statement.load t) ∈ sourceStatements code ↔
      ∃ line, 1 ≤ n ∧ (code.splitOn Text.lineFeed)[n - 1]? = some line ∧ HoldsLoad line t := by
  simp only [mem_sourceStatements, parseStatement_eq_load_iff]

/-- The lines of a text that take a word, in order. -/
def instructionLines (code : Text) : List (Nat × Statement) :=
  instructionsOf (sourceStatements code)

def sourceLabels (code : Text) : List Text :=
  (sourceStatements code).filterMap fun
    | (_, .label name) => some name
    | _ => none

/-- Whether a symbol is a variable of a text: neither predefined nor a label on any of its lines. -/
def isVariableOf (code t : Text) : Bool :=
  !(predefined.map Prod.fst).contains t && !(sourceLabels code).contains t

/-- The uses of variables in a text, each with the number of its line. -/
def variableUses (code : Text) : List (Nat × Text) :=
  (sourceStatements code).filterMap fun s =>
    (s.2.reference?.filter (isVariableOf code)).map (s.1, ·)

/-- What stands on the lines before the one with number `n`. -/
def linesBefore {α : Type} (n : Nat) (lines : List (Nat × α)) : List (Nat × α) :=
  lines.filter fun l => l.1 < n

/-- The words, the source map and the bindings that belong to a text. -/
structure Translates (code : Text) (a : Assembler) (p : Program) : Prop where
  /-- Each instruction line gives one word. -/
  size : p.words.size = (instructionLines code).length
  fits : p.words.size ≤ programSize
  /-- The address of a word is mapped to the line that it was made from. -/
  lines : p.lines.toList = (instructionLines code).map Prod.fst
  computed : ∀ (i n : Nat) (dest comp jump : Text),
    (instructionLines code)[i]? = some (n, Statement.compute dest comp jump) →
      ∃ w, computeWord dest comp jump n = .ok w ∧ p.words[i]? = some w
  number : ∀ (i n : Nat) (operand : Text),
    (instructionLines code)[i]? = some (n, Statement.load operand) →
    operand.head?.any Text.isDigit = true →
      Vm.IsNumeral operand ∧ ∃ w : Word, p.words[i]? = some w ∧ w.toNat = operand.numeralValue
  /-- Wherever a symbol is used, the word is its address. -/
  symbol : ∀ (i n : Nat) (t : Text),
    (instructionLines code)[i]? = some (n, Statement.load t) →
    t.head?.any Text.isDigit = false → ∃ w, p.words[i]? = some w ∧ a.address? t = some w
  predefined : ∀ r ∈ predefined, a.address? r.1 = some r.2
  label : ∀ (n : Nat) (t : Text), (n, Statement.label t) ∈ sourceStatements code →
    ∃ w, a.address? t = some w ∧ w.toNat = (linesBefore n (instructionLines code)).length
  /-- The first use of a variable decides its address. -/
  allocated : ∀ (n : Nat) (t : Text), (n, t) ∈ variableUses code →
    (∀ m, (m, t) ∈ variableUses code → n ≤ m) →
      ∃ w, a.address? t = some w ∧
        w.toNat = 16 + ((linesBefore n (variableUses code)).map Prod.snd).dedup.length
  labels_nodup : (sourceLabels code).Nodup
  labels_free : ∀ t ∈ sourceLabels code, t ∉ Assembly.predefined.map Prod.fst

theorem parseStatements_eq_ok {n : Nat} {found out : Array (Nat × Statement)} {lines : List Text}
    (h : parseStatements n found lines = .ok out) :
    out.toList = found.toList ++ (lines.zipIdx n).filterMap numberedStatement? := by
  induction lines generalizing n found with
  | nil =>
      cases h
      simp
  | cons line lines ih =>
      rw [parseStatements] at h
      rw [List.zipIdx_cons, List.filterMap_cons, numberedStatement?]
      cases hline : parseStatement line n with
      | error e =>
          rw [hline] at h
          cases h
      | ok s =>
          rw [hline] at h
          cases s with
          | none => exact ih h
          | some s =>
              rw [ih h]
              simp [Except.toOption]

theorem statements_eq_ok {code : Text} {ss : List (Nat × Statement)}
    (h : statements code = .ok ss) : ss = sourceStatements code := by
  rw [statements] at h
  cases hparse : parseStatements 1 #[] (code.splitOn Text.lineFeed) with
  | error e =>
      rw [hparse] at h
      cases h
  | ok out =>
      rw [hparse] at h
      cases h
      rw [sourceStatements, parseStatements_eq_ok hparse]
      rfl

/-! ## Lines before a line -/

theorem ascending_sourceStatements (code : Text) :
    (sourceStatements code).Pairwise fun s t => s.1 < t.1 := by
  rw [sourceStatements, List.pairwise_filterMap]
  have hnumbers : ((code.splitOn Text.lineFeed).zipIdx 1).Pairwise fun k l => k.2 < l.2 := by
    rw [← List.pairwise_map (f := Prod.snd), List.zipIdx_map_snd]
    exact List.pairwise_lt_range'
  refine hnumbers.imp ?_
  intro k l hlt s hs t ht
  obtain ⟨_, -, rfl⟩ := Option.map_eq_some_iff.mp hs
  obtain ⟨_, -, rfl⟩ := Option.map_eq_some_iff.mp ht
  exact hlt

theorem linesBefore_of_split {α : Type} {before after : List (Nat × α)} {n : Nat} {x : α}
    (h : (before ++ (n, x) :: after).Pairwise fun s t => s.1 < t.1) :
    linesBefore n (before ++ (n, x) :: after) = before := by
  obtain ⟨-, hrest, hfirst⟩ := List.pairwise_append.mp h
  have hafter := (List.pairwise_cons.mp hrest).1
  rw [linesBefore, List.filter_append, List.filter_eq_self.mpr, List.filter_eq_nil_iff.mpr,
    List.append_nil]
  · intro l hl
    rcases List.mem_cons.mp hl with rfl | hl
    · simp
    · have hlt := hafter l hl
      simp only [decide_eq_true_eq]
      omega
  · intro l hl
    simpa using hfirst l hl (n, x) List.mem_cons_self

/-! ## Labels -/

theorem map_fst_labelAddresses (next : Nat) (ss : List (Nat × Statement)) :
    (labelAddresses next ss).map Prod.fst = ss.filterMap fun
      | (_, .label name) => some name
      | _ => none := by
  induction ss generalizing next with
  | nil => rfl
  | cons s ss ih =>
      obtain ⟨n, s⟩ := s
      cases s with
      | label name => exact congrArg (name :: ·) (ih next)
      | load operand => exact ih (next + 1)
      | compute dest comp jump => exact ih (next + 1)

/-- The address of a label is the number of instructions before it. -/
theorem labelAddresses_of_split (next : Nat) (before after : List (Nat × Statement)) (n : Nat)
    (t : Text) :
    (t, next + (instructionsOf before).length) ∈
      labelAddresses next (before ++ (n, .label t) :: after) := by
  induction before generalizing next with
  | nil => exact List.mem_cons_self
  | cons s before ih =>
      obtain ⟨m, s⟩ := s
      by_cases hrom : s.occupiesRom = true
      · rw [Assembler.instructionsOf_cons_of_pos hrom, List.length_cons, Nat.add_comm _ 1,
          ← Nat.add_assoc]
        cases s with
        | label name => cases hrom
        | load operand => exact ih (next + 1)
        | compute dest comp jump => exact ih (next + 1)
      · cases s with
        | label name => exact List.mem_cons_of_mem _ (ih next)
        | load operand => exact absurd rfl hrom
        | compute dest comp jump => exact absurd rfl hrom

/-! ## Variables -/

namespace Assembler

/-- A symbol that is referred to and not yet bound is counted behind those before it. -/
theorem addVariable_of_fresh {base : Bindings} {vars : List Text} {s : Statement} {t : Text}
    (hs : s.reference? = some t) (hbase : base.contains t = false) (hvars : t ∉ vars) :
    addVariable base vars s = vars ++ [t] := by
  rw [addVariable, hs]
  simp [hbase, hvars]

theorem addVariables_extend (base : Bindings) (vars : List Text) (ss : List (Nat × Statement)) :
    ∃ more, ss.foldl (fun vars s => addVariable base vars s.2) vars = vars ++ more := by
  induction ss generalizing vars with
  | nil => exact ⟨[], (List.append_nil vars).symm⟩
  | cons s ss ih =>
      obtain ⟨more, hmore⟩ := ih (addVariable base vars s.2)
      have hstep : ∃ new, addVariable base vars s.2 = vars ++ new := by
        unfold addVariable
        split
        · split
          · exact ⟨[], (List.append_nil vars).symm⟩
          · exact ⟨_, rfl⟩
        · exact ⟨[], (List.append_nil vars).symm⟩
      obtain ⟨new, hnew⟩ := hstep
      refine ⟨new ++ more, ?_⟩
      rw [List.foldl_cons, hmore, hnew, List.append_assoc]

/-- A variable is counted by the variables of the statements before its first use. -/
theorem idxOf?_newVariables {base : Bindings} {before after : List (Nat × Statement)} {n : Nat}
    {s : Statement} {t : Text} (hs : s.reference? = some t) (hbase : base.contains t = false)
    (hfirst : t ∉ newVariables base before) :
    (newVariables base (before ++ (n, s) :: after)).idxOf? t =
      some (newVariables base before).length := by
  obtain ⟨more, hmore⟩ :=
    addVariables_extend base (addVariable base (newVariables base before) s) after
  have hall : newVariables base (before ++ (n, s) :: after) =
      newVariables base before ++ t :: more := by
    rw [newVariables, List.foldl_append, List.foldl_cons]
    rw [addVariable_of_fresh hs hbase hfirst] at hmore
    rw [← newVariables, addVariable_of_fresh hs hbase hfirst, hmore, List.append_assoc]
    rfl
  rw [hall]
  exact Text.idxOf?_append_cons hfirst more

/-- How many variables there are among statements: the number of different ones. -/
theorem length_newVariables (base : Bindings) (ss : List (Nat × Statement)) :
    (newVariables base ss).length =
      (ss.filterMap fun s => s.2.reference?.filter (!base.contains ·)).dedup.length := by
  have hperm : (newVariables base ss).Perm
      (ss.filterMap fun s => s.2.reference?.filter (!base.contains ·)).dedup := by
    refine (List.perm_ext_iff_of_nodup (allocated_useAll base ss).nodup
      (List.nodup_dedup _)).mpr ?_
    intro t
    rw [mem_newVariables, List.mem_dedup, List.mem_filterMap]
    simp only [Option.filter_eq_some_iff, Bool.not_eq_true']
    constructor
    · rintro ⟨⟨s, hs, ht⟩, hbase⟩
      exact ⟨s, hs, ht, hbase⟩
    · rintro ⟨s, hs, ht, hbase⟩
      exact ⟨⟨s, hs, ht⟩, hbase⟩
  exact hperm.length_eq

end Assembler

/-! ## Lines of a text -/

theorem mem_variableUses {code t : Text} {n : Nat} :
    (n, t) ∈ variableUses code ↔
      (∃ s, (n, s) ∈ sourceStatements code ∧ s.reference? = some t) ∧
        isVariableOf code t = true := by
  rw [variableUses, List.mem_filterMap]
  simp only [Option.map_eq_some_iff, Option.filter_eq_some_iff, Prod.mk.injEq]
  constructor
  · rintro ⟨⟨m, s⟩, hs, u, ⟨href, hvar⟩, rfl, rfl⟩
    exact ⟨⟨s, hs, href⟩, hvar⟩
  · rintro ⟨⟨s, hs, href⟩, hvar⟩
    exact ⟨(n, s), hs, t, ⟨href, hvar⟩, rfl, rfl⟩

/-- The lines before a line are those before it in the order of the text. -/
theorem linesBefore_sourceStatements {code : Text} {before after : List (Nat × Statement)}
    {n : Nat} {s : Statement} (h : sourceStatements code = before ++ (n, s) :: after) :
    linesBefore n (sourceStatements code) = before := by
  have hascending := ascending_sourceStatements code
  rw [h] at hascending ⊢
  exact linesBefore_of_split hascending

theorem linesBefore_instructionLines (code : Text) (n : Nat) :
    linesBefore n (instructionLines code) =
      instructionsOf (linesBefore n (sourceStatements code)) :=
  List.filter_comm ..

theorem linesBefore_variableUses (code : Text) (n : Nat) :
    (linesBefore n (variableUses code)).map Prod.snd =
      (linesBefore n (sourceStatements code)).filterMap fun s =>
        s.2.reference?.filter (isVariableOf code) := by
  rw [linesBefore, linesBefore, variableUses, ← List.filterMap_eq_filter, List.filterMap_filterMap,
    List.map_filterMap, ← List.filterMap_eq_filter, List.filterMap_filterMap]
  congr 1
  funext s
  -- filtering by the line number looks at neither statement nor symbol
  cases hs : s.2.reference?.filter (isVariableOf code) with
  | none => by_cases hn : s.1 < n <;> simp [Option.guard, hs, hn]
  | some t => by_cases hn : s.1 < n <;> simp [Option.guard, hs, hn]

theorem length_variableUses_le (code : Text) :
    (variableUses code).length ≤ (instructionLines code).length := by
  have huses : variableUses code = (instructionLines code).filterMap fun s =>
      (s.2.reference?.filter (isVariableOf code)).map (s.1, ·) := by
    rw [variableUses, instructionLines, instructionsOf, List.filterMap_filter]
    congr 1
    funext s
    obtain ⟨n, s⟩ := s
    cases s <;> rfl
  rw [huses]
  exact List.length_filterMap_le _ _

/-! ## A new assembler -/

/-- What is bound when the second pass over a text starts. -/
def boundFirst (code : Text) : Bindings :=
  (Assembler.bindLabels Assembler.new.symbols 0 (sourceStatements code)).1

/-- What the two passes have done to a text that was accepted. -/
theorem passes_of_assemble {code : Text} {a : Assembler} {p : Program}
    (h : Assembler.new.assemble code = (a, .ok p)) :
    (Assembler.bindLabels Assembler.new.symbols 0 (sourceStatements code)).2 = none ∧
      (∀ s ∈ sourceStatements code, s.2.isLegal = true) ∧
      a = Assembler.useAll ⟨boundFirst code, 16⟩ (sourceStatements code) ∧
      p.words.toList.map some = (instructionLines code).map (fun s => s.2.word? a.symbols) ∧
      p.lines.toList = (instructionLines code).map Prod.fst := by
  cases hss : statements code with
  | error e =>
      rw [Assembler.assemble, hss] at h
      cases h
  | ok ss =>
      obtain rfl := statements_eq_ok hss
      cases hpass : (Assembler.bindLabels Assembler.new.symbols 0 (sourceStatements code)).2 with
      | some e =>
          have herror := Assembler.assemble_of_some hss hpass
          rw [h] at herror
          cases herror
      | none =>
          rw [Assembler.assemble_of_none hss hpass] at h
          by_cases hlegal : ∀ s ∈ sourceStatements code, s.2.isLegal = true
          · obtain ⟨p', hmake, hwords, hlines⟩ :=
              Assembler.makeWords_of_legal (a := ⟨boundFirst code, 16⟩) hlegal ⟨#[], #[]⟩
            cases h.symm.trans hmake
            exact ⟨rfl, hlegal, rfl, hwords, hlines⟩
          · push Not at hlegal
            obtain ⟨s, hs, hill⟩ := hlegal
            obtain ⟨e, herror⟩ :=
              Assembler.makeWords_of_illegal ⟨s, hs, by simpa using hill⟩ ⟨#[], #[]⟩
            rw [h] at herror
            cases herror

section

variable {code : Text} {a : Assembler} {p : Program}
  (h : Assembler.new.assemble code = (a, .ok p))
include h

theorem word_of_instructionLine {i n : Nat} {s : Statement}
    (hi : (instructionLines code)[i]? = some (n, s)) :
    s.isLegal = true ∧ ∃ w, p.words[i]? = some w ∧ s.word? a.symbols = some w := by
  obtain ⟨-, hlegal, -, hwords, -⟩ := passes_of_assemble h
  refine ⟨hlegal (n, s) (List.mem_of_mem_filter (List.mem_of_getElem? hi)), ?_⟩
  have hword : (p.words.toList.map some)[i]? = some (s.word? a.symbols) := by
    rw [hwords, List.getElem?_map, hi]
    rfl
  rw [List.getElem?_map, Option.map_eq_some_iff] at hword
  obtain ⟨w, hw, hsome⟩ := hword
  exact ⟨w, by rwa [← Array.getElem?_toList], hsome.symm⟩

theorem labels_of_accepted :
    (sourceLabels code).Nodup ∧ (∀ t ∈ sourceLabels code, t ∉ predefined.map Prod.fst) ∧
      (instructionLines code).length ≤ programSize := by
  obtain ⟨hpass, -, -, -, -⟩ := passes_of_assemble h
  have hcounted := (Assembler.bindLabels_eq_none_iff _ _ _ (Nat.zero_le _)).mp hpass
  rw [map_fst_labelAddresses, Nat.zero_add] at hcounted
  obtain ⟨hnodup, hnew, hfits⟩ := hcounted
  refine ⟨hnodup, ?_, hfits⟩
  intro t ht hpre
  have hbound := hnew t ht
  rw [contains_new, List.contains_iff_mem.mpr hpre] at hbound
  cases hbound

/-- What the first pass has bound stays bound. -/
theorem predefined_address {r : Text × Word} (hr : r ∈ predefined) :
    a.address? r.1 = some r.2 := by
  obtain ⟨-, hfree, -⟩ := labels_of_accepted h
  obtain ⟨-, -, rfl, -, -⟩ := passes_of_assemble h
  apply Assembler.extends_useAll
  show (boundFirst code)[r.1]? = _
  rw [boundFirst, Assembler.bindLabels_of_notMem, lookup_new hr]
  rw [map_fst_labelAddresses]
  exact fun hm => hfree _ hm (List.mem_map_of_mem hr)

theorem label_address {n : Nat} {t : Text} (ht : (n, Statement.label t) ∈ sourceStatements code) :
    a.address? t = some (BitVec.ofNat 16 (linesBefore n (instructionLines code)).length) := by
  obtain ⟨hpass, -, rfl, -, -⟩ := passes_of_assemble h
  obtain ⟨before, after, hsplit⟩ := List.append_of_mem ht
  rw [linesBefore_instructionLines, linesBefore_sourceStatements hsplit]
  apply Assembler.extends_useAll
  apply Assembler.bindLabels_of_mem hpass (Nat.zero_le _)
  rw [hsplit]
  simpa using labelAddresses_of_split 0 before after n t

/-- What the first pass leaves unbound are the variables. -/
theorem contains_boundFirst (t : Text) : (boundFirst code).contains t = !isVariableOf code t := by
  obtain ⟨hpass, -, -, -, -⟩ := passes_of_assemble h
  rw [Bool.eq_iff_iff, boundFirst, Assembler.contains_bindLabels hpass (Nat.zero_le _),
    contains_new, map_fst_labelAddresses]
  simp [isVariableOf, sourceLabels]

/-- A variable has its place in the order of first uses. -/
theorem variable_index {n : Nat} {t : Text} (ht : (n, t) ∈ variableUses code)
    (hfirst : ∀ m, (m, t) ∈ variableUses code → n ≤ m) :
    (Assembler.newVariables (boundFirst code) (sourceStatements code)).idxOf? t =
      some ((linesBefore n (variableUses code)).map Prod.snd).dedup.length := by
  obtain ⟨⟨s, hs, href⟩, hvar⟩ := mem_variableUses.mp ht
  obtain ⟨before, after, hsplit⟩ := List.append_of_mem hs
  have hbefore := linesBefore_sourceStatements hsplit
  have hfresh : t ∉ Assembler.newVariables (boundFirst code) before := by
    intro hm
    obtain ⟨⟨⟨m, s'⟩, hs', href'⟩, -⟩ := Assembler.mem_newVariables.mp hm
    rw [← hbefore, linesBefore, List.mem_filter] at hs'
    have hlt : m < n := by simpa using hs'.2
    have hle := hfirst m (mem_variableUses.mpr ⟨⟨s', hs'.1, href'⟩, hvar⟩)
    omega
  have hunbound : (boundFirst code).contains t = false := by
    rw [contains_boundFirst h, hvar]
    rfl
  have hindex : (Assembler.newVariables (boundFirst code) (before ++ (n, s) :: after)).idxOf? t =
      some (Assembler.newVariables (boundFirst code) before).length :=
    Assembler.idxOf?_newVariables href hunbound hfresh
  rw [← hsplit, Assembler.length_newVariables] at hindex
  rw [hindex, linesBefore_variableUses, hbefore]
  simp only [contains_boundFirst h, Bool.not_not]

theorem variable_address {n : Nat} {t : Text} (ht : (n, t) ∈ variableUses code)
    (hfirst : ∀ m, (m, t) ∈ variableUses code → n ≤ m) :
    a.address? t = some (BitVec.ofNat 16
      (16 + ((linesBefore n (variableUses code)).map Prod.snd).dedup.length)) := by
  have hindex := variable_index h ht hfirst
  obtain ⟨-, -, rfl, -, -⟩ := passes_of_assemble h
  have halloc := Assembler.allocated_useAll (boundFirst code) (sourceStatements code)
  have hmem : t ∈ Assembler.newVariables (boundFirst code) (sourceStatements code) := by
    rw [← List.isSome_idxOf?, hindex]
    rfl
  rw [Assembler.address?, halloc.lookup, halloc.fresh t hmem, hindex]
  rfl

end

/-- **Assembly in two passes.** Every text that a new assembler accepts is translated line by line:
a label stands for the number of instruction lines before it, wherever it is used, a predefined
symbol for its own value and a number for itself. Any other symbol gets an address behind the
registers, in the order of first uses. -/
theorem translates_of_assemble {code : Text} {a : Assembler} {p : Program}
    (h : Assembler.new.assemble code = (a, .ok p)) : Translates code a p := by
  obtain ⟨hnodup, hfree, hfits⟩ := labels_of_accepted h
  obtain ⟨-, -, -, hwords, hlines⟩ := passes_of_assemble h
  have hsize : p.words.size = (instructionLines code).length := by
    have hlength := congrArg List.length hwords
    rwa [List.length_map, List.length_map, Array.length_toList] at hlength
  have hprogram : programSize = 0x8000 := rfl
  refine ⟨hsize, hsize ▸ hfits, hlines, ?_, ?_, ?_, fun r => predefined_address h, ?_, ?_, hnodup,
    hfree⟩
  · intro i n dest comp jump hi
    obtain ⟨hlegal, w, hword, hw⟩ := word_of_instructionLine h hi
    obtain ⟨w', hcompute, hw'⟩ := Assembler.computeWord_of_legal hlegal n a.symbols
    cases hw.symm.trans hw'
    exact ⟨w, hcompute, hword⟩
  · intro i n operand hi hdigit
    obtain ⟨-, w, hword, hw⟩ := word_of_instructionLine h hi
    rw [Statement.word?, if_pos hdigit, Option.map_eq_some_iff] at hw
    obtain ⟨v, hv, rfl⟩ := hw
    obtain ⟨hne, hall, hvalue, hle⟩ := Text.natUpTo?_eq_some_iff.mp hv
    have hmax : maxConstant = 0x7FFF := rfl
    refine ⟨Vm.isNumeral_iff.mpr ⟨hne, hall⟩, _, hword, ?_⟩
    rw [hvalue, BitVec.toNat_ofNat, Nat.mod_eq_of_lt (by omega)]
  · intro i n t hi hdigit
    obtain ⟨-, w, hword, hw⟩ := word_of_instructionLine h hi
    rw [Statement.word?, if_neg (Bool.eq_false_iff.mp hdigit)] at hw
    exact ⟨w, hword, hw⟩
  · intro n t ht
    have hle : (linesBefore n (instructionLines code)).length ≤ (instructionLines code).length :=
      List.length_filter_le _ _
    refine ⟨_, label_address h ht, ?_⟩
    rw [BitVec.toNat_ofNat, Nat.mod_eq_of_lt (by omega)]
  · intro n t ht hfirst
    -- there are no more variables than instructions, so their addresses do not wrap
    have hle := calc ((linesBefore n (variableUses code)).map Prod.snd).dedup.length
        ≤ ((linesBefore n (variableUses code)).map Prod.snd).length :=
          (List.dedup_sublist _).length_le
      _ = (linesBefore n (variableUses code)).length := List.length_map _
      _ ≤ (variableUses code).length := List.length_filter_le _ _
      _ ≤ (instructionLines code).length := length_variableUses_le code
    refine ⟨_, variable_address h ht hfirst, ?_⟩
    rw [BitVec.toNat_ofNat, Nat.mod_eq_of_lt (by omega)]

/-- A text is accepted if its lines can be read, its labels are new and distinct, its instructions
fit and each of them is legal. -/
theorem exists_assemble {code : Text} {ss : List (Nat × Statement)} (hss : statements code = .ok ss)
    (hnodup : ((labelAddresses 0 ss).map Prod.fst).Nodup)
    (hnew : ∀ t ∈ (labelAddresses 0 ss).map Prod.fst, t ∉ predefined.map Prod.fst)
    (hfits : (instructionsOf ss).length ≤ programSize) (hlegal : ∀ s ∈ ss, s.2.isLegal = true) :
    ∃ a p, Assembler.new.assemble code = (a, .ok p) := by
  have hpass : (Assembler.bindLabels Assembler.new.symbols 0 ss).2 = none := by
    refine (Assembler.bindLabels_eq_none_iff _ _ _ (Nat.zero_le _)).mpr ⟨hnodup, ?_, by omega⟩
    intro t ht
    rw [contains_new, Bool.eq_false_iff, Ne, List.contains_iff_mem]
    exact hnew t ht
  rw [Assembler.assemble_of_none hss hpass]
  obtain ⟨p, hmake, -⟩ := Assembler.makeWords_of_legal (a :=
    ⟨(Assembler.bindLabels Assembler.new.symbols 0 ss).1, 16⟩) hlegal ⟨#[], #[]⟩
  exact ⟨_, p, hmake⟩

/-- A loop with a label that is used before its line, one that is used after it, two variables and
a number with leading zeros. -/
def countdown : Text :=
  "@END\n0;JMP // forward\n(LOOP)\n@count\nM=M-1\n\n@R3\nD=M\n@LOOP\nD;JGT\n" ++
    "@007\n@limit\n@count\n(END)\n@END\n0;JMP\n"

def countdownStatements : List (Nat × Statement) :=
  [(1, .load "END"), (2, .compute "" "0" "JMP"), (3, .label "LOOP"), (4, .load "count"),
    (5, .compute "M" "M-1" ""), (7, .load "R3"), (8, .compute "D" "M" ""), (9, .load "LOOP"),
    (10, .compute "" "D" "JGT"), (11, .load "007"), (12, .load "limit"), (13, .load "count"),
    (14, .label "END"), (15, .load "END"), (16, .compute "" "0" "JMP")]

theorem statements_countdown : statements countdown = .ok countdownStatements := by
  decide +kernel

theorem translates_countdown :
    ∃ a p, Assembler.new.assemble countdown = (a, .ok p) ∧
      p.lines.toList = [1, 2, 4, 5, 7, 8, 9, 10, 11, 12, 13, 15, 16] ∧
      p.words[0]? = some 11#16 ∧ p.words[11]? = some 11#16 ∧ p.words[6]? = some 2#16 ∧
      p.words[8]? = some 7#16 ∧ p.words[9]? = some 17#16 ∧ p.words[10]? = some 16#16 := by
  have hsource : sourceStatements countdown = countdownStatements :=
    (statements_eq_ok statements_countdown).symm
  have hlines : instructionLines countdown = instructionsOf countdownStatements := by
    rw [instructionLines, hsource]
  have huses : variableUses countdown =
      ([(4, "count"), (12, "limit"), (13, "count")] : List (Nat × Text)) := by
    rw [variableUses, hsource]
    decide +kernel
  obtain ⟨a, p, haccepted⟩ := exists_assemble statements_countdown (by decide +kernel)
    (by decide +kernel) (by decide +kernel) (by decide +kernel)
  have ht := translates_of_assemble haccepted
  have huse : ∀ (i n k : Nat) (t : Text),
      (instructionsOf countdownStatements)[i]? = some (n, Statement.load t) →
      t.head?.any Text.isDigit = false → (∃ w, a.address? t = some w ∧ w.toNat = k) →
        p.words[i]? = some (BitVec.ofNat 16 k) := by
    rintro i n k t hi hdigit ⟨w, hw, rfl⟩
    obtain ⟨w', hword, hw'⟩ := ht.symbol i n t (by rw [hlines, hi]) hdigit
    rw [hw] at hw'
    cases hw'
    simpa using hword
  have hvariable : ∀ (n : Nat) (t : Text), (n, t) ∈ variableUses countdown →
      (∀ l ∈ variableUses countdown, l.2 = t → n ≤ l.1) →
        ∃ w, a.address? t = some w ∧
          w.toNat = 16 + ((linesBefore n (variableUses countdown)).map Prod.snd).dedup.length :=
    fun n t hm hfirst => ht.allocated n t hm fun m hm => hfirst (m, t) hm rfl
  rw [huses] at hvariable
  have hlabel := ht.label
  rw [hsource, hlines] at hlabel
  obtain ⟨-, w, hnumber, hw⟩ := ht.number 8 11 "007" (by rw [hlines]; decide) (by decide)
  have hseven : w = 7#16 := BitVec.eq_of_toNat_eq hw
  refine ⟨a, p, haccepted, ?_, ?_, ?_, ?_, ?_, ?_, ?_⟩
  · rw [ht.lines, hlines]
    decide
  · exact huse 0 1 11 "END" (by decide) (by decide) (hlabel 14 "END" (by decide))
  · exact huse 11 15 11 "END" (by decide) (by decide) (hlabel 14 "END" (by decide))
  · exact huse 6 9 2 "LOOP" (by decide) (by decide) (hlabel 3 "LOOP" (by decide))
  · rw [hnumber, hseven]
  · exact huse 9 12 17 "limit" (by decide) (by decide)
      (hvariable 12 "limit" (by decide) (by decide))
  · exact huse 10 13 16 "count" (by decide) (by decide)
      (hvariable 4 "count" (by decide) (by decide))

end HackStack.Assembly
