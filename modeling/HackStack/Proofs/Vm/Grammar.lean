import HackStack.Proofs.Text.Comment
import HackStack.Proofs.Vm.Accepted
import HackStack.Proofs.Vm.Name

/-!
# The grammar of source lines

The rules of the language are stated on bytes: which characters a name may have, which numbers a
command, and how the words of a line spell a command. `parseCommand` accepts exactly the lines of
this grammar (`parseCommand_accepts_grammar`): a line is refused only if no valid command is spelled
by its words, and leading zeros, comments and white space of any kind make no difference.
-/

namespace HackStack.Vm

/-! ## The rules -/

/-- The indices that a command may have for a segment. -/
def IsIndex (s : Segment) (i : Int) : Prop :=
  0 ≤ i ∧ i ≤ 32767 ∧ (s = .pointer → i ≤ 1) ∧ (s = .temp → i ≤ 7)

/-- The commands of the language. -/
def Command.Valid : Command → Prop
  | arithmetic _ | ret => True
  | push s i => IsIndex s i
  | pop s i => s ≠ .constant ∧ IsIndex s i
  | label name | goto name | ifGoto name => IsName name
  | call name n | function name n => (IsName name ∧ ¬IsStaticForm name) ∧ 0 ≤ n ∧ n ≤ 32767

/-- The words of a line before the first `//`. -/
def HoldsWords (line : Text) (ws : List Text) : Prop :=
  ∃ code, Text.IsCode line code ∧ Text.SplitsInto code ws

/-- The words are those of a command's canonical text, except that its number, the last of them, may
be any numeral with that value. -/
def Command.SpelledBy (c : Command) (ws : List Text) : Prop :=
  ∃ canonical, Text.SplitsInto c.text canonical ∧
    match c.number? with
    | none => ws = canonical
    | some n => ∃ before numeral, canonical = before ++ [Text.ofInt n] ∧
        ws = before ++ [numeral] ∧ IsNumeral numeral ∧ (Text.numeralValue numeral : Int) = n

/-- The words of a line spell a command. -/
def Command.StandsOn (c : Command) (line : Text) : Prop :=
  ∃ ws, HoldsWords line ws ∧ c.SpelledBy ws

theorem holdsWords_iff {line : Text} {ws : List Text} :
    HoldsWords line ws ↔ line.dropComment.words = ws := by
  constructor
  · rintro ⟨code, hcode, hws⟩
    rw [← Text.eq_dropComment_of_isCode hcode, Text.words_eq_iff.mpr hws]
  · intro h
    exact ⟨line.dropComment, Text.isCode_dropComment line, Text.words_eq_iff.mp h⟩

theorem isIndex_iff {s : Segment} {i : Int} : s.hasIndex i = true ↔ IsIndex s i := by
  rw [Segment.hasIndex, Bool.and_eq_true, decide_eq_true_eq, decide_eq_true_eq, IsIndex]
  cases s <;> simp [Segment.lastIndex, largestIndex] <;> omega

theorem isFunctionName_iff {t : Text} :
    isFunctionName t = true ↔ IsName t ∧ ¬IsStaticForm t := by
  rw [isFunctionName, Bool.and_eq_true, Bool.not_eq_true', ← Bool.not_eq_true, isIdentifier_iff,
    hasStaticForm_iff]

theorem Command.isValid_iff {c : Command} : c.isValid = true ↔ c.Valid := by
  have hcount : ∀ n : Int, isCount n = true ↔ 0 ≤ n ∧ n ≤ 32767 := by
    intro n
    rw [isCount, Bool.and_eq_true, decide_eq_true_eq, decide_eq_true_eq]
    rfl
  cases c with
  | arithmetic op => exact iff_of_true rfl trivial
  | ret => exact iff_of_true rfl trivial
  | push s i => exact isIndex_iff
  | pop s i => rw [isValid, Valid, Bool.and_eq_true, bne_iff_ne, isIndex_iff]
  | label name => exact isIdentifier_iff
  | goto name => exact isIdentifier_iff
  | ifGoto name => exact isIdentifier_iff
  | call name n => rw [isValid, Valid, Bool.and_eq_true, isFunctionName_iff, hcount]
  | function name n => rw [isValid, Valid, Bool.and_eq_true, isFunctionName_iff, hcount]

/-! ## Words of the canonical text -/

/-- A word without white space and slashes. -/
def IsPlain (w : Text) : Prop :=
  w ≠ [] ∧ ∀ b ∈ w, Text.isVisible b = true ∧ b ≠ 0x2F

theorem isPlain_of_isIdentifier {t : Text} (h : isIdentifier t = true) : IsPlain t := by
  have hbyte : ∀ b, b ∈ nameStarts ∨ b ∈ digits → Text.isVisible b = true ∧ b ≠ 0x2F := by
    intro b hb
    have hall : ∀ a ∈ nameStarts ++ digits, Text.isVisible a = true ∧ a ≠ 0x2F := by
      decide +kernel
    exact hall b (List.mem_append.mpr hb)
  obtain ⟨b, rest, rfl, hb, hrest⟩ := isIdentifier_iff.mp h
  refine ⟨List.cons_ne_nil b rest, ?_⟩
  intro a ha
  rcases List.mem_cons.mp ha with rfl | ha
  · exact hbyte a (Or.inl hb)
  · exact hbyte a (hrest a ha)

theorem isPlain_ofInt {n : Int} (h : 0 ≤ n) : IsPlain (Text.ofInt n) := by
  obtain ⟨m, rfl⟩ := Int.eq_ofNat_of_zero_le h
  rw [Text.ofInt_natCast]
  obtain ⟨hne, hdigits⟩ := isNumeral_iff.mpr ⟨Text.ofNat_ne_nil m, Text.all_isDigit_ofNat m⟩
  have hall : ∀ a ∈ digits, Text.isVisible a = true ∧ a ≠ 0x2F := by decide +kernel
  exact ⟨hne, fun b hb => hall b (hdigits b hb)⟩

def Command.words (c : Command) : List Text := c.stem ++ (c.number?.map Text.ofInt).toList

theorem joinWith_pair (a b : Text) : Text.joinWith " " [a, b] = a ++ " " ++ b := by
  simp [Text.joinWith, List.intercalate]

theorem joinWith_triple (a b c : Text) :
    Text.joinWith " " [a, b, c] = a ++ " " ++ b ++ " " ++ c := by
  simp [Text.joinWith, List.intercalate]

/-- The canonical text is the words with a blank between neighbours. -/
theorem Command.text_eq_joinWith (c : Command) : c.text = Text.joinWith " " c.words := by
  cases c with
  | arithmetic op => simp [text, words, stem, number?, Text.joinWith, List.intercalate]
  | push s i => exact (joinWith_triple _ _ _).symm
  | pop s i => exact (joinWith_triple _ _ _).symm
  | label name => exact (joinWith_pair "label" name).symm
  | goto name => exact (joinWith_pair "goto" name).symm
  | ifGoto name => exact (joinWith_pair "if-goto" name).symm
  | call name n => exact (joinWith_triple _ _ _).symm
  | function name n => exact (joinWith_triple _ _ _).symm
  | ret => rfl

def keywords : List Text :=
  ["push", "pop", "label", "goto", "if-goto", "call", "function", "return"]

theorem isPlain_names :
    (∀ w ∈ keywords, IsPlain w) ∧ (∀ op ∈ Op.all, IsPlain op.name) ∧
      ∀ s ∈ Segment.all, IsPlain s.name := by
  unfold IsPlain
  decide +kernel

theorem Command.isPlain_stem {c : Command} (h : c.isValid = true) : ∀ w ∈ c.stem, IsPlain w := by
  obtain ⟨hkeywords, hops, hsegments⟩ := isPlain_names
  have hpair : ∀ keyword ∈ keywords, ∀ name, IsPlain name → ∀ w ∈ [keyword, name], IsPlain w := by
    intro keyword hkeyword name hname w hw
    rcases List.mem_cons.mp hw with rfl | hw
    · exact hkeywords w hkeyword
    · rw [List.mem_singleton.mp hw]
      exact hname
  have hsegment : ∀ s : Segment, IsPlain s.name := fun s => hsegments s (by cases s <;> decide)
  have hfunction : ∀ {name : Text} {n : Int}, (isFunctionName name && isCount n) = true →
      IsPlain name := by
    intro name n h
    rw [isFunctionName, Bool.and_eq_true, Bool.and_eq_true] at h
    exact isPlain_of_isIdentifier h.1.1
  cases c with
  | arithmetic op =>
      intro w hw
      rw [List.mem_singleton.mp hw]
      exact hops op (by cases op <;> decide)
  | push s i => exact hpair "push" (by decide) _ (hsegment s)
  | pop s i => exact hpair "pop" (by decide) _ (hsegment s)
  | label name => exact hpair "label" (by decide) _ (isPlain_of_isIdentifier h)
  | goto name => exact hpair "goto" (by decide) _ (isPlain_of_isIdentifier h)
  | ifGoto name => exact hpair "if-goto" (by decide) _ (isPlain_of_isIdentifier h)
  | call name n => exact hpair "call" (by decide) _ (hfunction h)
  | function name n => exact hpair "function" (by decide) _ (hfunction h)
  | ret =>
      intro w hw
      rw [List.mem_singleton.mp hw]
      exact hkeywords "return" (by decide)

theorem Command.isPlain_words {c : Command} (h : c.isValid = true) : ∀ w ∈ c.words, IsPlain w := by
  intro w hw
  rcases List.mem_append.mp hw with hw | hw
  · exact isPlain_stem h w hw
  · obtain ⟨n, hn, rfl⟩ := Option.map_eq_some_iff.mp (Option.mem_toList.mp hw)
    exact isPlain_ofInt (number_nonneg h hn)

theorem Command.splitsInto_text {c : Command} (h : c.isValid = true) :
    Text.SplitsInto c.text c.words := by
  rw [text_eq_joinWith]
  refine Text.splitsInto_joinWith fun w hw => ?_
  obtain ⟨hne, hbytes⟩ := isPlain_words h w hw
  exact ⟨hne, fun b hb => (hbytes b hb).1⟩

/-! ## Spellings -/

theorem spells_iff {w : Text} {n : Int} :
    Spells w n ↔ IsNumeral w ∧ (Text.numeralValue w : Int) = n := by
  rw [Spells, isNumeral_iff, and_assoc]

/-- The words of the canonical text are known, so they need not be mentioned. -/
theorem Command.spelledBy_iff {c : Command} (h : c.isValid = true) {ws : List Text} :
    c.SpelledBy ws ↔ c.ReadFrom ws := by
  -- a text has one list of words only
  have hcanonical : ∀ {canonical}, Text.SplitsInto c.text canonical → canonical = c.words := by
    intro canonical hsplit
    rw [← Text.words_eq_iff.mpr hsplit, Text.words_eq_iff.mpr (splitsInto_text h)]
  unfold SpelledBy ReadFrom
  cases hn : c.number? with
  | none =>
      have hwords : c.words = c.stem := by simp [words, hn]
      constructor
      · rintro ⟨canonical, hsplit, rfl⟩
        exact (hcanonical hsplit).trans hwords
      · intro hws
        exact ⟨c.words, splitsInto_text h, hws.trans hwords.symm⟩
  | some n =>
      have hwords : c.words = c.stem ++ [Text.ofInt n] := by simp [words, hn]
      constructor
      · rintro ⟨canonical, hsplit, before, numeral, rfl, rfl, hnumeral⟩
        have hstem := List.append_cancel_right ((hcanonical hsplit).trans hwords)
        exact ⟨numeral, by rw [hstem], spells_iff.mpr hnumeral⟩
      · rintro ⟨numeral, rfl, hnumeral⟩
        exact ⟨c.words, splitsInto_text h, c.stem, numeral, hwords, rfl, spells_iff.mp hnumeral⟩

/-- White space around a line makes no difference. -/
theorem parseCommand_trim (line : Text) (number : Int) :
    parseCommand line.trim number = parseCommand line number := by
  obtain ⟨hwords, htrim⟩ := Text.dropComment_trim line
  unfold parseCommand
  dsimp only
  rw [hwords, htrim]

/-- **A line is read by the grammar.** It holds a command exactly if the command is valid and the
words of the line spell it, it holds nothing exactly if it has no words, and in every other case the
refusal carries the line's number and what stands before the comment without its margins. -/
theorem parseCommand_accepts_grammar (line : Text) (number : Int) :
    (∀ c, parseCommand line number = .ok (some c) ↔ c.Valid ∧ c.StandsOn line) ∧
    (parseCommand line number = .ok none ↔ HoldsWords line []) ∧
    ((¬∃ c : Command, c.Valid ∧ c.StandsOn line) → ¬HoldsWords line [] →
      ∃ code text cause, Text.IsCode line code ∧ Text.IsTrimmed code text ∧
        parseCommand line number = .error ⟨number, text, cause⟩) := by
  have hsome : ∀ c, parseCommand line number = .ok (some c) ↔ c.Valid ∧ c.StandsOn line := by
    intro c
    rw [parseCommand_eq_some_iff, ← Command.isValid_iff]
    refine and_congr_right fun hvalid => ?_
    constructor
    · intro hread
      exact ⟨_, holdsWords_iff.mpr rfl, (Command.spelledBy_iff hvalid).mpr hread⟩
    · rintro ⟨ws, hws, hspelled⟩
      rw [holdsWords_iff.mp hws]
      exact (Command.spelledBy_iff hvalid).mp hspelled
  have hnone : parseCommand line number = .ok none ↔ HoldsWords line [] := by
    rw [parseCommand_eq_none_iff, holdsWords_iff]
  refine ⟨hsome, hnone, ?_⟩
  intro hinvalid hwords
  match hread : parseCommand line number with
  | .ok none => exact absurd (hnone.mp hread) hwords
  | .ok (some c) => exact absurd ⟨c, (hsome c).mp hread⟩ hinvalid
  | .error ⟨errorLine, text, cause⟩ =>
      obtain ⟨rfl, rfl⟩ := line_text_of_parseCommand hread
      exact ⟨line.dropComment, _, cause, Text.isCode_dropComment line, Text.isTrimmed_trim _, rfl⟩

/-- A line with wide blanks, many zeros and a comment inside its last word, and a refused one. -/
theorem parseCommand_accepts_grammar_zeros :
    (Command.push .temp 7).StandsOn "\u2003push\u00A0temp\t00000000000000000000007//8" ∧
      ∃ code text cause, Text.IsCode "\tpop constant 1 / // " code ∧ Text.IsTrimmed code text ∧
        parseCommand "\tpop constant 1 / // " 9 = .error ⟨9, text, cause⟩ := by
  constructor
  · have hread : parseCommand "\u2003push\u00A0temp\t00000000000000000000007//8" 1 =
        .ok (some (.push .temp 7)) := by decide +kernel
    exact (((parseCommand_accepts_grammar _ 1).1 _).mp hread).2
  · obtain ⟨hsome, hnone, hrefused⟩ := parseCommand_accepts_grammar "\tpop constant 1 / // " 9
    have hread : parseCommand "\tpop constant 1 / // " 9 =
        .error ⟨9, "pop constant 1 /", .segmentAndIndex "pop"⟩ := by decide +kernel
    apply hrefused
    · rintro ⟨c, hc⟩
      have hcommand := (hsome c).mpr hc
      rw [hread] at hcommand
      cases hcommand
    · intro hwords
      have hblank := hnone.mpr hwords
      rw [hread] at hblank
      cases hblank

end HackStack.Vm
