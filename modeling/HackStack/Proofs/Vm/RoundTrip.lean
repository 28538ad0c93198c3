import HackStack.Proofs.Text.Lines
import HackStack.Proofs.Vm.Grammar
import HackStack.Vm.Source

/-!
# Writing and reading source files

`Reads` says which commands stand on lines that can be read, and `parse` computes it
(`parse_eq_ok_iff`). A source that was read can be written again, one command a line, and reading
this canonical text gives the same commands (`parse_canonical`). No line gets too long by this: the
canonical text of a command is no longer than the line that it was read from.
-/

namespace HackStack.Vm

/-! ## Commands on lines -/

/-- The commands on lines that are short enough, in order. -/
inductive Reads : List Text → List Command → Prop where
  | nil : Reads [] []
  | blank {line : Text} {lines : List Text} {cs : List Command} : line.length < maxLine →
      parseCommand (dropReturn line) 1 = .ok none → Reads lines cs → Reads (line :: lines) cs
  | command {line : Text} {lines : List Text} {c : Command} {cs : List Command} :
      line.length < maxLine → parseCommand (dropReturn line) 1 = .ok (some c) → Reads lines cs →
      Reads (line :: lines) (c :: cs)

/-- Lines that can be read are passed over, whatever follows them. -/
theorem parseFrom_append {lines : List Text} {cs : List Command} (h : Reads lines cs)
    (ending : Option Text) (n : Nat) (found : Array Command) (rest : List Text) :
    parseFrom ending n found (lines ++ rest) =
      parseFrom ending (n + lines.length) (found ++ cs.toArray) rest := by
  induction h generalizing n found with
  | nil => simp
  | @blank line lines cs hlength hline hrest ih =>
      rw [List.cons_append, parseFrom, if_neg (Nat.not_le.mpr hlength), parseCommand_ok_number hline]
      dsimp only
      rw [ih, List.length_cons, Nat.add_assoc, Nat.add_comm 1]
  | @command line lines c cs hlength hline hrest ih =>
      rw [List.cons_append, parseFrom, if_neg (Nat.not_le.mpr hlength), parseCommand_ok_number hline]
      dsimp only
      rw [ih, List.length_cons, Nat.add_assoc, Nat.add_comm 1]
      simp

theorem parseFrom_of_reads {lines : List Text} {cs : List Command} (h : Reads lines cs) (n : Nat)
    (found : Array Command) : parseFrom none n found lines = .ok (found ++ cs.toArray) := by
  have hall := parseFrom_append h none n found []
  rwa [List.append_nil] at hall

theorem reads_of_parseFrom {lines : List Text} {n : Nat} {found out : Array Command}
    (h : parseFrom none n found lines = .ok out) :
    ∃ cs, Reads lines cs ∧ out = found ++ cs.toArray := by
  induction lines generalizing n found with
  | nil =>
      cases h
      exact ⟨[], .nil, by simp⟩
  | cons line lines ih =>
      rw [parseFrom] at h
      by_cases hlong : maxLine ≤ line.length
      · rw [if_pos hlong] at h
        cases h
      rw [if_neg hlong] at h
      have hlength := Nat.not_le.mp hlong
      match hline : parseCommand (dropReturn line) n with
      | .error e =>
          rw [hline] at h
          cases h
      | .ok none =>
          rw [hline] at h
          obtain ⟨cs, hcs, hout⟩ := ih h
          exact ⟨cs, .blank hlength (parseCommand_ok_number hline 1) hcs, hout⟩
      | .ok (some c) =>
          rw [hline] at h
          obtain ⟨cs, hcs, hout⟩ := ih h
          refine ⟨c :: cs, .command hlength (parseCommand_ok_number hline 1) hcs, ?_⟩
          rw [hout]
          simp

theorem parse_eq_ok_iff {src : Text} {cs : List Command} :
    parse src = .ok cs ↔ Reads (rawLines src) cs := by
  constructor
  · intro h
    obtain ⟨out, hout, rfl⟩ := exists_of_map_eq_ok h
    obtain ⟨cs, hcs, rfl⟩ := reads_of_parseFrom hout
    simpa using hcs
  · intro h
    rw [parse, parseInput, parseFrom_of_reads h]
    simp [Except.map]

theorem Reads.command_line {lines : List Text} {cs : List Command} (h : Reads lines cs) :
    ∀ c ∈ cs, ∃ line, line.length < maxLine ∧
      parseCommand (dropReturn line) 1 = .ok (some c) := by
  induction h with
  | nil => exact fun c hc => absurd hc List.not_mem_nil
  | blank hlength hline hrest ih => exact ih
  | command hlength hline hrest ih =>
      exact List.forall_mem_cons.mpr ⟨⟨_, hlength, hline⟩, ih⟩

/-! ## The canonical text of a command on a line -/

theorem spells_ofInt {n : Int} (h : 0 ≤ n) : Spells (Text.ofInt n) n := by
  obtain ⟨m, rfl⟩ := Int.eq_ofNat_of_zero_le h
  rw [Text.ofInt_natCast]
  exact ⟨Text.ofNat_ne_nil m, Text.all_isDigit_ofNat m, congrArg _ (Text.numeralValue_ofNat m)⟩

theorem Command.readFrom_words {c : Command} (h : c.isValid = true) : c.ReadFrom c.words := by
  unfold ReadFrom words
  cases hn : c.number? with
  | none => simp
  | some n => exact ⟨Text.ofInt n, rfl, spells_ofInt (number_nonneg h hn)⟩

/-- The canonical text consists of visible characters other than slashes, and blanks. -/
theorem Command.text_bytes {c : Command} (h : c.isValid = true) {b : UInt8} (hb : b ∈ c.text) :
    Text.isVisible b = true ∧ b ≠ 0x2F ∨ b = 0x20 := by
  rw [text_eq_joinWith] at hb
  rcases Text.mem_joinWith hb with hblank | ⟨w, hw, hb⟩
  · exact Or.inr (List.mem_singleton.mp hblank)
  · exact Or.inl ((isPlain_words h w hw).2 b hb)

theorem Command.notMem_text {c : Command} (h : c.isValid = true) {b : UInt8}
    (hb : ¬(Text.isVisible b = true ∧ b ≠ 0x2F ∨ b = 0x20)) : b ∉ c.text :=
  fun hmem => hb (text_bytes h hmem)

theorem parseCommand_text {c : Command} (h : c.isValid = true) (number : Int) :
    parseCommand c.text number = .ok (some c) := by
  have hcode : c.text.dropComment = c.text :=
    Text.dropComment_of_notMem (Command.notMem_text h (by decide))
  rw [parseCommand_eq_some_iff, hcode, Text.words_eq_iff.mpr (Command.splitsInto_text h)]
  exact ⟨h, Command.readFrom_words h⟩

theorem dropReturn_text {c : Command} (h : c.isValid = true) : dropReturn c.text = c.text := by
  rw [dropReturn, if_neg]
  intro hlast
  exact Command.notMem_text h (by decide) (List.mem_of_getLast? hlast)

/-! ## Lengths -/

theorem length_dropComment_le (line : Text) : line.dropComment.length ≤ line.length := by
  rcases (Text.isCode_dropComment line).1 with hall | ⟨comment, hline⟩
  · exact Nat.le_of_eq (congrArg List.length hall)
  · conv => rhs; rw [hline]
    rw [List.append_assoc, List.length_append]
    exact Nat.le_add_right _ _

theorem length_dropReturn_le (line : Text) : (dropReturn line).length ≤ line.length := by
  rw [dropReturn]
  split
  · rw [List.length_dropLast]
    exact Nat.sub_le _ _
  · exact Nat.le_refl _

theorem length_ofInt_le {w : Text} {n : Int} (h : Spells w n) :
    (Text.ofInt n).length ≤ w.length := by
  obtain ⟨hne, hdigits, rfl⟩ := h
  rw [Text.ofInt_natCast]
  exact Text.length_ofNat_numeralValue_le hne hdigits

/-- A command's own words are no longer than any others that spell it. -/
theorem Command.length_words_le {c : Command} {ws : List Text} (h : c.ReadFrom ws) :
    c.words.length = ws.length ∧ c.words.flatten.length ≤ ws.flatten.length := by
  unfold ReadFrom at h
  cases hn : c.number? with
  | none =>
      rw [hn] at h
      subst h
      simp [words, hn]
  | some n =>
      rw [hn] at h
      obtain ⟨w, rfl, hw⟩ := h
      have hle := length_ofInt_le hw
      simpa [words, hn] using hle

theorem Command.length_text (c : Command) :
    c.text.length + 1 = c.words.flatten.length + c.words.length := by
  rw [text_eq_joinWith]
  cases hwords : c.words with
  | nil => cases c <;> cases hwords
  | cons w ws => exact Text.length_joinWith_blank w ws

/-- **Canonical text is shortest** among the lines that hold a command. -/
theorem length_text_le {line : Text} {number : Int} {c : Command}
    (h : parseCommand line number = .ok (some c)) : c.text.length ≤ line.length := by
  obtain ⟨-, hread⟩ := parseCommand_eq_some_iff.mp h
  obtain ⟨hcount, hsum⟩ := Command.length_words_le hread
  -- the line has at least these words with white space between them
  have hline := (Text.words_eq_iff.mp (rfl : line.dropComment.words = _)).length_le
  have htext := c.length_text
  have hdrop := length_dropComment_le line
  omega

/-! ## Whole sources -/

def canonical (cs : List Command) : Text := Text.ofLines (cs.map Command.text)

theorem rawLines_ofLines {lines : List Text} (h : ∀ line ∈ lines, Text.lineFeed ∉ line) :
    rawLines (Text.ofLines lines) = lines := by
  rw [rawLines, Text.splitOn_ofLines h]
  simp

theorem rawLines_joinWith {lines : List Text} (h : ∀ line ∈ lines, Text.lineFeed ∉ line)
    (hne : ∀ line ∈ lines, line ≠ []) :
    rawLines (Text.joinWith [Text.lineFeed] lines) = lines := by
  by_cases hlines : lines = []
  · subst hlines
    rfl
  · rw [rawLines, Text.splitOn_joinWith h hlines]
    refine if_neg fun hlast => ?_
    exact hne [] (List.mem_of_getLast? hlast) rfl

/-- Commands that fit on lines in their canonical form are read from it. -/
theorem reads_texts {cs : List Command}
    (h : ∀ c ∈ cs, c.isValid = true ∧ c.text.length < maxLine) :
    Reads (cs.map Command.text) cs := by
  induction cs with
  | nil => exact .nil
  | cons c cs ih =>
      obtain ⟨⟨hvalid, hlength⟩, hcs⟩ := List.forall_mem_cons.mp h
      refine .command hlength ?_ (ih hcs)
      rw [dropReturn_text hvalid]
      exact parseCommand_text hvalid 1

/-- What was read from a source fits on lines in its canonical form. -/
theorem fits_of_parse {src : Text} {cs : List Command} (h : parse src = .ok cs) :
    ∀ c ∈ cs, c.isValid = true ∧ c.text.length < maxLine := by
  intro c hc
  obtain ⟨line, hlength, hline⟩ := (parse_eq_ok_iff.mp h).command_line c hc
  refine ⟨isValid_of_parseCommand hline, ?_⟩
  calc c.text.length ≤ (dropReturn line).length := length_text_le hline
    _ ≤ line.length := length_dropReturn_le line
    _ < maxLine := hlength

theorem texts_plain {cs : List Command} (h : ∀ c ∈ cs, c.isValid = true) :
    ∀ line ∈ cs.map Command.text, Text.lineFeed ∉ line ∧ line ≠ [] := by
  intro line hline
  obtain ⟨c, hc, rfl⟩ := List.mem_map.mp hline
  refine ⟨Command.notMem_text (h c hc) (by decide), ?_⟩
  -- an empty line holds no command, but this one holds `c`
  intro hempty
  have hread := parseCommand_text (h c hc) 1
  rw [hempty] at hread
  cases hread

/-- **Canonical text is read back.** What was read from a source and is written again, with a line
feed after each command or between neighbours, is read as the same commands; so canonical text is
the canonical text of what is read from it. -/
theorem parse_canonical {src : Text} {cs : List Command} (h : parse src = .ok cs) :
    parse (canonical cs) = .ok cs ∧
      parse (Text.joinWith [Text.lineFeed] (cs.map Command.text)) = .ok cs ∧
      (parse (canonical cs)).map canonical = .ok (canonical cs) := by
  have hfits := fits_of_parse h
  have hplain := texts_plain fun c hc => (hfits c hc).1
  have hparse : parse (canonical cs) = .ok cs := by
    rw [parse_eq_ok_iff, canonical, rawLines_ofLines fun line hline => (hplain line hline).1]
    exact reads_texts hfits
  refine ⟨hparse, ?_, ?_⟩
  · rw [parse_eq_ok_iff, rawLines_joinWith (fun line hline => (hplain line hline).1)
      fun line hline => (hplain line hline).2]
    exact reads_texts hfits
  · rw [hparse]
    rfl

/-- A label that leaves no byte of its line unused. -/
def widestLabel : Command := .label (List.replicate 65529 0x61)

theorem widestLabel_isValid : widestLabel.isValid = true := by
  show (isNameStart 0x61 && (List.replicate 65528 0x61).all isNamePart) = true
  rw [List.all_replicate]
  decide

theorem length_widestLabel : widestLabel.text.length = 65535 := by
  rw [widestLabel, Command.text, List.length_append, List.length_replicate]
  rfl

/-- The source has a comment, leading zeros, a carriage return and a line of the greatest length. -/
theorem parse_canonical_widestLabel :
    parse (Text.joinWith [Text.lineFeed] ["push constant 0007 // seven\r", widestLabel.text]) =
        .ok [.push .constant 7, widestLabel] ∧
      parse (canonical [.push .constant 7, widestLabel]) = .ok [.push .constant 7, widestLabel] := by
  have hlength : widestLabel.text.length < maxLine := by
    rw [length_widestLabel]
    decide
  have hvalid : ∀ c ∈ [widestLabel], c.isValid = true :=
    List.forall_mem_singleton.mpr widestLabel_isValid
  have hlabel := texts_plain hvalid widestLabel.text List.mem_cons_self
  have hread : parse (Text.joinWith [Text.lineFeed]
      ["push constant 0007 // seven\r", widestLabel.text]) =
        .ok [.push .constant 7, widestLabel] := by
    rw [parse_eq_ok_iff, rawLines_joinWith]
    · refine .command (by decide) (by decide +kernel) (.command hlength ?_ .nil)
      rw [dropReturn_text widestLabel_isValid]
      exact parseCommand_text widestLabel_isValid 1
    · exact List.forall_mem_cons.mpr ⟨by decide, List.forall_mem_singleton.mpr hlabel.1⟩
    · exact List.forall_mem_cons.mpr ⟨by decide, List.forall_mem_singleton.mpr hlabel.2⟩
  exact ⟨hread, (parse_canonical hread).1⟩

end HackStack.Vm
