import Mathlib.Order.Nat
import HackStack.Proofs.Vm.RoundTrip

/-!
# Source files line by line

`parse` reads the lines of a source one after another and stops at the first fault: a line that is
refused (`Rejects`) or one that is too long (`TooLong`), whichever comes first. If there is neither,
the result is the command of each line that has one, in order. So the result changes neither if
lines end in carriage return and line feed (`parse_withReturns`) nor, up to the number of a refused
line, if lines with nothing but a comment are inserted (`parse_inserts`).
-/

namespace HackStack.Vm

/-! ## Lines and faults -/

/-- The lines that are read are those of the source. -/
theorem rawLines_of_hasLines {src : Text} {lines : List Text} (h : src.HasLines lines) :
    rawLines src = lines := by
  obtain ⟨hfeeds, rfl | ⟨ended, last, rfl, hlast, rfl⟩⟩ := h
  · exact rawLines_ofLines hfeeds
  · rw [rawLines, Text.ofLines_append, Text.splitOn_joinWith hfeeds (by simp)]
    refine if_neg fun hempty => ?_
    rw [List.getLast?_concat] at hempty
    exact hlast (Option.some.inj hempty)

theorem hasLines_rawLines (src : Text) : src.HasLines (rawLines src) := by
  obtain ⟨lines, hlines⟩ := src.exists_hasLines
  rwa [rawLines_of_hasLines hlines]

/-- The line with index `k`, which has the number `k + 1`, is refused. -/
def Rejects (lines : List Text) (k : Nat) : Prop :=
  ∃ line e, lines[k]? = some line ∧ parseCommand (dropReturn line) (k + 1 : Nat) = .error e

/-- The line with index `k` is too long to be read. -/
def TooLong (lines : List Text) (k : Nat) : Prop :=
  ∃ line, lines[k]? = some line ∧ maxLine ≤ line.length

def commandOn? (line : Text) : Option Command :=
  match parseCommand (dropReturn line) 1 with
  | .ok found => found
  | .error _ => none

/-- Lines without a fault are read, each for itself. -/
theorem reads_filterMap {lines : List Text}
    (h : ∀ line ∈ lines, line.length < maxLine ∧
      ∃ found, parseCommand (dropReturn line) 1 = .ok found) :
    Reads lines (lines.filterMap commandOn?) := by
  induction lines with
  | nil => exact .nil
  | cons line lines ih =>
      obtain ⟨⟨hlength, found, hline⟩, hlines⟩ := List.forall_mem_cons.mp h
      have hon : commandOn? line = found := by rw [commandOn?, hline]
      cases found with
      | none =>
          rw [List.filterMap_cons_none hon]
          exact .blank hlength hline (ih hlines)
      | some c =>
          rw [List.filterMap_cons_some hon]
          exact .command hlength hline (ih hlines)

/-- The lines before an index can be read if none of them has a fault. -/
theorem reads_take {lines : List Text} {k : Nat}
    (h : ∀ j < k, ¬Rejects lines j ∧ ¬TooLong lines j) :
    Reads (lines.take k) ((lines.take k).filterMap commandOn?) := by
  apply reads_filterMap
  intro line hline
  obtain ⟨j, hj⟩ := List.mem_iff_getElem?.mp hline
  rw [List.getElem?_take] at hj
  split at hj
  · next hjk =>
      obtain ⟨haccepted, hshort⟩ := h j hjk
      refine ⟨Nat.not_le.mp fun hlong => hshort ⟨line, hj, hlong⟩, ?_⟩
      match hparse : parseCommand (dropReturn line) (j + 1 : Nat) with
      | .ok found => exact ⟨found, parseCommand_ok_number hparse 1⟩
      | .error e => exact absurd ⟨line, e, hj, hparse⟩ haccepted
  · cases hj

/-- What is found at the first line that has a fault. -/
theorem parseFrom_at {lines : List Text} {k : Nat} {line : Text} (hk : lines[k]? = some line)
    (h : ∀ j < k, ¬Rejects lines j ∧ ¬TooLong lines j) :
    ∃ found rest, parseFrom none 1 #[] lines = parseFrom none (k + 1) found (line :: rest) := by
  obtain ⟨hlt, rfl⟩ := List.getElem?_eq_some_iff.mp hk
  have hsplit := parseFrom_append (reads_take h) none 1 #[] (lines.drop k)
  rw [List.take_append_drop, List.length_take_of_le (Nat.le_of_lt hlt), Nat.add_comm 1 k,
    List.drop_eq_getElem_cons hlt] at hsplit
  exact ⟨_, _, hsplit⟩

theorem parse_eq_error {src : Text} {e : SourceError}
    (h : parseFrom none 1 #[] (rawLines src) = .error e) : parse src = .error e := by
  rw [parse, parseInput, h]
  rfl

section

variable {src : Text}

theorem parse_of_no_fault (hrejects : ∀ k, ¬Rejects (rawLines src) k)
    (hlong : ∀ k, ¬TooLong (rawLines src) k) :
    parse src = .ok ((rawLines src).filterMap commandOn?) := by
  rw [parse_eq_ok_iff]
  have hreads := reads_take (k := (rawLines src).length) fun j _ => ⟨hrejects j, hlong j⟩
  rwa [List.take_length] at hreads

/-- A line that is refused before any line is too long. -/
theorem parse_of_rejects {b : Nat} {line : Text} {e : LineError}
    (hfirst : IsLeast {k | Rejects (rawLines src) k} b)
    (hlong : ∀ t, IsLeast {k | TooLong (rawLines src) k} t → b < t)
    (hline : (rawLines src)[b]? = some line)
    (herror : parseCommand (dropReturn line) (b + 1 : Nat) = .error e) :
    parse src = .error (.refused e) := by
  classical
  have hshort : ∀ j ≤ b, ¬TooLong (rawLines src) j := by
    intro j hj htoo
    have hlt := hlong _ (Nat.isLeast_find ⟨j, htoo⟩)
    have hle := Nat.find_min' ⟨j, htoo⟩ htoo
    omega
  obtain ⟨found, rest, hparse⟩ := parseFrom_at hline fun j hj =>
    ⟨fun hrefused => Nat.not_le.mpr hj (hfirst.2 hrefused), hshort j (Nat.le_of_lt hj)⟩
  apply parse_eq_error
  rw [hparse, parseFrom, if_neg fun htoo => hshort b (Nat.le_refl b) ⟨line, hline, htoo⟩, herror]

/-- A line that is too long, and none before it is refused. -/
theorem parse_of_tooLong {t : Nat} (hfirst : IsLeast {k | TooLong (rawLines src) k} t)
    (hrejects : ∀ b, IsLeast {k | Rejects (rawLines src) k} b → t ≤ b) :
    parse src = .error .lineTooLong := by
  classical
  obtain ⟨⟨line, hline, hlong⟩, hbefore⟩ := hfirst
  have haccepted : ∀ j < t, ¬Rejects (rawLines src) j := by
    intro j hj hrefused
    have hle := hrejects _ (Nat.isLeast_find ⟨j, hrefused⟩)
    have hmin := Nat.find_min' ⟨j, hrefused⟩ hrefused
    omega
  obtain ⟨found, rest, hparse⟩ := parseFrom_at hline fun j hj =>
    ⟨haccepted j hj, fun htoo => Nat.not_le.mpr hj (hbefore htoo)⟩
  apply parse_eq_error
  rw [hparse, parseFrom, if_pos hlong]

end

/-! ## Carriage returns -/

/-- A carriage return at the end of a line is white space. -/
theorem parseCommand_append_return (line : Text) (number : Int) :
    parseCommand (line ++ [Text.carriageReturn]) number = parseCommand line number := by
  have hblank : Text.IsBlank [Text.carriageReturn] := Text.isBlank_ofChar (c := '\r') (by decide)
  have htrim : (line ++ [Text.carriageReturn]).trim = line.trim :=
    Text.trim_margins Text.isBlank_nil hblank line
  rw [← parseCommand_trim, htrim, parseCommand_trim]

theorem parseCommand_dropReturn (line : Text) (number : Int) :
    parseCommand (dropReturn line) number = parseCommand line number := by
  rw [dropReturn]
  split
  · next hlast =>
      have hsplit := List.dropLast_append_getLast? _ (Option.mem_def.mpr hlast)
      rw [← parseCommand_append_return, hsplit]
  · rfl

/-- Lines that are read alike, one by one. -/
theorem parseFrom_congr {lines lines' : List Text}
    (h : List.Forall₂ (fun line line' => ∀ number,
      parseCommand (dropReturn line') number = parseCommand (dropReturn line) number) lines lines')
    (hshort : ∀ line ∈ lines, line.length < maxLine)
    (hshort' : ∀ line ∈ lines', line.length < maxLine) (n : Nat) (found : Array Command) :
    parseFrom none n found lines' = parseFrom none n found lines := by
  induction h generalizing n found with
  | nil => rfl
  | @cons line line' lines lines' hline hlines ih =>
      obtain ⟨hlength, hshort⟩ := List.forall_mem_cons.mp hshort
      obtain ⟨hlength', hshort'⟩ := List.forall_mem_cons.mp hshort'
      rw [parseFrom, parseFrom, if_neg (Nat.not_le.mpr hlength), if_neg (Nat.not_le.mpr hlength'),
        hline n]
      rcases parseCommand (dropReturn line) n with e | (_ | c)
      · rfl
      · exact ih hshort hshort' (n + 1) found
      · exact ih hshort hshort' (n + 1) (found.push c)

/-- **Line ends.** Lines may end in a carriage return and a line feed. -/
theorem parse_withReturns {src : Text}
    (hshort : ∀ line ∈ rawLines src.withReturns, line.length < maxLine) :
    parse src.withReturns = parse src := by
  obtain ⟨lines', hlines', hpairs⟩ := (hasLines_rawLines src).withReturns
  rw [rawLines_of_hasLines hlines'] at hshort
  have hread : List.Forall₂ (fun line line' => ∀ number,
      parseCommand (dropReturn line') number = parseCommand (dropReturn line) number)
      (rawLines src) lines' := by
    refine hpairs.imp fun line line' hline number => ?_
    rw [parseCommand_dropReturn, parseCommand_dropReturn]
    rcases hline with rfl | rfl
    · rfl
    · exact parseCommand_append_return line number
  have hbound : ∀ line ∈ rawLines src, line.length < maxLine := by
    intro line hline
    obtain ⟨k, hk⟩ := List.mem_iff_getElem?.mp hline
    obtain ⟨line', hk', hpair⟩ : ∃ line', lines'[k]? = some line' ∧
        (line' = line ∨ line' = line ++ [Text.carriageReturn]) := by
      obtain ⟨hlt, rfl⟩ := List.getElem?_eq_some_iff.mp hk
      have hlt' : k < lines'.length := by rwa [← hpairs.length_eq]
      exact ⟨_, List.getElem?_eq_getElem hlt', hpairs.get hlt hlt'⟩
    have hlength := hshort line' (List.mem_of_getElem? hk')
    rcases hpair with rfl | rfl
    · exact hlength
    · rw [List.length_append] at hlength
      omega
  rw [parse, parse, parseInput, parseInput, rawLines_of_hasLines hlines',
    parseFrom_congr hread hbound hshort]

/-! ## Comments -/

/-- A line with nothing but a comment. -/
def IsComment (line : Text) : Prop :=
  ∃ margin comment, Text.IsBlank margin ∧ line = margin ++ ("//" ++ comment)

/-- Lines into which lines with nothing but a comment have been inserted. -/
inductive Inserts : List Text → List Text → Prop where
  | nil : Inserts [] []
  | keep {line : Text} {lines lines' : List Text} : Inserts lines lines' →
      Inserts (line :: lines) (line :: lines')
  | comment {line : Text} {lines lines' : List Text} : IsComment line → Inserts lines lines' →
      Inserts lines (line :: lines')

/-- A result, but for the number of a line that is refused. -/
def unnumbered {α : Type} : Except SourceError α → Except SourceError α
  | .error (.refused e) => .error (.refused { e with line := 0 })
  | result => result

theorem unnumbered_map {α β : Type} (f : α → β) (result : Except SourceError α) :
    unnumbered (result.map f) = (unnumbered result).map f := by
  match result with
  | .ok a => rfl
  | .error (.refused e) => rfl
  | .error .lineTooLong => rfl
  | .error (.unreadable reason) => rfl

theorem parseCommand_of_isComment {line : Text} (h : IsComment line) (number : Int) :
    parseCommand (dropReturn line) number = .ok none := by
  obtain ⟨margin, comment, hmargin, rfl⟩ := h
  have hcomment : Text.IsCode ("//" ++ comment) [] :=
    ⟨Or.inr ⟨comment, rfl⟩, fun _ _ _ => Nat.zero_le _⟩
  have hcode := hcomment.append_left (Text.slash_notMem_blank hmargin)
  rw [parseCommand_dropReturn, parseCommand_eq_none_iff, ← Text.eq_dropComment_of_isCode hcode,
    List.append_nil]
  exact Text.words_eq_iff.mpr (.blank hmargin)

/-- A refused line is refused under every number, for the same cause. -/
theorem parseCommand_error_number {raw : Text} {m : Int} {e : LineError}
    (h : parseCommand raw m = .error e) (n : Int) :
    parseCommand raw n = .error { e with line := n } := by
  unfold parseCommand at h ⊢
  dsimp only at h ⊢
  cases hwords : raw.dropComment.words with
  | nil =>
      rw [hwords] at h
      cases h
  | cons keyword operands =>
      rw [hwords] at h
      dsimp only at h ⊢
      cases hparse : parseWords keyword operands with
      | ok c =>
          rw [hparse] at h
          cases h
      | error cause =>
          rw [hparse] at h
          cases h
          rfl

theorem parseFrom_inserts {lines lines' : List Text} (h : Inserts lines lines')
    (hshort : ∀ line ∈ lines', line.length < maxLine) (n m : Nat) (found : Array Command) :
    unnumbered (parseFrom none m found lines') = unnumbered (parseFrom none n found lines) := by
  induction h generalizing n m found with
  | nil => rfl
  | @keep line lines lines' hrest ih =>
      obtain ⟨hlength, hshort⟩ := List.forall_mem_cons.mp hshort
      rw [parseFrom, parseFrom, if_neg (Nat.not_le.mpr hlength), if_neg (Nat.not_le.mpr hlength)]
      rcases hline : parseCommand (dropReturn line) n with e | (_ | c)
      · rw [parseCommand_error_number hline m]
        rfl
      · rw [parseCommand_ok_number hline m]
        exact ih hshort (n + 1) (m + 1) found
      · rw [parseCommand_ok_number hline m]
        exact ih hshort (n + 1) (m + 1) (found.push c)
  | @comment line lines lines' hcomment hrest ih =>
      obtain ⟨hlength, hshort⟩ := List.forall_mem_cons.mp hshort
      rw [parseFrom, if_neg (Nat.not_le.mpr hlength), parseCommand_of_isComment hcomment m]
      exact ih hshort n (m + 1) found

/-- **Comments.** Lines with nothing but a comment change the numbers of lines only. -/
theorem parse_inserts {src src' : Text} (h : Inserts (rawLines src) (rawLines src'))
    (hshort : ∀ line ∈ rawLines src', line.length < maxLine) :
    unnumbered (parse src') = unnumbered (parse src) := by
  rw [parse, parse, parseInput, parseInput, unnumbered_map, unnumbered_map,
    parseFrom_inserts h hshort 1 1 #[]]

/-! ## The first fault -/

/-- **A source is read line by line.** Every source has lines, and in one way only. If no line is
refused and none is too long, the result is the commands on the lines. Otherwise the first fault is
reported: a refused line by the refusal that it gets when it is read by itself under its number,
unless a line that is too long comes before it or is the same. Ending the lines in carriage return
and line feed makes no difference if no line gets too long, and neither does the insertion of lines
with nothing but a comment, apart from the number of a refused line. -/
theorem parse_reports_first_fault (src : Text) :
    ∃ lines, src.HasLines lines ∧ (∀ other, src.HasLines other → other = lines) ∧
      ((∀ k, ¬Rejects lines k) → (∀ k, ¬TooLong lines k) →
        parse src = .ok (lines.filterMap commandOn?)) ∧
      (∀ b line e, IsLeast {k | Rejects lines k} b →
        (∀ t, IsLeast {k | TooLong lines k} t → b < t) → lines[b]? = some line →
        parseCommand (dropReturn line) (b + 1 : Nat) = .error e →
          parse src = .error (.refused e) ∧ e.line = (b + 1 : Nat)) ∧
      (∀ t, IsLeast {k | TooLong lines k} t → (∀ b, IsLeast {k | Rejects lines k} b → t ≤ b) →
        parse src = .error .lineTooLong) ∧
      (∀ lines', src.withReturns.HasLines lines' → (∀ line ∈ lines', line.length < maxLine) →
        parse src.withReturns = parse src) ∧
      ∀ src' lines', src'.HasLines lines' → Inserts lines lines' →
        (∀ line ∈ lines', line.length < maxLine) →
          unnumbered (parse src') = unnumbered (parse src) := by
  refine ⟨rawLines src, hasLines_rawLines src, ?_, parse_of_no_fault, ?_, ?_, ?_, ?_⟩
  · intro other hother
    exact (rawLines_of_hasLines hother).symm
  · intro b line e hfirst hlong hline herror
    exact ⟨parse_of_rejects hfirst hlong hline herror, (line_text_of_parseCommand herror).1⟩
  · intro t hfirst hrejects
    exact parse_of_tooLong hfirst hrejects
  · intro lines' hlines' hshort
    rw [← rawLines_of_hasLines hlines'] at hshort
    exact parse_withReturns hshort
  · intro src' lines' hlines' hinserts hshort
    obtain rfl := rawLines_of_hasLines hlines'
    exact parse_inserts hinserts hshort

/-- Five lines: two ways to end a line, a blank line, a comment, a command that is refused, and a
last line that is not ended. -/
def carelessLines : List Text :=
  ["push constant 1\r", "", "\t// two", "pop constant 2", "add"]

def carelessSource : Text := "push constant 1\r\n\n\t// two\npop constant 2\nadd"

theorem carelessSource_hasLines : carelessSource.HasLines carelessLines :=
  ⟨by decide +kernel, Or.inr ⟨carelessLines.take 4, "add", rfl, by decide, by decide +kernel⟩⟩

/-- The blank line and the comment count. -/
theorem parse_reports_first_fault_carelessSource :
    parse carelessSource = .error (.refused ⟨4, "pop constant 2", .popConstant⟩) ∧
      parse carelessSource.withReturns = parse carelessSource := by
  obtain ⟨lines, -, hunique, -, hrefused, -, hreturns, -⟩ :=
    parse_reports_first_fault carelessSource
  obtain rfl := hunique _ carelessSource_hasLines
  have hread : ∀ k < 3, ∃ line found, carelessLines[k]? = some line ∧
      parseCommand (dropReturn line) (k + 1 : Nat) = .ok found := by
    intro k hk
    match k, hk with
    | 0, _ => exact ⟨_, some (.push .constant 1), rfl, by decide +kernel⟩
    | 1, _ => exact ⟨_, none, rfl, by decide +kernel⟩
    | 2, _ => exact ⟨_, none, rfl, by decide +kernel⟩
  have hfourth : parseCommand (dropReturn "pop constant 2") (3 + 1 : Nat) =
      .error ⟨4, "pop constant 2", .popConstant⟩ := by decide +kernel
  have hfirst : IsLeast {k | Rejects carelessLines k} 3 := by
    refine ⟨⟨_, _, rfl, hfourth⟩, ?_⟩
    rintro k ⟨line, e, hline, herror⟩
    by_contra hk
    obtain ⟨line', found, hline', hok⟩ := hread k (Nat.not_le.mp hk)
    cases hline.symm.trans hline'
    rw [hok] at herror
    cases herror
  have hshort : ∀ t, ¬TooLong carelessLines t := by
    rintro t ⟨line, hline, hlong⟩
    have hall : ∀ line ∈ carelessLines, line.length < maxLine := by decide +kernel
    exact Nat.not_le.mpr (hall line (List.mem_of_getElem? hline)) hlong
  refine ⟨(hrefused 3 _ _ hfirst (fun t ht => absurd ht.1 (hshort t)) rfl hfourth).1, ?_⟩
  exact hreturns (rawLines carelessSource.withReturns) (hasLines_rawLines _) (by decide +kernel)

end HackStack.Vm
