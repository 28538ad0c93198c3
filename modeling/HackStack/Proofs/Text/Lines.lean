import Mathlib.Data.List.Forall2
import HackStack.Text.Basic

/-!
# Lines

Lines without line feeds are found again where a text is cut at its line feeds: with a line feed
after each line (`splitOn_ofLines`) or between neighbours (`splitOn_joinWith`). Every text consists
of lines in one way (`HasLines`), and `withReturns` ends them by a carriage return and a line feed.
-/

namespace HackStack.Text

/-- The text with given lines, each ended by a line feed. -/
def ofLines (lines : List Text) : Text := lines.flatMap fun line => line ++ [lineFeed]

theorem splitOn_joinWith {lines : List Text} (h : ∀ line ∈ lines, lineFeed ∉ line)
    (hne : lines ≠ []) : (joinWith [lineFeed] lines).splitOn lineFeed = lines :=
  List.splitOn_intercalate lineFeed h hne

/-- What stands behind the last line feed is one more line. -/
theorem ofLines_append (lines : List Text) (last : Text) :
    ofLines lines ++ last = joinWith [lineFeed] (lines ++ [last]) := by
  induction lines with
  | nil =>
      show last = [lineFeed].intercalate [last]
      rw [List.intercalate_singleton]
  | cons line lines ih =>
      show line ++ [lineFeed] ++ ofLines lines ++ last =
        [lineFeed].intercalate (line :: (lines ++ [last]))
      rw [List.append_assoc, ih, List.intercalate_cons_of_ne_nil (by simp)]
      rfl

/-- After the last line feed there is one more line, which is empty. -/
theorem ofLines_eq_joinWith (lines : List Text) :
    ofLines lines = joinWith [lineFeed] (lines ++ [[]]) := by
  rw [← ofLines_append, List.append_nil]

theorem splitOn_ofLines {lines : List Text} (h : ∀ line ∈ lines, lineFeed ∉ line) :
    (ofLines lines).splitOn lineFeed = lines ++ [[]] := by
  rw [ofLines_eq_joinWith]
  refine splitOn_joinWith (fun line hline => ?_) (by simp)
  rcases List.mem_append.mp hline with hline | hline
  · exact h line hline
  · rw [List.mem_singleton.mp hline]
    exact List.not_mem_nil

/-- Joining parts adds no bytes but those of the separator. -/
theorem mem_joinWith {sep : Text} {parts : List Text} {b : UInt8} (h : b ∈ joinWith sep parts) :
    b ∈ sep ∨ ∃ part ∈ parts, b ∈ part := by
  induction parts with
  | nil => cases h
  | cons part parts ih =>
      by_cases hparts : parts = []
      · subst hparts
        rw [joinWith, List.intercalate_singleton] at h
        exact Or.inr ⟨part, List.mem_singleton_self part, h⟩
      · rw [joinWith, List.intercalate_cons_of_ne_nil hparts, List.mem_append, List.mem_append] at h
        rcases h with (h | h) | h
        · exact Or.inr ⟨part, List.mem_cons_self, h⟩
        · exact Or.inl h
        · rcases ih h with hsep | ⟨other, hother, hb⟩
          · exact Or.inl hsep
          · exact Or.inr ⟨other, List.mem_cons_of_mem _ hother, hb⟩

/-! ## The lines of a text -/

/-- A text consists of lines. Each is ended by a line feed, but the last may go without one if it is
not empty. -/
def HasLines (t : Text) (lines : List Text) : Prop :=
  (∀ line ∈ lines, lineFeed ∉ line) ∧
    (t = ofLines lines ∨
      ∃ ended last, lines = ended ++ [last] ∧ last ≠ [] ∧ t = ofLines ended ++ last)

theorem HasLines.cons_lineFeed {t : Text} {lines : List Text} (h : t.HasLines lines) :
    HasLines (lineFeed :: t) ([] :: lines) := by
  obtain ⟨hlines, rfl | ⟨ended, last, rfl, hlast, rfl⟩⟩ := h
  · exact ⟨List.forall_mem_cons.mpr ⟨List.not_mem_nil, hlines⟩, Or.inl rfl⟩
  · exact ⟨List.forall_mem_cons.mpr ⟨List.not_mem_nil, hlines⟩,
      Or.inr ⟨[] :: ended, last, rfl, hlast, rfl⟩⟩

/-- A byte other than the line feed belongs to the first line. -/
theorem HasLines.cons_byte {t : Text} {lines : List Text} (h : t.HasLines lines) {b : UInt8}
    (hb : b ≠ lineFeed) : ∃ lines', HasLines (b :: t) lines' := by
  obtain ⟨hlines, hsource⟩ := h
  have hfirst : ∀ {line : Text}, lineFeed ∉ line → lineFeed ∉ b :: line := by
    intro line hline hmem
    rcases List.mem_cons.mp hmem with heq | hmem
    · exact hb heq.symm
    · exact hline hmem
  cases lines with
  | nil =>
      refine ⟨[[b]], List.forall_mem_singleton.mpr (hfirst List.not_mem_nil), Or.inr ?_⟩
      rcases hsource with rfl | ⟨ended, last, hnil, -, -⟩
      · exact ⟨[], [b], rfl, List.cons_ne_nil b [], rfl⟩
      · exact absurd hnil.symm (by simp)
  | cons line lines =>
      obtain ⟨hline, hrest⟩ := List.forall_mem_cons.mp hlines
      refine ⟨(b :: line) :: lines, List.forall_mem_cons.mpr ⟨hfirst hline, hrest⟩, ?_⟩
      rcases hsource with rfl | ⟨ended, last, heq, hlast, rfl⟩
      · exact Or.inl rfl
      · cases ended with
        | nil =>
            cases heq
            exact Or.inr ⟨[], b :: line, rfl, List.cons_ne_nil b line, rfl⟩
        | cons first ended =>
            cases heq
            exact Or.inr ⟨(b :: line) :: ended, last, rfl, hlast, rfl⟩

theorem exists_hasLines (t : Text) : ∃ lines, t.HasLines lines := by
  induction t with
  | nil => exact ⟨[], fun line hline => absurd hline List.not_mem_nil, Or.inl rfl⟩
  | cons b t ih =>
      obtain ⟨lines, hlines⟩ := ih
      by_cases hb : b = lineFeed
      · exact ⟨_, hb ▸ hlines.cons_lineFeed⟩
      · exact hlines.cons_byte hb

/-! ## Carriage returns -/

/-- A text with a carriage return put before each line feed. -/
def withReturns (t : Text) : Text :=
  t.flatMap fun b => if b = lineFeed then [carriageReturn, lineFeed] else [b]

theorem withReturns_of_notMem {t : Text} (h : lineFeed ∉ t) : t.withReturns = t := by
  induction t with
  | nil => rfl
  | cons b t ih =>
      obtain ⟨hb, ht⟩ := not_or.mp (mt List.mem_cons.mpr h)
      rw [withReturns, List.flatMap_cons, if_neg fun heq => hb heq.symm]
      exact congrArg (b :: ·) (ih ht)

theorem withReturns_ofLines {lines : List Text} (h : ∀ line ∈ lines, lineFeed ∉ line) :
    (ofLines lines).withReturns = ofLines (lines.map (· ++ [carriageReturn])) := by
  induction lines with
  | nil => rfl
  | cons line lines ih =>
      obtain ⟨hline, hlines⟩ := List.forall_mem_cons.mp h
      have hparts : (ofLines (line :: lines)).withReturns =
          (line.withReturns ++ [carriageReturn, lineFeed]) ++ (ofLines lines).withReturns := by
        simp [withReturns, ofLines]
      rw [hparts, withReturns_of_notMem hline, ih hlines]
      simp [ofLines]

/-- Each line gets a carriage return, except for a last line that is not ended. -/
theorem HasLines.withReturns {t : Text} {lines : List Text} (h : t.HasLines lines) :
    ∃ lines', t.withReturns.HasLines lines' ∧
      List.Forall₂ (fun line line' => line' = line ∨ line' = line ++ [carriageReturn]) lines
        lines' := by
  have hfeeds : ∀ {ended : List Text}, (∀ line ∈ ended, lineFeed ∉ line) →
      ∀ line ∈ ended.map (· ++ [carriageReturn]), lineFeed ∉ line := by
    intro ended hended line hline
    obtain ⟨original, horiginal, rfl⟩ := List.mem_map.mp hline
    rw [List.mem_append, not_or]
    exact ⟨hended original horiginal, by decide⟩
  have hpairs : ∀ ended : List Text,
      List.Forall₂ (fun line line' => line' = line ∨ line' = line ++ [carriageReturn]) ended
        (ended.map (· ++ [carriageReturn])) := by
    intro ended
    rw [List.forall₂_map_right_iff]
    exact List.forall₂_same.mpr fun line _ => Or.inr rfl
  obtain ⟨hlines, rfl | ⟨ended, last, rfl, hlast, rfl⟩⟩ := h
  · exact ⟨_, ⟨hfeeds hlines, Or.inl (withReturns_ofLines hlines)⟩, hpairs lines⟩
  · obtain ⟨hended, hlastLine⟩ := List.forall_mem_append.mp hlines
    have hlastFeed : lineFeed ∉ last := hlastLine last List.mem_cons_self
    refine ⟨ended.map (· ++ [carriageReturn]) ++ [last],
      ⟨List.forall_mem_append.mpr ⟨hfeeds hended, hlastLine⟩, Or.inr ⟨_, last, rfl, hlast, ?_⟩⟩, ?_⟩
    · have hparts : (ofLines ended ++ last).withReturns =
          (ofLines ended).withReturns ++ Text.withReturns last := by
        simp [Text.withReturns]
      rw [hparts, withReturns_ofLines hended, withReturns_of_notMem hlastFeed]
    · exact List.rel_append (hpairs ended) (.cons (Or.inl rfl) .nil)

end HackStack.Text
