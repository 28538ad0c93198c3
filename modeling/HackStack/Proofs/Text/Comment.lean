import HackStack.Proofs.Text.Words

/-!
# Comments

`dropComment` leaves what stands before the first `//` of a line (`isCode_dropComment`). White space
around a line matters neither to the words before the comment nor to what is left when they are
trimmed (`dropComment_trim`).
-/

namespace HackStack.Text

/-- `code` is the part of `line` before its first `//`, or all of it if there is none. -/
def IsCode (line code : Text) : Prop :=
  (code = line ∨ ∃ comment, line = code ++ "//" ++ comment) ∧
    ∀ before after, line = before ++ "//" ++ after → code.length ≤ before.length

theorem isCode_iff {line code : Text} :
    IsCode line code ↔ (code = line ∨ ∃ comment, line = code ++ 0x2F :: 0x2F :: comment) ∧
      ∀ before after, line = before ++ 0x2F :: 0x2F :: after → code.length ≤ before.length := by
  have hslashes : ∀ t u : Text, t ++ "//" ++ u = t ++ 0x2F :: 0x2F :: u := by
    intro t u
    rw [List.append_assoc]
    rfl
  simp only [IsCode, hslashes]

theorem commentStart_spec (t : Text) (n : Nat) :
    (commentStart n t = none ∧ ∀ before after, t ≠ before ++ 0x2F :: 0x2F :: after) ∨
    ∃ before after, t = before ++ 0x2F :: 0x2F :: after ∧
      commentStart n t = some (n + before.length) ∧
      ∀ first second, t = first ++ 0x2F :: 0x2F :: second → before.length ≤ first.length := by
  fun_induction commentStart n t with
  | case1 n t => exact Or.inr ⟨[], t, rfl, rfl, fun _ _ _ => Nat.zero_le _⟩
  | case2 n b t hb ih =>
      -- a `//` further on is one of the rest, because none starts here
      have hfurther : ∀ first second, b :: t = first ++ 0x2F :: 0x2F :: second →
          ∃ first', first = b :: first' ∧ t = first' ++ 0x2F :: 0x2F :: second := by
        intro first second heq
        cases first with
        | nil =>
            obtain ⟨rfl, rfl⟩ := List.cons.inj heq
            exact absurd rfl (hb second rfl)
        | cons a first =>
            obtain ⟨rfl, rfl⟩ := List.cons.inj heq
            exact ⟨first, rfl, rfl⟩
      rcases ih with ⟨hnone, hnever⟩ | ⟨before, after, rfl, hsome, hfirst⟩
      · refine Or.inl ⟨hnone, fun before after heq => ?_⟩
        obtain ⟨before', -, heq'⟩ := hfurther before after heq
        exact hnever before' after heq'
      · refine Or.inr ⟨b :: before, after, rfl, ?_, ?_⟩
        · rw [hsome, List.length_cons]
          congr 1
          omega
        · intro first second heq
          obtain ⟨first', rfl, heq'⟩ := hfurther first second heq
          exact Nat.succ_le_succ (hfirst first' second heq')
  | case3 n => exact Or.inl ⟨rfl, by simp⟩

/-- **What is left** of a line is its part before the first `//`. -/
theorem isCode_dropComment (line : Text) : IsCode line line.dropComment := by
  rw [isCode_iff]
  unfold dropComment
  rcases commentStart_spec line 0 with ⟨hnone, hnever⟩ | ⟨before, after, heq, hsome, hfirst⟩
  · rw [hnone]
    exact ⟨Or.inl rfl, fun before after h => absurd h (hnever before after)⟩
  · have htake : line.take (0 + before.length) = before := by
      rw [heq, Nat.zero_add]
      exact List.take_left
    rw [hsome]
    dsimp only
    rw [htake]
    exact ⟨Or.inr ⟨after, heq⟩, hfirst⟩

/-- A line has only one part before its first `//`. -/
theorem eq_dropComment_of_isCode {line code : Text} (h : IsCode line code) :
    code = line.dropComment := by
  -- both are the first bytes of the line, and neither is longer than the other
  have hstart : ∀ {part other : Text}, IsCode line part → IsCode line other →
      part <+: line ∧ part.length ≤ other.length := by
    intro part other hpart hother
    constructor
    · rcases hpart.1 with rfl | ⟨comment, heq⟩
      · exact List.prefix_refl _
      · rw [heq, List.append_assoc]
        exact List.prefix_append _ _
    · rcases hother.1 with rfl | ⟨comment, heq⟩
      · rcases hpart.1 with rfl | ⟨comment, heq⟩
        · exact Nat.le_refl _
        · rw [heq, List.append_assoc, List.length_append]
          exact Nat.le_add_right _ _
      · exact hpart.2 other comment heq
  have hdrop := isCode_dropComment line
  obtain ⟨hfirst, hle⟩ := hstart h hdrop
  obtain ⟨hsecond, hge⟩ := hstart hdrop h
  exact (List.prefix_of_prefix_length_le hfirst hsecond hle).eq_of_length_le hge

/-! ## White space around a line -/

theorem slash_notMem_blank {t : Text} (h : IsBlank t) : (0x2F : UInt8) ∉ t := by
  intro hmem
  obtain ⟨before, after, rfl⟩ := List.append_of_mem hmem
  have hglyphs := glyphs_append_ofChar before '/' after
  have hblank := isBlank_iff.mp h (Glyph.ofChar '/') (by
    show _ ∈ glyphs (before ++ (ofChar '/' ++ after))
    rw [hglyphs]
    simp)
  exact absurd hblank (by decide)

theorem IsCode.append_left {margin line code : Text} (hmargin : (0x2F : UInt8) ∉ margin)
    (h : IsCode line code) : IsCode (margin ++ line) (margin ++ code) := by
  rw [isCode_iff] at h ⊢
  obtain ⟨hcode, hfirst⟩ := h
  constructor
  · rcases hcode with rfl | ⟨comment, rfl⟩
    · exact Or.inl rfl
    · exact Or.inr ⟨comment, (List.append_assoc _ _ _).symm⟩
  · intro before after heq
    rw [List.length_append]
    rcases List.append_eq_append_iff.mp heq with ⟨more, rfl, hline⟩ | ⟨more, rfl, hafter⟩
    · rw [List.length_append]
      exact Nat.add_le_add_left (hfirst more after hline) _
    · cases more with
      | nil =>
          have hzero := hfirst [] after hafter.symm
          rw [List.append_nil]
          exact Nat.add_le_add_left hzero _
      | cons b more =>
          obtain ⟨rfl, -⟩ := List.cons.inj hafter
          exact absurd (by simp) hmargin

/-- Where a line with a margin behind it can start a comment. -/
theorem slashes_append {line margin before after : Text} (hmargin : (0x2F : UInt8) ∉ margin)
    (h : line ++ margin = before ++ 0x2F :: 0x2F :: after) :
    ∃ after', line = before ++ 0x2F :: 0x2F :: after' := by
  rcases List.append_eq_append_iff.mp h with ⟨more, -, rfl⟩ | ⟨more, rfl, hafter⟩
  · exact absurd (by simp) hmargin
  · match more, hafter with
    | [], hafter =>
        rw [List.nil_append] at hafter
        exact absurd (by rw [← hafter]; simp) hmargin
    | [b], hafter =>
        have hrest : 0x2F :: after = margin := (List.cons.inj hafter).2
        exact absurd (by rw [← hrest]; simp) hmargin
    | a :: b :: more, hafter =>
        obtain ⟨rfl, hrest⟩ := List.cons.inj hafter
        obtain ⟨rfl, -⟩ := List.cons.inj hrest
        exact ⟨more, rfl⟩

theorem IsCode.append_right {margin line code : Text} (hmargin : (0x2F : UInt8) ∉ margin)
    (h : IsCode line code) :
    IsCode (line ++ margin) code ∨ code = line ∧ IsCode (line ++ margin) (line ++ margin) := by
  rw [isCode_iff] at h
  obtain ⟨hcode, hfirst⟩ := h
  rw [isCode_iff, isCode_iff]
  rcases hcode with rfl | ⟨comment, rfl⟩
  · refine Or.inr ⟨rfl, Or.inl rfl, fun before after heq => ?_⟩
    obtain ⟨after', hline⟩ := slashes_append hmargin heq
    have hle := hfirst before after' hline
    have hlength := congrArg List.length hline
    simp only [List.length_append, List.length_cons] at hlength
    omega
  · refine Or.inl ⟨Or.inr ⟨comment ++ margin, by simp⟩, fun before after heq => ?_⟩
    obtain ⟨after', hline⟩ := slashes_append hmargin heq
    exact hfirst before after' hline

/-- What is left of a line with margins is what is left of the line, with margins. -/
theorem dropComment_margins {before after : Text} (hbefore : IsBlank before)
    (hafter : IsBlank after) (line : Text) :
    ∃ before' after', IsBlank before' ∧ IsBlank after' ∧
      dropComment (before ++ (line ++ after)) = before' ++ (line.dropComment ++ after') := by
  have hcode := isCode_dropComment line
  rcases hcode.append_right (slash_notMem_blank hafter) with h | ⟨hall, h⟩
  · refine ⟨before, [], hbefore, isBlank_nil, ?_⟩
    rw [List.append_nil]
    exact (eq_dropComment_of_isCode (h.append_left (slash_notMem_blank hbefore))).symm
  · refine ⟨before, after, hbefore, hafter, ?_⟩
    rw [hall]
    exact (eq_dropComment_of_isCode (h.append_left (slash_notMem_blank hbefore))).symm

/-- **White space around a line** makes no difference to what is left of it. -/
theorem dropComment_trim (line : Text) :
    line.trim.dropComment.words = line.dropComment.words ∧
      line.trim.dropComment.trim = line.dropComment.trim := by
  obtain ⟨⟨before, after, hbefore, hafter, hline⟩, -⟩ := isTrimmed_trim line
  obtain ⟨before', after', hbefore', hafter', hdrop⟩ :=
    dropComment_margins hbefore hafter line.trim
  rw [← hline] at hdrop
  rw [hdrop]
  constructor
  · rw [words_blank_append hbefore', words_append_blank _ hafter']
  · rw [trim_margins hbefore' hafter']

end HackStack.Text
