import HackStack.Text.Blank

/-!
# Visible ASCII

Generated code consists of visible ASCII characters apart from line feeds, tabs and comments. For
such text the view as characters is one glyph for each byte, and the readers of `HackStack.Text` do
what they do for bytes: `trim` leaves a visible text alone, `words` finds one word in it, and
`dropComment` and `cut?` cut it at the first place where the separator occurs.
-/

namespace HackStack

def Glyph.ascii (b : UInt8) : Glyph := ⟨[b], some (Char.ofNat b.toNat)⟩

namespace Text

/-- Whether a byte is a visible ASCII character. -/
def isVisible (b : UInt8) : Bool := 0x21 ≤ b && b ≤ 0x7E

theorem lt_of_isVisible {b : UInt8} (h : isVisible b = true) : b.toNat < 0x80 := by
  simp only [isVisible, Bool.and_eq_true, decide_eq_true_eq, UInt8.le_iff_toNat_le] at h
  have := h.2
  change b.toNat ≤ 0x7E at this
  omega

theorem glyphs_cons_of_lt {b : UInt8} (t : Text) (h : b.toNat < 0x80) :
    glyphs (b :: t) = Glyph.ascii b :: t.glyphs := by
  show Glyph.cons b t.glyphs = _
  simp [Glyph.cons, Glyph.begin?, h, Glyph.ascii]

theorem glyphs_of_ascii {t : Text} (h : ∀ b ∈ t, b.toNat < 0x80) :
    t.glyphs = t.map Glyph.ascii := by
  induction t with
  | nil => rfl
  | cons b t ih =>
      rw [glyphs_cons_of_lt t (h b List.mem_cons_self), List.map_cons,
        ih fun c hc => h c (List.mem_cons_of_mem _ hc)]

theorem glyphs_of_visible {t : Text} (h : ∀ b ∈ t, isVisible b = true) :
    t.glyphs = t.map Glyph.ascii :=
  glyphs_of_ascii fun b hb => lt_of_isVisible (h b hb)

/-! ## White space -/

theorem isBlankChar_ofNat : ∀ n < 0x80, 0x21 ≤ n → isBlankChar (Char.ofNat n) = false := by
  decide

theorem not_isBlank_ascii {b : UInt8} (h : isVisible b = true) :
    (Glyph.ascii b).isBlank = false := by
  have hlow : 0x21 ≤ b.toNat := by
    simp only [isVisible, Bool.and_eq_true, decide_eq_true_eq, UInt8.le_iff_toNat_le] at h
    exact h.1
  exact isBlankChar_ofNat b.toNat (lt_of_isVisible h) hlow

theorem not_isBlank_of_mem {t : Text} (h : ∀ b ∈ t, isVisible b = true) :
    ∀ g ∈ t.glyphs, g.isBlank = false := by
  rw [glyphs_of_visible h]
  intro g hg
  obtain ⟨b, hb, rfl⟩ := List.mem_map.mp hg
  exact not_isBlank_ascii (h b hb)

theorem dropWhile_isBlank {gs : List Glyph} (h : ∀ g ∈ gs, g.isBlank = false) :
    gs.dropWhile Glyph.isBlank = gs := by
  cases gs with
  | nil => rfl
  | cons g gs => rw [List.dropWhile_cons_of_neg (by rw [h g List.mem_cons_self]; decide)]

theorem trimGlyphs_of_not_isBlank {gs : List Glyph} (h : ∀ g ∈ gs, g.isBlank = false) :
    trimGlyphs gs = gs := by
  rw [trimGlyphs, dropWhile_isBlank h,
    dropWhile_isBlank fun g hg => h g (List.mem_reverse.mp hg), List.reverse_reverse]

theorem trim_of_visible {t : Text} (h : ∀ b ∈ t, isVisible b = true) : t.trim = t := by
  rw [trim, trimGlyphs_of_not_isBlank (not_isBlank_of_mem h), flatten_glyphs]

/-- A tab before a visible text is trimmed off. -/
theorem trim_tab_cons {t : Text} (h : ∀ b ∈ t, isVisible b = true) : trim (0x09 :: t) = t := by
  have htab : (Glyph.ascii 0x09).isBlank = true := by decide
  have hdrop : trimGlyphs (Glyph.ascii 0x09 :: t.glyphs) = trimGlyphs t.glyphs := by
    rw [trimGlyphs, trimGlyphs, List.dropWhile_cons_of_pos htab]
  rw [trim, glyphs_cons_of_lt t (by decide), hdrop,
    trimGlyphs_of_not_isBlank (not_isBlank_of_mem h), flatten_glyphs]

theorem words_of_visible {t : Text} (h : ∀ b ∈ t, isVisible b = true) (hne : t ≠ []) :
    t.words = [t] := by
  have hsplit : t.glyphs.splitOnP Glyph.isBlank = [t.glyphs] :=
    List.splitOnP_eq_singleton (not_isBlank_of_mem h)
  have hnil : t.glyphs ≠ [] := by
    rw [glyphs_of_visible h]
    simpa using hne
  rw [words, hsplit]
  simp [hnil, flatten_glyphs]

/-! ## Cuts -/

theorem commentStart_eq_none {t : Text} (h : (0x2F : UInt8) ∉ t) (n : Nat) :
    commentStart n t = none := by
  induction t generalizing n with
  | nil => rfl
  | cons b t ih =>
      have hb : b ≠ 0x2F := fun e => h (e ▸ List.mem_cons_self)
      rw [commentStart]
      · exact ih (fun hm => h (List.mem_cons_of_mem _ hm)) (n + 1)
      · rintro rest rfl -
        exact hb rfl

theorem dropComment_of_notMem {t : Text} (h : (0x2F : UInt8) ∉ t) : t.dropComment = t := by
  rw [dropComment, commentStart_eq_none h]

theorem cut?_of_notMem {sep : UInt8} {t : Text} (h : sep ∉ t) : t.cut? sep = none := by
  rw [cut?, List.idxOf?_eq_none_iff.mpr h]

theorem idxOf?_append_cons {α : Type} [BEq α] [LawfulBEq α] {sep : α} {t : List α} (h : sep ∉ t)
    (rest : List α) :
    (t ++ sep :: rest).idxOf? sep = some t.length := by
  induction t with
  | nil => simp [List.idxOf?_cons]
  | cons b t ih =>
      have hb : (b == sep) = false := by
        rw [beq_eq_false_iff_ne]
        exact fun e => h (e ▸ List.mem_cons_self)
      rw [List.cons_append, List.idxOf?_cons, hb, ih fun hm => h (List.mem_cons_of_mem _ hm)]
      rfl

theorem cut?_append_cons {sep : UInt8} {t : Text} (h : sep ∉ t) (rest : Text) :
    (t ++ sep :: rest).cut? sep = some (t, rest) := by
  rw [cut?, idxOf?_append_cons h]
  simp

/-- A text is cut at the first separator, or has none. -/
theorem cut?_spec (sep : UInt8) (t : Text) :
    sep ∉ t ∧ t.cut? sep = none ∨
      ∃ before after, sep ∉ before ∧ t = before ++ sep :: after ∧
        t.cut? sep = some (before, after) := by
  by_cases hsep : sep ∈ t
  · obtain ⟨before, after, rfl, hbefore⟩ := List.eq_append_cons_of_mem hsep
    exact Or.inr ⟨before, after, hbefore, rfl, cut?_append_cons hbefore after⟩
  · exact Or.inl ⟨hsep, cut?_of_notMem hsep⟩

end Text

end HackStack
