import Mathlib.Data.List.TakeWhile
import HackStack.Proofs.Text.Ascii
import HackStack.Proofs.Text.Utf8

/-!
# Words between white space

What the words of a text are is said on its bytes, without reading it as characters: white space is
the UTF-8 form of a white-space character, a word is not empty and has no white space in it, and
`SplitsInto` puts a text together from margins, words and white space.

- `words_eq_iff`: the words that `words` finds are those that the text is put together from.
- `isTrimmed_trim`, `IsTrimmed.eq_trim`: `trim` takes off white space at both ends and leaves none
  there, and there is one text only that is left so.
- `SplitsInto.length_le`: no text with given words is shorter than the words with one blank between
  them.
-/

namespace HackStack.Text

/-- A text of white-space characters only. -/
def IsBlank (t : Text) : Prop :=
  ∃ cs : List Char, (∀ c ∈ cs, isBlankChar c = true) ∧ t = ofChars cs

def IsSolid (t : Text) : Prop := ∀ c, isBlankChar c = true → ¬ ofChar c <:+: t

/-- A text is put together from words: a margin, or a margin and one word, or a margin, a word, a
white-space character and a text that is put together from more words. -/
inductive SplitsInto : Text → List Text → Prop where
  | blank {margin : Text} : IsBlank margin → SplitsInto margin []
  | last {margin word : Text} : IsBlank margin → IsSolid word → word ≠ [] →
      SplitsInto (margin ++ word) [word]
  | cons {margin word rest : Text} {ws : List Text} {c : Char} : IsBlank margin → IsSolid word →
      word ≠ [] → isBlankChar c = true → SplitsInto rest ws →
      SplitsInto (margin ++ (word ++ (ofChar c ++ rest))) (word :: ws)

/-- `u` is `t` without white space at both ends. -/
def IsTrimmed (t u : Text) : Prop :=
  (∃ before after, IsBlank before ∧ IsBlank after ∧ t = before ++ (u ++ after)) ∧
    ∀ c rest, isBlankChar c = true → u ≠ ofChar c ++ rest ∧ u ≠ rest ++ ofChar c

/-! ## White space as glyphs -/

theorem isBlank_glyph_ofChar {c : Char} (h : isBlankChar c = true) :
    (Glyph.ofChar c).isBlank = true := h

theorem eq_ofChar_of_isBlank {t : Text} {g : Glyph} (hg : g ∈ t.glyphs) (h : g.isBlank = true) :
    ∃ c, isBlankChar c = true ∧ g = Glyph.ofChar c := by
  obtain ⟨c, hc, hblank⟩ := (Option.any_eq_true _ _).mp h
  exact ⟨c, hblank, bytes_of_mem_glyphs hg hc⟩

theorem glyphs_ofChars_append (cs : List Char) (t : Text) :
    glyphs (ofChars cs ++ t) = cs.map Glyph.ofChar ++ t.glyphs := by
  induction cs with
  | nil => rfl
  | cons c cs ih =>
      show glyphs ((ofChar c ++ ofChars cs) ++ t) = _
      rw [List.append_assoc, glyphs_ofChar_append, ih]
      rfl

theorem flatten_map_ofChar (cs : List Char) : Glyph.flatten (cs.map Glyph.ofChar) = ofChars cs := by
  rw [Glyph.flatten, ofChars, List.flatMap_map]
  rfl

theorem isBlank_iff {t : Text} : IsBlank t ↔ ∀ g ∈ t.glyphs, g.isBlank = true := by
  constructor
  · rintro ⟨cs, hcs, rfl⟩ g hg
    have hglyphs := glyphs_ofChars_append cs []
    rw [List.append_nil] at hglyphs
    rw [hglyphs, List.mem_append] at hg
    rcases hg with hg | hg
    · obtain ⟨c, hc, rfl⟩ := List.mem_map.mp hg
      exact hcs c hc
    · cases hg
  · intro h
    -- each glyph is the form of a white-space character, and the text is made of the glyphs
    have hchars : ∀ gs : List Glyph, (∀ g ∈ gs, ∃ c, isBlankChar c = true ∧ g = Glyph.ofChar c) →
        ∃ cs : List Char, (∀ c ∈ cs, isBlankChar c = true) ∧ gs = cs.map Glyph.ofChar := by
      intro gs
      induction gs with
      | nil => exact fun _ => ⟨[], by simp, rfl⟩
      | cons g gs ih =>
          intro hgs
          obtain ⟨⟨c, hc, rfl⟩, hrest⟩ := List.forall_mem_cons.mp hgs
          obtain ⟨cs, hcs, rfl⟩ := ih hrest
          exact ⟨c :: cs, List.forall_mem_cons.mpr ⟨hc, hcs⟩, rfl⟩
    obtain ⟨cs, hcs, hglyphs⟩ := hchars t.glyphs fun g hg => eq_ofChar_of_isBlank hg (h g hg)
    refine ⟨cs, hcs, ?_⟩
    rw [← flatten_glyphs t, hglyphs, flatten_map_ofChar]

theorem isSolid_iff {t : Text} : IsSolid t ↔ ∀ g ∈ t.glyphs, g.isBlank = false := by
  constructor
  · intro h g hg
    rw [← Bool.not_eq_true]
    intro hblank
    obtain ⟨c, hc, rfl⟩ := eq_ofChar_of_isBlank hg hblank
    obtain ⟨gs, hs, hsplit⟩ := List.append_of_mem hg
    refine h c hc ⟨Glyph.flatten gs, Glyph.flatten hs, ?_⟩
    rw [← flatten_glyphs t, hsplit, List.append_assoc, Glyph.flatten_append]
    rfl
  · rintro h c hc ⟨before, after, rfl⟩
    have hsolid := h (Glyph.ofChar c) (by rw [List.append_assoc, glyphs_append_ofChar]; simp)
    change isBlankChar c = false at hsolid
    rw [hc] at hsolid
    cases hsolid

theorem isBlank_nil : IsBlank [] := ⟨[], by simp, rfl⟩

theorem isBlank_ofChar {c : Char} (h : isBlankChar c = true) : IsBlank (ofChar c) :=
  ⟨[c], by simpa using h, by simp [ofChars]⟩

theorem IsBlank.append {t u : Text} (ht : IsBlank t) (hu : IsBlank u) : IsBlank (t ++ u) := by
  obtain ⟨cs, hcs, rfl⟩ := ht
  obtain ⟨ds, hds, rfl⟩ := hu
  exact ⟨cs ++ ds, List.forall_mem_append.mpr ⟨hcs, hds⟩, List.flatMap_append.symm⟩

theorem glyphs_blank_append {t : Text} (h : IsBlank t) (u : Text) :
    glyphs (t ++ u) = t.glyphs ++ u.glyphs := by
  obtain ⟨cs, -, rfl⟩ := h
  have hglyphs := glyphs_ofChars_append cs []
  rw [List.append_nil] at hglyphs
  rw [glyphs_ofChars_append, hglyphs]
  simp [glyphs]

theorem glyphs_append_blank (t : Text) {u : Text} (h : IsBlank u) :
    glyphs (t ++ u) = t.glyphs ++ u.glyphs := by
  obtain ⟨cs, -, rfl⟩ := h
  cases cs with
  | nil => simp [ofChars, glyphs]
  | cons c cs => exact glyphs_append head_ofChar

/-! ## Words as runs of glyphs -/

/-- The maximal runs of glyphs without white space. -/
def runs (gs : List Glyph) : List (List Glyph) :=
  (gs.splitOnP Glyph.isBlank).filter fun w => !w.isEmpty

theorem words_eq_runs (t : Text) : t.words = (runs t.glyphs).map Glyph.flatten := rfl

theorem runs_append_cons (before : List Glyph) {g : Glyph} (h : g.isBlank = true)
    (after : List Glyph) : runs (before ++ g :: after) = runs before ++ runs after := by
  rw [runs, List.splitOnP_append_cons before after h, List.filter_append]
  rfl

theorem runs_nil : runs [] = [] := by
  simp [runs, List.splitOnP_nil]

theorem runs_solid {gs : List Glyph} (h : ∀ g ∈ gs, g.isBlank = false) (hne : gs ≠ []) :
    runs gs = [gs] := by
  rw [runs, List.splitOnP_eq_singleton h]
  simp [hne]

theorem runs_blank_append {gs : List Glyph} (h : ∀ g ∈ gs, g.isBlank = true) (hs : List Glyph) :
    runs (gs ++ hs) = runs hs := by
  induction gs with
  | nil => rfl
  | cons g gs ih =>
      obtain ⟨hg, hgs⟩ := List.forall_mem_cons.mp h
      have hcons := runs_append_cons [] hg (gs ++ hs)
      rw [runs_nil, ih hgs] at hcons
      exact hcons

theorem runs_append_blank (gs : List Glyph) {hs : List Glyph} (h : ∀ g ∈ hs, g.isBlank = true) :
    runs (gs ++ hs) = runs gs := by
  cases hs with
  | nil => rw [List.append_nil]
  | cons g hs =>
      obtain ⟨hg, hhs⟩ := List.forall_mem_cons.mp h
      have hrest := runs_blank_append hhs []
      rw [List.append_nil, runs_nil] at hrest
      rw [runs_append_cons gs hg, hrest, List.append_nil]

theorem glyphs_ne_nil {t : Text} (h : t ≠ []) : t.glyphs ≠ [] := by
  intro hnil
  rw [← flatten_glyphs t, hnil] at h
  exact h rfl

theorem words_of_splitsInto {t : Text} {ws : List Text} (h : SplitsInto t ws) : t.words = ws := by
  induction h with
  | blank hmargin =>
      have hruns := runs_blank_append (isBlank_iff.mp hmargin) []
      rw [List.append_nil, runs_nil] at hruns
      rw [words_eq_runs, hruns]
      rfl
  | @last margin word hmargin hword hne =>
      rw [words_eq_runs, glyphs_blank_append hmargin, runs_blank_append (isBlank_iff.mp hmargin),
        runs_solid (isSolid_iff.mp hword) (glyphs_ne_nil hne), List.map_singleton, flatten_glyphs]
  | @cons margin word rest ws c hmargin hword hne hc hrest ih =>
      rw [words_eq_runs, glyphs_blank_append hmargin, runs_blank_append (isBlank_iff.mp hmargin),
        glyphs_append_ofChar, runs_append_cons _ (isBlank_glyph_ofChar hc),
        runs_solid (isSolid_iff.mp hword) (glyphs_ne_nil hne), List.map_append, List.map_singleton,
        flatten_glyphs, ← words_eq_runs, ih]
      rfl

theorem SplitsInto.blank_append {margin t : Text} {ws : List Text} (hmargin : IsBlank margin)
    (h : SplitsInto t ws) : SplitsInto (margin ++ t) ws := by
  cases h with
  | blank ht => exact .blank (hmargin.append ht)
  | last ht hword hne =>
      rw [← List.append_assoc]
      exact .last (hmargin.append ht) hword hne
  | cons ht hword hne hc hrest =>
      rw [← List.append_assoc]
      exact .cons (hmargin.append ht) hword hne hc hrest

/-- Glyphs up to the first white space. -/
theorem exists_first_run (gs : List Glyph) :
    ∃ run, (∀ g ∈ run, g.isBlank = false) ∧
      (gs = run ∨ ∃ g rest, g.isBlank = true ∧ gs = run ++ g :: rest) := by
  induction gs with
  | nil => exact ⟨[], by simp, Or.inl rfl⟩
  | cons g gs ih =>
      cases hg : g.isBlank with
      | true => exact ⟨[], by simp, Or.inr ⟨g, gs, hg, rfl⟩⟩
      | false =>
          obtain ⟨run, hrun, hgs⟩ := ih
          refine ⟨g :: run, List.forall_mem_cons.mpr ⟨hg, hrun⟩, ?_⟩
          rcases hgs with rfl | ⟨h, rest, hh, rfl⟩
          · exact Or.inl rfl
          · exact Or.inr ⟨h, rest, hh, rfl⟩

theorem length_ofChar_pos (c : Char) : 0 < (ofChar c).length := by
  obtain ⟨lead, tails, hform, -, -⟩ := Glyph.ofChar_eq_cons c
  rw [hform]
  exact Nat.succ_pos _

/-- Every text is put together from words. -/
theorem exists_splitsInto (t : Text) : ∃ ws, SplitsInto t ws := by
  -- the first run, if there is one, and a blank are taken off at the front
  induction hn : t.length using Nat.strongRecOn generalizing t with
  | ind n ih =>
      obtain ⟨run, hrun, hgs | ⟨g, rest, hg, hgs⟩⟩ := exists_first_run t.glyphs
      · have hsolid : IsSolid t := isSolid_iff.mpr (hgs ▸ hrun)
        by_cases ht : t = []
        · exact ⟨[], .blank (ht ▸ isBlank_nil)⟩
        · exact ⟨[t], .last isBlank_nil hsolid ht⟩
      · obtain ⟨c, hc, rfl⟩ := eq_ofChar_of_isBlank (t := t) (by rw [hgs]; simp) hg
        have ht : t = Glyph.flatten run ++ (ofChar c ++ Glyph.flatten rest) := by
          rw [← flatten_glyphs t, hgs, Glyph.flatten_append]
          rfl
        have hshorter : (Glyph.flatten rest).length < n := by
          have hlength := congrArg List.length ht
          rw [List.length_append, List.length_append] at hlength
          have hpos := length_ofChar_pos c
          omega
        obtain ⟨ws, hws⟩ := ih _ hshorter (Glyph.flatten rest) rfl
        rw [ht]
        by_cases hempty : Glyph.flatten run = []
        · rw [hempty, List.nil_append]
          exact ⟨ws, hws.blank_append (isBlank_ofChar hc)⟩
        · have hsolid : IsSolid (Glyph.flatten run) := by
            rw [isSolid_iff, (glyphs_parts hgs).1]
            exact hrun
          exact ⟨_, .cons isBlank_nil hsolid hempty hc hws⟩

/-- **The words of a text** are those that it is put together from. -/
theorem words_eq_iff {t : Text} {ws : List Text} : t.words = ws ↔ SplitsInto t ws := by
  constructor
  · rintro rfl
    obtain ⟨ws, hws⟩ := exists_splitsInto t
    rwa [words_of_splitsInto hws]
  · exact words_of_splitsInto

theorem SplitsInto.isBlank {t : Text} (h : SplitsInto t []) : IsBlank t := by
  cases h with
  | blank hmargin => exact hmargin

/-- White space before a text changes no word. -/
theorem words_blank_append {margin : Text} (h : IsBlank margin) (t : Text) :
    words (margin ++ t) = t.words :=
  words_eq_iff.mpr ((words_eq_iff.mp rfl).blank_append h)

theorem words_append_blank (t : Text) {margin : Text} (h : IsBlank margin) :
    words (t ++ margin) = t.words := by
  rw [words_eq_runs, glyphs_append_blank t h, runs_append_blank _ (isBlank_iff.mp h)]
  rfl

/-! ## Lengths -/

/-- Words with a blank between neighbours are no longer than any text with these words. -/
theorem SplitsInto.length_le {t : Text} {ws : List Text} (h : SplitsInto t ws) :
    ws.flatten.length + ws.length ≤ t.length + 1 := by
  induction h with
  | blank hmargin => simp
  | last hmargin hword hne => simp
  | @cons margin word rest ws c hmargin hword hne hc hrest ih =>
      have hpos := length_ofChar_pos c
      simp only [List.flatten_cons, List.length_cons, List.length_append]
      omega

theorem length_joinWith_blank (w : Text) (ws : List Text) :
    (joinWith " " (w :: ws)).length + 1 = (w :: ws).flatten.length + (w :: ws).length := by
  induction ws generalizing w with
  | nil => simp [joinWith]
  | cons u ws ih =>
      have hcons : joinWith " " (w :: u :: ws) = w ++ " " ++ joinWith " " (u :: ws) :=
        List.intercalate_cons_cons
      have hblank : (" " : Text).length = 1 := rfl
      have hrest := ih u
      simp only [List.flatten_cons, List.length_cons, List.length_append] at hrest ⊢
      rw [hcons, List.length_append, List.length_append]
      omega

/-! ## Visible words -/

theorem isSolid_of_visible {w : Text} (h : ∀ b ∈ w, isVisible b = true) : IsSolid w :=
  isSolid_iff.mpr (not_isBlank_of_mem h)

/-- Visible words with a blank between neighbours. -/
theorem splitsInto_joinWith {ws : List Text}
    (h : ∀ w ∈ ws, w ≠ [] ∧ ∀ b ∈ w, isVisible b = true) : SplitsInto (joinWith " " ws) ws := by
  induction ws with
  | nil => exact .blank isBlank_nil
  | cons w ws ih =>
      obtain ⟨⟨hne, hvisible⟩, hws⟩ := List.forall_mem_cons.mp h
      have hsolid := isSolid_of_visible hvisible
      cases ws with
      | nil =>
          have hone : joinWith " " [w] = [] ++ w := by simp [joinWith]
          rw [hone]
          exact .last isBlank_nil hsolid hne
      | cons u ws =>
          have hcons : joinWith " " (w :: u :: ws) =
              [] ++ (w ++ (ofChar ' ' ++ joinWith " " (u :: ws))) := by
            rw [List.nil_append, ← List.append_assoc]
            exact List.intercalate_cons_cons
          rw [hcons]
          exact .cons isBlank_nil hsolid hne (by decide) (ih hws)

/-! ## Margins -/

theorem trimGlyphs_margins {before after : List Glyph} (hbefore : ∀ g ∈ before, g.isBlank = true)
    (hafter : ∀ g ∈ after, g.isBlank = true) (gs : List Glyph) :
    trimGlyphs (before ++ (gs ++ after)) = trimGlyphs gs := by
  have hnone : after.dropWhile Glyph.isBlank = [] := List.dropWhile_eq_nil_iff.mpr hafter
  unfold trimGlyphs
  rw [List.dropWhile_append_of_pos hbefore, List.dropWhile_append]
  split
  · next hblank => rw [hnone, List.isEmpty_iff.mp hblank]
  · rw [List.reverse_append, List.dropWhile_append_of_pos]
    exact fun g hg => hafter g (List.mem_reverse.mp hg)

/-- White space at both ends makes no difference to what is left without it. -/
theorem trim_margins {before after : Text} (hbefore : IsBlank before) (hafter : IsBlank after)
    (t : Text) : trim (before ++ (t ++ after)) = t.trim := by
  rw [trim, glyphs_blank_append hbefore, glyphs_append_blank t hafter,
    trimGlyphs_margins (isBlank_iff.mp hbefore) (isBlank_iff.mp hafter)]
  rfl

theorem head_dropWhile {gs : List Glyph} {g : Glyph}
    (h : g ∈ (gs.dropWhile Glyph.isBlank).head?) : g.isBlank = false := by
  have hnot := List.head?_dropWhile_not Glyph.isBlank gs
  rw [Option.mem_def.mp h] at hnot
  exact hnot

/-- The glyphs that are trimmed off, and what is left. -/
theorem exists_margins (gs : List Glyph) :
    ∃ before after, (∀ g ∈ before, g.isBlank = true) ∧ (∀ g ∈ after, g.isBlank = true) ∧
      gs = before ++ (trimGlyphs gs ++ after) := by
  refine ⟨gs.takeWhile Glyph.isBlank,
    ((gs.dropWhile Glyph.isBlank).reverse.takeWhile Glyph.isBlank).reverse,
    fun g hg => List.mem_takeWhile_imp hg,
    fun g hg => List.mem_takeWhile_imp (List.mem_reverse.mp hg), ?_⟩
  rw [trimGlyphs, ← List.reverse_append, List.takeWhile_append_dropWhile, List.reverse_reverse,
    List.takeWhile_append_dropWhile]

theorem getLast_trimGlyphs {gs : List Glyph} {g : Glyph} (h : g ∈ (trimGlyphs gs).getLast?) :
    g.isBlank = false := by
  rw [trimGlyphs, List.getLast?_reverse] at h
  exact head_dropWhile h

theorem head_trimGlyphs {gs : List Glyph} {g : Glyph} (h : g ∈ (trimGlyphs gs).head?) :
    g.isBlank = false := by
  obtain ⟨before, hbefore⟩ : trimGlyphs gs <+: gs.dropWhile Glyph.isBlank := by
    have hsuffix := List.dropWhile_suffix (l := (gs.dropWhile Glyph.isBlank).reverse) Glyph.isBlank
    have hfront := List.reverse_prefix.mpr hsuffix
    rwa [List.reverse_reverse] at hfront
  have hmem : g ∈ (gs.dropWhile Glyph.isBlank).head? := by
    rw [← hbefore, List.head?_append, Option.mem_def.mp h]
    rfl
  exact head_dropWhile hmem

/-- **What is trimmed off** is white space, and no white space is left at the ends. -/
theorem isTrimmed_trim (t : Text) : IsTrimmed t t.trim := by
  obtain ⟨before, after, hbefore, hafter, hgs⟩ := exists_margins t.glyphs
  obtain ⟨hfirst, hsecond⟩ := glyphs_parts hgs
  obtain ⟨hmiddle, hlast⟩ := glyphs_parts hsecond
  change t.trim.glyphs = _ at hmiddle
  constructor
  · refine ⟨Glyph.flatten before, Glyph.flatten after, isBlank_iff.mpr (by rwa [hfirst]),
      isBlank_iff.mpr (by rwa [hlast]), ?_⟩
    conv => lhs; rw [← flatten_glyphs t, hgs, Glyph.flatten_append, Glyph.flatten_append]
    rfl
  · intro c rest hc
    constructor
    · intro heq
      rw [heq, glyphs_ofChar_append] at hmiddle
      have hsolid := @head_trimGlyphs t.glyphs (Glyph.ofChar c) (by rw [← hmiddle]; rfl)
      rw [isBlank_glyph_ofChar hc] at hsolid
      cases hsolid
    · intro heq
      have happend := glyphs_append_ofChar rest c []
      rw [List.append_nil] at happend
      rw [heq, happend] at hmiddle
      have hsolid := @getLast_trimGlyphs t.glyphs (Glyph.ofChar c)
        (by rw [← hmiddle]; exact List.getLast?_concat)
      rw [isBlank_glyph_ofChar hc] at hsolid
      cases hsolid

/-- A text without white space at its ends is trimmed already. -/
theorem trim_eq_self {t : Text}
    (h : ∀ c rest, isBlankChar c = true → t ≠ ofChar c ++ rest ∧ t ≠ rest ++ ofChar c) :
    t.trim = t := by
  obtain ⟨⟨before, after, ⟨front, hfront, rfl⟩, ⟨back, hback, rfl⟩, ht⟩, -⟩ := isTrimmed_trim t
  -- a margin that is not empty would have a white-space character at an end of the text
  have hnone : front = [] := by
    cases front with
    | nil => rfl
    | cons c cs =>
        refine absurd ?_ (h c (ofChars cs ++ (t.trim ++ ofChars back)) (hfront c (by simp))).1
        conv => lhs; rw [ht]
        exact List.append_assoc ..
  have hlast : back = [] := by
    rcases List.eq_nil_or_concat back with hnil | ⟨cs, c, rfl⟩
    · exact hnil
    · refine absurd ?_ (h c (ofChars front ++ (t.trim ++ ofChars cs)) (hback c (by simp))).2
      conv => lhs; rw [ht]
      simp [ofChars]
  rw [hnone, hlast] at ht
  simpa [ofChars] using ht.symm

/-- There is only one way to take off the white space at both ends. -/
theorem IsTrimmed.eq_trim {t u : Text} (h : IsTrimmed t u) : u = t.trim := by
  obtain ⟨⟨before, after, hbefore, hafter, rfl⟩, hends⟩ := h
  rw [trim_margins hbefore hafter, trim_eq_self hends]

theorem words_trim (t : Text) : t.trim.words = t.words := by
  obtain ⟨⟨before, after, hbefore, hafter, ht⟩, -⟩ := isTrimmed_trim t
  conv => rhs; rw [ht]
  rw [words_blank_append hbefore, words_append_blank _ hafter]

end HackStack.Text
