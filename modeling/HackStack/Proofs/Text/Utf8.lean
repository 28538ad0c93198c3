import HackStack.Text.Glyph

/-!
# Characters and their bytes

`Text.glyphs` finds the characters of a text. What it finds is UTF-8 and nothing else: the bytes of a
character are its UTF-8 form (`bytes_of_mem_glyphs`), and wherever that form stands in a text, the
character is found there (`glyphs_ofChar_append`, `glyphs_append_ofChar`). The reason is that a byte
that continues a character never begins one. The two lemmas on `Glyph.begin?` say this once, in both
directions; the rest follows by induction on the text.
-/

namespace HackStack

def isContinuation (b : UInt8) : Bool := 0x80 ≤ b && b < 0xC0

theorem isContinuation_iff {b : UInt8} :
    isContinuation b = true ↔ 0x80 ≤ b.toNat ∧ b.toNat < 0xC0 := by
  rw [isContinuation, Bool.and_eq_true, decide_eq_true_eq, decide_eq_true_eq,
    UInt8.le_iff_toNat_le, UInt8.lt_iff_toNat_lt]
  rfl

namespace Glyph

theorem tail?_stray {b : UInt8} (h : isContinuation b = true) :
    (stray b).tail? = some (b.toNat - 0x80) :=
  if_pos h

theorem tail?_eq_some {g : Glyph} {x : Nat} (h : g.tail? = some x) :
    ∃ b, g = stray b ∧ isContinuation b = true ∧ x = b.toNat - 0x80 := by
  obtain ⟨bytes, char?⟩ := g
  match bytes, char?, h with
  | [b], none, h =>
      change (if isContinuation b = true then some (b.toNat - 0x80) else none) = some x at h
      by_cases hb : isContinuation b = true
      · rw [if_pos hb] at h
        exact ⟨b, rfl, hb, (Option.some.inj h).symm⟩
      · rw [if_neg hb] at h
        cases h

theorem toNat_ofNat_char {n : Nat} (h : n.isValidChar) : (Char.ofNat n).toNat = n := by
  rw [Char.ofNat, dif_pos h]
  rfl

theorem scalar?_eq_some {least n : Nat} {c : Char} (h : scalar? least n = some c) :
    least ≤ n ∧ c.toNat = n := by
  unfold scalar? at h
  split at h
  · next hn =>
      cases h
      exact ⟨hn.1, toNat_ofNat_char hn.2⟩
  · cases h

theorem scalar?_toNat {least : Nat} {c : Char} (h : least ≤ c.toNat) :
    scalar? least c.toNat = some c := by
  rw [scalar?, if_pos ⟨h, c.valid⟩, Char.ofNat_toNat]

/-! ## The UTF-8 form of a character -/

theorem toNat_ofNat_byte {n : Nat} (h : n < 256) : (UInt8.ofNat n).toNat = n :=
  UInt8.toNat_ofNat_of_lt' h

theorem ofNat_eq_of_toNat {n : Nat} {b : UInt8} (h : b.toNat = n) : UInt8.ofNat n = b := by
  rw [← h, UInt8.ofNat_toNat]

/-- The UTF-8 form of a character by the size of its number. -/
theorem ofChar_cases (c : Char) :
    (c.toNat < 0x80 ∧ Text.ofChar c = [UInt8.ofNat c.toNat]) ∨
    (0x80 ≤ c.toNat ∧ c.toNat < 0x800 ∧
      Text.ofChar c = [UInt8.ofNat (c.toNat / 64 + 0xC0), UInt8.ofNat (c.toNat % 64 + 0x80)]) ∨
    (0x800 ≤ c.toNat ∧ c.toNat < 0x10000 ∧
      Text.ofChar c = [UInt8.ofNat (c.toNat / 4096 + 0xE0),
        UInt8.ofNat (c.toNat / 64 % 64 + 0x80), UInt8.ofNat (c.toNat % 64 + 0x80)]) ∨
    (0x10000 ≤ c.toNat ∧ c.toNat < 0x110000 ∧
      Text.ofChar c = [UInt8.ofNat (c.toNat / 262144 + 0xF0),
        UInt8.ofNat (c.toNat / 4096 % 64 + 0x80), UInt8.ofNat (c.toNat / 64 % 64 + 0x80),
        UInt8.ofNat (c.toNat % 64 + 0x80)]) := by
  have hlt : c.toNat < 0x110000 := by
    rcases c.valid with h | h
    · exact Nat.lt_trans h (by decide)
    · exact h.2
  have hform : Text.ofChar c = String.utf8EncodeChar c := rfl
  have hval : c.val.toNat = c.toNat := rfl
  rw [hform, String.utf8EncodeChar, hval]
  by_cases h1 : c.toNat ≤ 127
  · rw [if_pos h1]
    exact Or.inl ⟨by omega, rfl⟩
  · rw [if_neg h1]
    by_cases h2 : c.toNat ≤ 2047
    · rw [if_pos h2, Nat.mod_eq_of_lt (by omega : c.toNat / 64 < 32)]
      exact Or.inr (Or.inl ⟨by omega, by omega, rfl⟩)
    · rw [if_neg h2]
      by_cases h3 : c.toNat ≤ 65535
      · rw [if_pos h3, Nat.mod_eq_of_lt (by omega : c.toNat / 4096 < 16)]
        exact Or.inr (Or.inr (Or.inl ⟨by omega, by omega, rfl⟩))
      · rw [if_neg h3, Nat.mod_eq_of_lt (by omega : c.toNat / 262144 < 8)]
        exact Or.inr (Or.inr (Or.inr ⟨by omega, by omega, rfl⟩))

theorem isContinuation_ofNat {n : Nat} (h : n < 64) :
    isContinuation (UInt8.ofNat (n + 0x80)) = true := by
  rw [isContinuation_iff, toNat_ofNat_byte (by omega)]
  omega

/-- The first byte of a character continues none, and the others do. -/
theorem ofChar_eq_cons (c : Char) : ∃ lead tails, Text.ofChar c = lead :: tails ∧
    isContinuation lead = false ∧ ∀ b ∈ tails, isContinuation b = true := by
  have hlead : ∀ n < 256, n < 0x80 ∨ 0xC0 ≤ n → isContinuation (UInt8.ofNat n) = false := by
    intro n hn h
    rw [← Bool.not_eq_true, isContinuation_iff, toNat_ofNat_byte hn]
    omega
  rcases ofChar_cases c with ⟨h, heq⟩ | ⟨-, h, heq⟩ | ⟨-, h, heq⟩ | ⟨-, h, heq⟩
  · exact ⟨_, _, heq, hlead _ (by omega) (by omega), by simp⟩
  · refine ⟨_, _, heq, hlead _ (by omega) (by omega), ?_⟩
    simp only [List.forall_mem_cons]
    exact ⟨isContinuation_ofNat (by omega), by simp⟩
  · refine ⟨_, _, heq, hlead _ (by omega) (by omega), ?_⟩
    simp only [List.forall_mem_cons]
    exact ⟨isContinuation_ofNat (by omega), isContinuation_ofNat (by omega), by simp⟩
  · refine ⟨_, _, heq, hlead _ (by omega) (by omega), ?_⟩
    simp only [List.forall_mem_cons]
    exact ⟨isContinuation_ofNat (by omega), isContinuation_ofNat (by omega),
      isContinuation_ofNat (by omega), by simp⟩

/-! ## Where a character begins -/

theorem tail?_ofNat {n : Nat} (h : n < 64) : (stray (UInt8.ofNat (n + 0x80))).tail? = some n := by
  rw [tail?_stray (isContinuation_ofNat h), toNat_ofNat_byte (by omega),
    Nat.add_sub_cancel]

/-- The UTF-8 form of a character begins that character. -/
theorem begin?_ofChar {c : Char} {lead : UInt8} {tails : Text}
    (h : Text.ofChar c = lead :: tails) (rest : List Glyph) :
    begin? lead (tails.map stray ++ rest) = some (c, tails.length) := by
  rcases ofChar_cases c with ⟨hc, heq⟩ | ⟨hle, hc, heq⟩ | ⟨hle, hc, heq⟩ | ⟨hle, hc, heq⟩
  · cases heq.symm.trans h
    simp only [begin?]
    rw [toNat_ofNat_byte (by omega), if_pos (by omega), Char.ofNat_toNat]
    rfl
  · cases heq.symm.trans h
    have hvalue : (c.toNat / 64 + 0xC0 - 0xC0) * 64 + c.toNat % 64 = c.toNat := by omega
    simp only [begin?]
    rw [toNat_ofNat_byte (by omega), if_neg (by omega), if_pos (by omega)]
    simp only [List.map_cons, List.cons_append, tail?_ofNat (by omega : c.toNat % 64 < 64),
      Option.bind_eq_bind, Option.bind_some, hvalue, scalar?_toNat hle]
    rfl
  · cases heq.symm.trans h
    have hvalue : ((c.toNat / 4096 + 0xE0 - 0xE0) * 64 + c.toNat / 64 % 64) * 64 +
        c.toNat % 64 = c.toNat := by omega
    simp only [begin?]
    rw [toNat_ofNat_byte (by omega), if_neg (by omega), if_neg (by omega),
      if_pos (by omega)]
    simp only [List.map_cons, List.cons_append, tail?_ofNat (by omega : c.toNat % 64 < 64),
      tail?_ofNat (by omega : c.toNat / 64 % 64 < 64), Option.bind_eq_bind, Option.bind_some,
      hvalue, scalar?_toNat hle]
    rfl
  · cases heq.symm.trans h
    have hvalue : (((c.toNat / 262144 + 0xF0 - 0xF0) * 64 + c.toNat / 4096 % 64) * 64 +
        c.toNat / 64 % 64) * 64 + c.toNat % 64 = c.toNat := by omega
    simp only [begin?]
    rw [toNat_ofNat_byte (by omega), if_neg (by omega), if_neg (by omega),
      if_neg (by omega), if_pos (by omega)]
    simp only [List.map_cons, List.cons_append, tail?_ofNat (by omega : c.toNat % 64 < 64),
      tail?_ofNat (by omega : c.toNat / 64 % 64 < 64),
      tail?_ofNat (by omega : c.toNat / 4096 % 64 < 64), Option.bind_eq_bind, Option.bind_some,
      hvalue, scalar?_toNat hle]
    rfl

/-- Only the UTF-8 form of a character begins it. -/
theorem begin?_eq_some {lead : UInt8} {gs : List Glyph} {c : Char} {k : Nat}
    (h : begin? lead gs = some (c, k)) :
    ∃ tails rest, gs = tails.map stray ++ rest ∧ tails.length = k ∧
      Text.ofChar c = lead :: tails := by
  have hbyte := lead.toNat_lt
  simp only [begin?, Option.bind_eq_bind] at h
  by_cases h1 : lead.toNat < 0x80
  · rw [if_pos h1] at h
    cases h
    have hvalue : (Char.ofNat lead.toNat).toNat = lead.toNat :=
      toNat_ofNat_char (Or.inl (by omega))
    refine ⟨[], gs, rfl, rfl, ?_⟩
    rcases ofChar_cases (Char.ofNat lead.toNat) with ⟨-, heq⟩ | ⟨hle, -⟩ | ⟨hle, -⟩ | ⟨hle, -⟩
    · rw [heq, hvalue, UInt8.ofNat_toNat]
    all_goals omega
  rw [if_neg h1] at h
  by_cases h2 : 0xC0 ≤ lead.toNat ∧ lead.toNat < 0xE0
  · rw [if_pos h2] at h
    match gs, h with
    | g₁ :: rest, h =>
      simp only [Option.bind_eq_some_iff] at h
      obtain ⟨x, hx, d, hd, h⟩ := h
      cases h
      obtain ⟨b₁, rfl, hb₁, hx₁⟩ := tail?_eq_some hx
      obtain ⟨hle, hvalue⟩ := scalar?_eq_some hd
      rw [isContinuation_iff] at hb₁
      refine ⟨[b₁], rest, rfl, rfl, ?_⟩
      rcases ofChar_cases c with ⟨hlt, -⟩ | ⟨-, -, heq⟩ | ⟨hlt, -⟩ | ⟨hlt, -⟩
      · omega
      · rw [heq, ofNat_eq_of_toNat (b := lead) (by omega), ofNat_eq_of_toNat (b := b₁) (by omega)]
      all_goals omega
  rw [if_neg h2] at h
  by_cases h3 : 0xE0 ≤ lead.toNat ∧ lead.toNat < 0xF0
  · rw [if_pos h3] at h
    match gs, h with
    | g₁ :: g₂ :: rest, h =>
      simp only [Option.bind_eq_some_iff] at h
      obtain ⟨x, hx, y, hy, d, hd, h⟩ := h
      cases h
      obtain ⟨b₁, rfl, hb₁, hx₁⟩ := tail?_eq_some hx
      obtain ⟨b₂, rfl, hb₂, hx₂⟩ := tail?_eq_some hy
      obtain ⟨hle, hvalue⟩ := scalar?_eq_some hd
      rw [isContinuation_iff] at hb₁ hb₂
      refine ⟨[b₁, b₂], rest, rfl, rfl, ?_⟩
      rcases ofChar_cases c with ⟨hlt, -⟩ | ⟨-, hlt, -⟩ | ⟨-, -, heq⟩ | ⟨hlt, -⟩
      · omega
      · omega
      · rw [heq, ofNat_eq_of_toNat (b := lead) (by omega), ofNat_eq_of_toNat (b := b₁) (by omega),
          ofNat_eq_of_toNat (b := b₂) (by omega)]
      · omega
  rw [if_neg h3] at h
  by_cases h4 : 0xF0 ≤ lead.toNat ∧ lead.toNat < 0xF8
  · rw [if_pos h4] at h
    match gs, h with
    | g₁ :: g₂ :: g₃ :: rest, h =>
      simp only [Option.bind_eq_some_iff] at h
      obtain ⟨x, hx, y, hy, z, hz, d, hd, h⟩ := h
      cases h
      obtain ⟨b₁, rfl, hb₁, hx₁⟩ := tail?_eq_some hx
      obtain ⟨b₂, rfl, hb₂, hx₂⟩ := tail?_eq_some hy
      obtain ⟨b₃, rfl, hb₃, hx₃⟩ := tail?_eq_some hz
      obtain ⟨hle, hvalue⟩ := scalar?_eq_some hd
      rw [isContinuation_iff] at hb₁ hb₂ hb₃
      refine ⟨[b₁, b₂, b₃], rest, rfl, rfl, ?_⟩
      rcases ofChar_cases c with ⟨hlt, -⟩ | ⟨-, hlt, -⟩ | ⟨-, hlt, -⟩ | ⟨-, -, heq⟩
      · omega
      · omega
      · omega
      · rw [heq, ofNat_eq_of_toNat (b := lead) (by omega), ofNat_eq_of_toNat (b := b₁) (by omega),
          ofNat_eq_of_toNat (b := b₂) (by omega), ofNat_eq_of_toNat (b := b₃) (by omega)]
  rw [if_neg h4] at h
  cases h

def ofChar (c : Char) : Glyph := ⟨Text.ofChar c, some c⟩

theorem flatten_append (gs hs : List Glyph) : flatten (gs ++ hs) = flatten gs ++ flatten hs :=
  List.flatMap_append

theorem flatten_map_stray (t : Text) : flatten (t.map stray) = t := by
  induction t with
  | nil => rfl
  | cons b t ih => exact congrArg (b :: ·) ih

theorem cons_ofChar {c : Char} {lead : UInt8} {tails : Text} (h : Text.ofChar c = lead :: tails)
    (rest : List Glyph) : cons lead (tails.map stray ++ rest) = ofChar c :: rest := by
  have htake : (tails.map stray ++ rest).take tails.length = tails.map stray :=
    List.take_left' (List.length_map ..)
  have hdrop : (tails.map stray ++ rest).drop tails.length = rest :=
    List.drop_left' (List.length_map ..)
  have hbytes : (tails.map stray).flatMap bytes = tails := flatten_map_stray tails
  rw [cons, begin?_ofChar h]
  dsimp only
  rw [htake, hdrop, hbytes, ofChar, h]

/-- **What a byte does** before glyphs: with stray bytes that follow it, it makes the character whose
UTF-8 form they are, or else it is stray itself. -/
theorem cons_cases (b : UInt8) (gs : List Glyph) :
    (∃ c tails rest, Text.ofChar c = b :: tails ∧ gs = tails.map stray ++ rest ∧
      cons b gs = ofChar c :: rest) ∨
    ((∀ c tails rest, Text.ofChar c = b :: tails → gs ≠ tails.map stray ++ rest) ∧
      cons b gs = stray b :: gs) := by
  cases hbegin : begin? b gs with
  | some r =>
      obtain ⟨c, k⟩ := r
      obtain ⟨tails, rest, rfl, -, hform⟩ := begin?_eq_some hbegin
      exact Or.inl ⟨c, tails, rest, hform, rfl, cons_ofChar hform rest⟩
  | none =>
      refine Or.inr ⟨?_, by rw [cons, hbegin]⟩
      rintro c tails rest hform rfl
      rw [begin?_ofChar hform] at hbegin
      cases hbegin

end Glyph

namespace Text

open Glyph

theorem glyphs_cons (b : UInt8) (t : Text) : glyphs (b :: t) = Glyph.cons b t.glyphs := rfl

/-! ## Characters in a text -/

/-- Bytes that continue a character are stray without one. -/
theorem glyphs_continuations {tails : Text} (h : ∀ b ∈ tails, isContinuation b = true) (t : Text) :
    glyphs (tails ++ t) = tails.map stray ++ t.glyphs := by
  induction tails with
  | nil => rfl
  | cons b tails ih =>
      obtain ⟨hb, htails⟩ := List.forall_mem_cons.mp h
      rw [List.cons_append, glyphs_cons, ih htails]
      rcases cons_cases b (tails.map stray ++ t.glyphs) with ⟨c, ts, rest, hform, -, -⟩ | ⟨-, hcons⟩
      · obtain ⟨lead, ts', hform', hlead, -⟩ := ofChar_eq_cons c
        cases hform'.symm.trans hform
        rw [hb] at hlead
        cases hlead
      · rw [hcons]
        rfl

/-- **A character is found** where its UTF-8 form starts a text. -/
theorem glyphs_ofChar_append (c : Char) (t : Text) :
    glyphs (ofChar c ++ t) = Glyph.ofChar c :: t.glyphs := by
  obtain ⟨lead, tails, hform, -, htails⟩ := ofChar_eq_cons c
  rw [hform, List.cons_append, glyphs_cons, glyphs_continuations htails, cons_ofChar hform]

/-- **What is found is UTF-8.** -/
theorem bytes_of_mem_glyphs {t : Text} {g : Glyph} {c : Char} (hg : g ∈ t.glyphs)
    (hc : g.char? = some c) : g = Glyph.ofChar c := by
  induction t with
  | nil => cases hg
  | cons b t ih =>
      rw [glyphs_cons] at hg
      rcases cons_cases b (glyphs t) with ⟨d, tails, rest, -, hrest, hcons⟩ | ⟨-, hcons⟩
      · rw [hcons] at hg
        rcases List.mem_cons.mp hg with rfl | hg
        · cases hc
          rfl
        · exact ih (by rw [hrest]; exact List.mem_append_right _ hg)
      · rw [hcons] at hg
        rcases List.mem_cons.mp hg with rfl | hg
        · cases hc
        · exact ih hg

/-! ## Texts put together -/

/-- The first glyph of a text starts with the first byte. -/
theorem head_bytes_of_glyphs {t : Text} {g : Glyph} {gs : List Glyph} (h : t.glyphs = g :: gs) :
    g.bytes.head? = t.head? := by
  cases t with
  | nil => cases h
  | cons b t =>
      rw [glyphs_cons] at h
      rcases cons_cases b (glyphs t) with ⟨c, tails, rest, hform, -, hcons⟩ | ⟨-, hcons⟩
      · cases hcons.symm.trans h
        rw [Glyph.ofChar, hform]
        rfl
      · cases hcons.symm.trans h
        rfl

/-- Texts are read apart if the second does not go on with a character of the first. -/
theorem glyphs_append {t u : Text} (h : ∀ b ∈ u.head?, isContinuation b = false) :
    glyphs (t ++ u) = t.glyphs ++ u.glyphs := by
  induction t with
  | nil => rfl
  | cons b t ih =>
      rw [List.cons_append, glyphs_cons, glyphs_cons, ih]
      rcases cons_cases b (glyphs t) with ⟨c, tails, rest, hform, hrest, hcons⟩ | ⟨hnone, hcons⟩
      · rw [hcons, hrest, List.append_assoc, cons_ofChar hform]
        rfl
      · rw [hcons]
        rcases cons_cases b (glyphs t ++ glyphs u) with
          ⟨c, tails, rest, hform, hrest, -⟩ | ⟨-, hcons'⟩
        · -- a character across the border would take a stray byte from the front of `u`
          exfalso
          rcases List.append_eq_append_iff.mp hrest with ⟨more, hmore, hu⟩ | ⟨more, hmore, -⟩
          · cases more with
            | nil =>
                refine hnone c tails [] hform ?_
                rw [hmore, List.append_nil, List.append_nil]
            | cons g more =>
                have hg : g ∈ tails.map stray := by
                  rw [hmore]
                  exact List.mem_append_right _ List.mem_cons_self
                obtain ⟨y, hy, rfl⟩ := List.mem_map.mp hg
                obtain ⟨lead, ts, hform', -, htails⟩ := ofChar_eq_cons c
                cases hform'.symm.trans hform
                have hhead := h y (head_bytes_of_glyphs hu).symm
                rw [htails y hy] at hhead
                cases hhead
          · exact hnone c tails more hform hmore
        · rw [hcons']
          rfl

theorem head_ofChar {c : Char} {t : Text} : ∀ b ∈ (ofChar c ++ t).head?, isContinuation b = false := by
  obtain ⟨lead, tails, hform, hlead, -⟩ := ofChar_eq_cons c
  rw [hform]
  intro b hb
  cases hb
  exact hlead

/-- **A character is found** wherever its UTF-8 form stands in a text. -/
theorem glyphs_append_ofChar (t : Text) (c : Char) (u : Text) :
    glyphs (t ++ (ofChar c ++ u)) = t.glyphs ++ Glyph.ofChar c :: u.glyphs := by
  rw [glyphs_append head_ofChar, glyphs_ofChar_append]

/-- Parts of a text between glyphs are read as they are read in the text. -/
theorem glyphs_parts {t : Text} {gs hs : List Glyph} (h : t.glyphs = gs ++ hs) :
    (flatten gs).glyphs = gs ∧ (flatten hs).glyphs = hs := by
  induction t generalizing gs with
  | nil =>
      obtain ⟨rfl, rfl⟩ := List.append_eq_nil_iff.mp h.symm
      exact ⟨rfl, rfl⟩
  | cons b t ih =>
      cases gs with
      | nil =>
          refine ⟨rfl, ?_⟩
          rw [← List.nil_append hs, ← h, flatten_glyphs]
      | cons g gs =>
          rw [glyphs_cons, List.cons_append] at h
          rcases cons_cases b (glyphs t) with ⟨c, tails, rest, hform, hrest, hcons⟩ | ⟨hnone, hcons⟩
          · obtain ⟨rfl, rfl⟩ := List.cons.inj (hcons.symm.trans h)
            rw [← List.append_assoc] at hrest
            obtain ⟨hfirst, hsecond⟩ := ih hrest
            refine ⟨?_, hsecond⟩
            rw [flatten_append, flatten_map_stray] at hfirst
            show glyphs (Text.ofChar c ++ flatten gs) = _
            rw [hform, List.cons_append, glyphs_cons, hfirst, cons_ofChar hform]
          · obtain ⟨rfl, hrest⟩ := List.cons.inj (hcons.symm.trans h)
            obtain ⟨hfirst, hsecond⟩ := ih hrest
            refine ⟨?_, hsecond⟩
            show Glyph.cons b (flatten gs).glyphs = _
            rw [hfirst]
            -- what makes no character with more behind it makes none with less
            rcases cons_cases b gs with ⟨c, tails, rest, hform, rfl, -⟩ | ⟨-, hcons'⟩
            · exact absurd (by rw [hrest, List.append_assoc]) (hnone c tails (rest ++ hs) hform)
            · exact hcons'

end Text

end HackStack
