import HackStack.Text.Basic

/-!
# Characters of a byte string

`Text.glyphs` splits a byte string into characters: the shortest UTF-8 form of a scalar value is
one glyph, and every byte that belongs to no such form is a glyph of its own without a character.
No byte is lost: the glyphs' bytes, put together, are the text again (`flatten_glyphs`).
-/

namespace HackStack

/-- One character of a text with the bytes that spell it; `char?` is `none` for a stray byte. -/
structure Glyph where
  bytes : Text
  char? : Option Char
  deriving DecidableEq

namespace Glyph

def stray (b : UInt8) : Glyph := ⟨[b], none⟩

/-- The six payload bits of a stray byte that can continue a character. -/
def tail? (g : Glyph) : Option Nat :=
  match g.bytes, g.char? with
  | [b], none => if 0x80 ≤ b && b < 0xC0 then some (b.toNat - 0x80) else none
  | _, _ => none

/-- The scalar value `n`, if it is one and needs a form of `least` or more. -/
def scalar? (least n : Nat) : Option Char :=
  if least ≤ n ∧ n.isValidChar then some (Char.ofNat n) else none

/-- The character that `lead` begins when `gs` follow, and how many of `gs` belong to it. -/
def begin? (lead : UInt8) (gs : List Glyph) : Option (Char × Nat) :=
  let n := lead.toNat
  if n < 0x80 then some (Char.ofNat n, 0)
  else if 0xC0 ≤ n ∧ n < 0xE0 then
    match gs with
    | g₁ :: _ => do
      let x ← g₁.tail?
      let c ← scalar? 0x80 ((n - 0xC0) * 64 + x)
      pure (c, 1)
    | _ => none
  else if 0xE0 ≤ n ∧ n < 0xF0 then
    match gs with
    | g₁ :: g₂ :: _ => do
      let x ← g₁.tail?
      let y ← g₂.tail?
      let c ← scalar? 0x800 (((n - 0xE0) * 64 + x) * 64 + y)
      pure (c, 2)
    | _ => none
  else if 0xF0 ≤ n ∧ n < 0xF8 then
    match gs with
    | g₁ :: g₂ :: g₃ :: _ => do
      let x ← g₁.tail?
      let y ← g₂.tail?
      let z ← g₃.tail?
      let c ← scalar? 0x10000 ((((n - 0xF0) * 64 + x) * 64 + y) * 64 + z)
      pure (c, 3)
    | _ => none
  else none

/-- The glyphs of a text that starts with `b` and goes on with `gs`. -/
def cons (b : UInt8) (gs : List Glyph) : List Glyph :=
  match begin? b gs with
  | some (c, k) => ⟨b :: (gs.take k).flatMap bytes, some c⟩ :: gs.drop k
  | none => stray b :: gs

def flatten (gs : List Glyph) : Text := gs.flatMap bytes

theorem flatten_cons (b : UInt8) (gs : List Glyph) : flatten (cons b gs) = b :: flatten gs := by
  unfold cons
  split
  · next c k _ =>
    show (b :: (gs.take k).flatMap bytes) ++ (gs.drop k).flatMap bytes = b :: gs.flatMap bytes
    rw [List.cons_append, ← List.flatMap_append, List.take_append_drop]
  · rfl

end Glyph

namespace Text

/-- The characters of a text, a stray byte standing for itself. A byte that continues a character
can never start one, so the text can be read from its end. -/
def glyphs (t : Text) : List Glyph := t.foldr Glyph.cons []

theorem flatten_glyphs (t : Text) : Glyph.flatten t.glyphs = t := by
  induction t with
  | nil => rfl
  | cons b t ih => exact (Glyph.flatten_cons b _).trans (congrArg (b :: ·) ih)

/-- The first character of a text. No character takes more than four bytes. -/
def firstGlyph? (t : Text) : Option Glyph := (glyphs (t.take 4)).head?

/-- Whether every byte of the text belongs to a character. -/
def isValid (t : Text) : Bool := t.glyphs.all fun g => g.char?.isSome

def ofChar (c : Char) : Text := String.utf8EncodeChar c

def ofChars (cs : List Char) : Text := cs.flatMap ofChar

end Text

end HackStack
