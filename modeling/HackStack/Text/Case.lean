import HackStack.Text.Glyph

/-!
# Lower case, as far as ASCII goes

Words of a fixed ASCII vocabulary are recognised in any case. Besides the ASCII capitals, two other
characters have an ASCII letter as their lower case: the dotted capital I and the Kelvin sign.
-/

namespace HackStack

/-- The lower case of a character, if it is an ASCII letter; otherwise the character itself. -/
def asciiLower (c : Char) : Char :=
  if c.toNat == 0x130 then 'i' else if c.toNat == 0x212A then 'k' else c.toLower

/-- A text in lower case, as far as its lower case is ASCII. -/
def Text.asciiLower (t : Text) : Text :=
  t.glyphs.flatMap fun g =>
    match g.char? with
    | some c => Text.ofChar (HackStack.asciiLower c)
    | none => g.bytes

end HackStack
