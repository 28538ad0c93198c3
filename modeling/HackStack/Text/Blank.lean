import HackStack.Text.Glyph

/-!
# White space

White space is the Unicode property of that name. `trim` takes it off both ends of a text and
`words` splits a text at it. A stray byte is never white space.
-/

namespace HackStack

/-- The white-space characters. -/
def isBlankChar (c : Char) : Bool :=
  let n := c.toNat
  (0x09 ≤ n && n ≤ 0x0D) || n == 0x20 || n == 0x85 || n == 0xA0 || n == 0x1680 ||
    (0x2000 ≤ n && n ≤ 0x200A) || n == 0x2028 || n == 0x2029 || n == 0x202F || n == 0x205F ||
    n == 0x3000

def Glyph.isBlank (g : Glyph) : Bool := g.char?.any isBlankChar

namespace Text

def trimGlyphs (gs : List Glyph) : List Glyph :=
  ((gs.dropWhile Glyph.isBlank).reverse.dropWhile Glyph.isBlank).reverse

/-- A text without the white space at both ends. -/
def trim (t : Text) : Text := Glyph.flatten (trimGlyphs t.glyphs)

/-- The maximal runs of a text that hold no white space, in order. -/
def words (t : Text) : List Text :=
  ((t.glyphs.splitOnP Glyph.isBlank).filter fun w => !w.isEmpty).map Glyph.flatten

end Text

end HackStack
