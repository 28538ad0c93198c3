import HackStack.Text.Glyph
import HackStack.Text.Printable

/-!
# Quoted text

A quoted text stands between double quotes. Printable characters stand for themselves; the quote,
the backslash and everything that does not print are escaped, a stray byte as `\x` and two digits.
-/

namespace HackStack

namespace Text

def hexDigit (n : Nat) : UInt8 := if n < 10 then (0x30 + n).toUInt8 else (0x57 + n).toUInt8

/-- The last `width` hexadecimal digits of `n`. -/
def hex : Nat → Nat → Text
  | 0, _ => []
  | width + 1, n => hex width (n / 16) ++ [hexDigit (n % 16)]

/-- The letter that names a control character in an escape. -/
def escapeLetter? (n : Nat) : Option Text :=
  match n with
  | 0x07 => some "a"
  | 0x08 => some "b"
  | 0x0C => some "f"
  | 0x0A => some "n"
  | 0x0D => some "r"
  | 0x09 => some "t"
  | 0x0B => some "v"
  | _ => none

/-- A character inside the quotes. -/
def quoteChar (c : Char) : Text :=
  let n := c.toNat
  if n = 0x22 ∨ n = 0x5C then [0x5C, n.toUInt8]
  else if isPrintable c then ofChar c
  else
    match escapeLetter? n with
    | some letter => 0x5C :: letter
    | none =>
      if n < 0x80 then "\\x" ++ hex 2 n
      else if n < 0x10000 then "\\u" ++ hex 4 n
      else "\\U" ++ hex 8 n

end Text

/-- A glyph inside the quotes. -/
def Glyph.quoted (g : Glyph) : Text :=
  match g.char? with
  | some c => Text.quoteChar c
  | none => g.bytes.flatMap fun b => "\\x" ++ Text.hex 2 b.toNat

/-- A text between double quotes, escaped. -/
def Text.quoted (t : Text) : Text := [0x22] ++ t.glyphs.flatMap Glyph.quoted ++ [0x22]

end HackStack
