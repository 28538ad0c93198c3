import HackStack.Machine.Word
import HackStack.Text.Glyph
import HackStack.Text.Letter
import Std.Data.HashMap

/-!
# Assembler symbols

A symbol is made of letters and digits of any script and of `_`, `.`, `$` and `:`, and does not
start with a digit. Some symbols are bound from the start: the registers, the first sixteen words
of memory by number, and the screen and keyboard.
-/

namespace HackStack.Assembly

open HackStack.Machine

def isSymbolChar (c : Char) : Bool :=
  isLetter c || isDecimalDigit c || c == '_' || c == '.' || c == '$' || c == ':'

def isSymbolName (t : Text) : Bool :=
  match t.glyphs with
  | [] => false
  | g :: gs => !g.char?.any isDecimalDigit && (g :: gs).all fun g => g.char?.any isSymbolChar

/-- The symbols that are bound from the start, with their addresses. -/
def predefined : List (Text × Word) :=
  ("SP", 0) :: ("LCL", 1) :: ("ARG", 2) :: ("THIS", 3) :: ("THAT", 4) :: ("SCREEN", 0x4000) ::
    ("KBD", 0x6000) :: (List.range 16).map fun i => ("R" ++ Text.ofNat i, BitVec.ofNat 16 i)

abbrev Bindings := Std.HashMap Text Word

end HackStack.Assembly
