import HackStack.Text.Basic

/-!
# Identifiers

Labels, functions and units are named by identifiers over a fixed ASCII alphabet. A name whose last
dot is followed by digits only has the form of a static variable's symbol, and functions may not
take such a name.
-/

namespace HackStack.Vm

/-- A byte that may start an identifier: a letter, `_`, `.` or `:`. -/
def isNameStart (b : UInt8) : Bool := Text.isAsciiLetter b || b == 0x5F || b == 0x2E || b == 0x3A

/-- A byte that may stand inside an identifier. -/
def isNamePart (b : UInt8) : Bool := isNameStart b || Text.isDigit b

def isIdentifier : Text → Bool
  | [] => false
  | b :: t => isNameStart b && t.all isNamePart

/-- Whether the part of a text after its last dot is a non-empty string of digits. -/
def hasStaticForm (t : Text) : Bool :=
  let digits := t.reverse.takeWhile Text.isDigit
  !digits.isEmpty && t.reverse[digits.length]? == some 0x2E

def isFunctionName (t : Text) : Bool := isIdentifier t && !hasStaticForm t

end HackStack.Vm
