import HackStack.Text.Basic

/-!
# Memory segments

The eight segments that `push` and `pop` address. Four of them are scoped: a register holds the
address of their first word.
-/

namespace HackStack.Vm

/-- A region of words that a command addresses by index. -/
inductive Segment where
  | argument
  | local
  | this
  | that
  | pointer
  | static
  | temp
  | constant
  deriving DecidableEq, Repr

namespace Segment

/-- The segments in the order of their numbers. -/
def all : List Segment := [.argument, .local, .this, .that, .pointer, .static, .temp, .constant]

/-- The word that stands for the segment in a source. -/
def name : Segment → Text
  | .argument => "argument"
  | .local => "local"
  | .this => "this"
  | .that => "that"
  | .pointer => "pointer"
  | .static => "static"
  | .temp => "temp"
  | .constant => "constant"

def ofName? (t : Text) : Option Segment := all.find? fun s => s.name = t

def code (s : Segment) : Nat := all.idxOf s

def ofCode? (n : Int) : Option Segment := if n < 0 then none else all[n.toNat]?

/-- The name of the segment with a number, or a text that shows the number itself. -/
def nameOfCode (n : Int) : Text :=
  match ofCode? n with
  | some s => s.name
  | none => "Segment(" ++ Text.ofInt n ++ ")"

/-- Whether a register holds the address of the segment's first word. -/
def hasBase : Segment → Bool
  | .argument | .local | .this | .that => true
  | _ => false

end Segment

end HackStack.Vm
