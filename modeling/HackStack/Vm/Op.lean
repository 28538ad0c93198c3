import HackStack.Text.Basic

/-!
# Stack operations

The nine operations that take their operands from the stack. Callers outside the parser may number
them; `Op.ofCode?` reads such a number and `Op.nameOfCode` writes it, known or not.
-/

namespace HackStack.Vm

/-- An operation on the one or two topmost words of the stack, `y` being the topmost. -/
inductive Op where
  | add
  | sub
  | neg
  | eq
  | gt
  | lt
  | and
  | or
  | not
  deriving DecidableEq, Repr

namespace Op

/-- The operations in the order of their numbers. -/
def all : List Op := [.add, .sub, .neg, .eq, .gt, .lt, .and, .or, .not]

/-- The word that stands for the operation in a source. -/
def name : Op → Text
  | .add => "add"
  | .sub => "sub"
  | .neg => "neg"
  | .eq => "eq"
  | .gt => "gt"
  | .lt => "lt"
  | .and => "and"
  | .or => "or"
  | .not => "not"

def ofName? (t : Text) : Option Op := all.find? fun op => op.name = t

def code (op : Op) : Nat := all.idxOf op

def ofCode? (n : Int) : Option Op := if n < 0 then none else all[n.toNat]?

/-- The name of the operation with a number, or a text that shows the number itself. -/
def nameOfCode (n : Int) : Text :=
  match ofCode? n with
  | some op => op.name
  | none => "Op(" ++ Text.ofInt n ++ ")"

def isUnary : Op → Bool
  | .neg | .not => true
  | _ => false

def isComparison : Op → Bool
  | .eq | .gt | .lt => true
  | _ => false

end Op

end HackStack.Vm
