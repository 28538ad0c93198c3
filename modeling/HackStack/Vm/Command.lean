import HackStack.Vm.Op
import HackStack.Vm.Segment

/-!
# Commands

A command of the stack machine and its canonical text.
-/

namespace HackStack.Vm

/-- One command of the stack machine. -/
inductive Command where
  /-- Replaces the operands on the stack by the result of `op`. -/
  | arithmetic (op : Op)
  /-- Pushes the word at `index` of `segment`. -/
  | push (segment : Segment) (index : Int)
  /-- Moves the topmost word to `index` of `segment`. -/
  | pop (segment : Segment) (index : Int)
  /-- Marks a place in the current scope. -/
  | label (name : Text)
  /-- Goes on at a label of the current scope. -/
  | goto (name : Text)
  /-- Pops a word and goes on at a label unless it is zero. -/
  | ifGoto (name : Text)
  /-- Calls a function with the topmost `args` words as arguments. -/
  | call (name : Text) (args : Int)
  /-- Starts a function with `locals` local words. -/
  | function (name : Text) (locals : Int)
  /-- Ends a call and leaves the topmost word as its value. -/
  | ret
  deriving DecidableEq, Repr

/-- A keyword, a name and a number, a blank between them. -/
def threeWords (keyword name : Text) (n : Int) : Text :=
  keyword ++ " " ++ name ++ " " ++ Text.ofInt n

/-- The canonical text of a command: its words with one blank between them. -/
def Command.text : Command → Text
  | arithmetic op => op.name
  | push s i => threeWords "push" s.name i
  | pop s i => threeWords "pop" s.name i
  | label name => "label " ++ name
  | goto name => "goto " ++ name
  | ifGoto name => "if-goto " ++ name
  | call name n => threeWords "call" name n
  | function name n => threeWords "function" name n
  | ret => "return"

end HackStack.Vm
