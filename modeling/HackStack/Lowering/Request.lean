import HackStack.Vm.Command

/-!
# Numbered requests

A caller that has no parser behind it asks for code by numbers, which may name no operation and no
segment.
-/

namespace HackStack.Lowering

open HackStack.Vm

/-- A command in which operations and segments are numbers; `nothing` is the absence of one. -/
inductive Request where
  | nothing
  | arithmetic (op : Int)
  | push (segment index : Int)
  | pop (segment index : Int)
  | label (name : Text)
  | goto (name : Text)
  | ifGoto (name : Text)
  | call (name : Text) (args : Int)
  | function (name : Text) (locals : Int)
  | ret
  deriving DecidableEq, Repr

namespace Request

def ofCommand : Command → Request
  | .arithmetic op => .arithmetic op.code
  | .push s i => .push s.code i
  | .pop s i => .pop s.code i
  | .label name => .label name
  | .goto name => .goto name
  | .ifGoto name => .ifGoto name
  | .call name args => .call name args
  | .function name locals => .function name locals
  | .ret => .ret

/-- The text of a request, `none` if there is nothing to describe. -/
def text? : Request → Option Text
  | nothing => none
  | arithmetic op => some (Op.nameOfCode op)
  | push s i => some (threeWords "push" (Segment.nameOfCode s) i)
  | pop s i => some (threeWords "pop" (Segment.nameOfCode s) i)
  | label name => some (Command.label name).text
  | goto name => some (Command.goto name).text
  | ifGoto name => some (Command.ifGoto name).text
  | call name args => some (Command.call name args).text
  | function name locals => some (Command.function name locals).text
  | ret => some Command.ret.text

end Request

end HackStack.Lowering
