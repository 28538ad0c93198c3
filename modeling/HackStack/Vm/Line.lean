import HackStack.Text.Blank
import HackStack.Text.Quoted
import HackStack.Vm.Command
import HackStack.Vm.Name

/-!
# Source lines

A source line holds at most one command. What follows `//` is a comment, and the words before it
are separated by white space. `parseCommand` reads a line; `LineError.message` words its refusal.
-/

namespace HackStack.Vm

/-- The largest index or count that a command may hold. -/
def largestIndex : Nat := 0x7FFF

/-- Why a line is no command. -/
inductive Cause where
  /-- A `push` or `pop` without exactly two operands. -/
  | segmentAndIndex (keyword : Text)
  | unknownSegment (word : Text)
  | invalidIndex (word : Text)
  | pointerIndex (index : Nat)
  | tempIndex (index : Nat)
  | popConstant
  /-- A branching command without exactly one operand. -/
  | labelName (keyword : Text)
  | invalidLabel (word : Text)
  /-- A `function` or `call` without exactly two operands. -/
  | nameAndCount (keyword : Text)
  | invalidFunction (word : Text)
  | staticFunction (word : Text)
  /-- A command without operands that has some. -/
  | noOperands (keyword : Text)
  | unknownCommand (word : Text)
  deriving DecidableEq, Repr

def Cause.message : Cause → Text
  | segmentAndIndex kw => kw ++ " expects a segment and an index"
  | unknownSegment w => "unknown segment " ++ w.quoted
  | invalidIndex w => "invalid index " ++ w.quoted
  | pointerIndex i => "pointer index " ++ Text.ofNat i ++ " out of range 0..1"
  | tempIndex i => "temp index " ++ Text.ofNat i ++ " out of range 0..7"
  | popConstant => "cannot pop to the constant segment"
  | labelName kw => kw ++ " expects a label name"
  | invalidLabel w => "invalid label name " ++ w.quoted
  | nameAndCount kw => kw ++ " expects a name and a count"
  | invalidFunction w => "invalid function name " ++ w.quoted
  | staticFunction w => "function name " ++ w.quoted ++ " has the form of a static symbol"
  | noOperands kw => kw ++ " takes no operands"
  | unknownCommand w => "unknown command " ++ w.quoted

/-- A refused line: its number, what it holds apart from comment and margins, and the cause. -/
structure LineError where
  line : Int
  text : Text
  cause : Cause
  deriving DecidableEq, Repr

def LineError.message (e : LineError) : Text :=
  "vm: line " ++ Text.ofInt e.line ++ ": " ++ e.cause.message

def parseNumber (w : Text) : Except Cause Nat :=
  match Text.natUpTo? largestIndex w with
  | some n => .ok n
  | none => .error (.invalidIndex w)

/-- The segment and the index of a `push` or `pop`. -/
def parseCell (segment index : Text) : Except Cause (Segment × Nat) :=
  match Segment.ofName? segment with
  | none => .error (.unknownSegment segment)
  | some s =>
    match parseNumber index with
    | .error e => .error e
    | .ok i =>
      if s = .pointer ∧ 1 < i then .error (.pointerIndex i)
      else if s = .temp ∧ 7 < i then .error (.tempIndex i)
      else .ok (s, i)

def parseLabel (w : Text) : Except Cause Text :=
  if isIdentifier w then .ok w else .error (.invalidLabel w)

def parseFunction (name count : Text) : Except Cause (Text × Nat) :=
  if !isIdentifier name then .error (.invalidFunction name)
  else if hasStaticForm name then .error (.staticFunction name)
  else (parseNumber count).map fun n => (name, n)

/-- The command whose words are `keyword` and `operands`. -/
def parseWords (keyword : Text) (operands : List Text) : Except Cause Command :=
  if keyword = "push" then
    match operands with
    | [s, i] => (parseCell s i).map fun (s, i) => .push s i
    | _ => .error (.segmentAndIndex keyword)
  else if keyword = "pop" then
    match operands with
    | [s, i] =>
      match parseCell s i with
      | .error e => .error e
      | .ok (s, i) => if s = .constant then .error .popConstant else .ok (.pop s i)
    | _ => .error (.segmentAndIndex keyword)
  else if keyword = "label" then
    match operands with
    | [l] => (parseLabel l).map .label
    | _ => .error (.labelName keyword)
  else if keyword = "goto" then
    match operands with
    | [l] => (parseLabel l).map .goto
    | _ => .error (.labelName keyword)
  else if keyword = "if-goto" then
    match operands with
    | [l] => (parseLabel l).map .ifGoto
    | _ => .error (.labelName keyword)
  else if keyword = "function" then
    match operands with
    | [f, n] => (parseFunction f n).map fun (f, n) => .function f n
    | _ => .error (.nameAndCount keyword)
  else if keyword = "call" then
    match operands with
    | [f, n] => (parseFunction f n).map fun (f, n) => .call f n
    | _ => .error (.nameAndCount keyword)
  else if keyword = "return" then
    if operands.isEmpty then .ok .ret else .error (.noOperands keyword)
  else
    match Op.ofName? keyword with
    | none => .error (.unknownCommand keyword)
    | some op => if operands.isEmpty then .ok (.arithmetic op) else .error (.noOperands keyword)

/-- The command on a line, `none` if the line is blank or a comment. -/
def parseCommand (raw : Text) (number : Int) : Except LineError (Option Command) :=
  let code := raw.dropComment
  match code.words with
  | [] => .ok none
  | keyword :: operands =>
    match parseWords keyword operands with
    | .ok c => .ok (some c)
    | .error cause => .error ⟨number, code.trim, cause⟩

end HackStack.Vm
