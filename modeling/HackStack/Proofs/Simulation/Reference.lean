import Mathlib.Algebra.Ring.Nat
import HackStack.Machine.Word
import HackStack.Vm.Command

/-!
# The stack machine

The meaning of a program of several units, without any memory layout. A unit is a name and a list of
commands; the functions of all units are the `routines` of the program. A state has a list of
frames, each with its own arguments, locals and operand stack, the static variables by unit and
index, eight temp words and a heap.

`State.step` executes one command. It has no result, a fault, if an operand is missing, a local or
argument does not exist, `this` or `that` leads out of the heap, the stack would need a cell beyond
`stackEnd`, or control falls off the end of a function. Words are 16 bits wide and arithmetic wraps;
a comparison is decided by the sign of the difference.
-/

namespace HackStack.Vm

open HackStack.Machine

/-! ## Programs -/

/-- A function of a program. -/
structure Routine where
  unit : Text
  name : Text
  /-- How many local words it has. -/
  locals : Nat
  body : List Command
  deriving DecidableEq, Repr

/-- The commands of a unit before its first function, and its functions. -/
def splitRoutines (unit : Text) : List Command → List Command × List Routine
  | [] => ([], [])
  | .function name locals :: rest =>
    let (body, later) := splitRoutines unit rest
    ([], ⟨unit, name, locals.toNat, body⟩ :: later)
  | c :: rest =>
    let (body, later) := splitRoutines unit rest
    (c :: body, later)

def routines (units : List (Text × List Command)) : List Routine :=
  units.flatMap fun u => (splitRoutines u.1 u.2).2

/-- A place in a program: a command of a function, both by number. -/
structure Point where
  routine : Nat
  index : Nat
  deriving DecidableEq, Repr

def Point.next (p : Point) : Point := ⟨p.routine, p.index + 1⟩

/-! ## States -/

/-- The first address of the stack. -/
def stackBegin : Nat := 256

/-- The first address behind the stack, where the heap begins. -/
def stackEnd : Nat := 2048

/-- The first address behind the heap. -/
def heapEnd : Nat := 0x8000

/-- A function call that has not returned. -/
structure Frame where
  args : List Word
  locals : List Word
  this : Word
  that : Word
  /-- The operands, the topmost first. -/
  stack : List Word
  /-- Where the caller goes on; `none` is the start-up code. -/
  back : Option Point
  deriving DecidableEq, Repr

/-- How many cells of the stack a call takes: its words, and five that are saved for the caller. -/
def Frame.size (f : Frame) : Nat := f.args.length + 5 + f.locals.length + f.stack.length

structure State where
  /-- The command to execute; `none` once the entry function has returned. -/
  point : Option Point
  /-- The calls that have not returned, innermost first. -/
  frames : List Frame
  /-- What has been returned to the start-up code. -/
  results : List Word
  statics : Text → Nat → Word
  temps : Vector Word 8
  heap : Nat → Word

def State.used (s : State) : Nat := s.results.length + (s.frames.map Frame.size).sum

def State.checked (s : State) : Option State :=
  if stackBegin + s.used ≤ stackEnd then some s else none

/-! ## Words -/

def truth (b : Bool) : Word := if b then -1 else 0

/-- The result of an operation on the topmost word `y` and the word `x` below it. -/
def Op.result (x y : Word) : Op → Word
  | .add => x + y
  | .sub => x - y
  | .and => x &&& y
  | .or => x ||| y
  | .neg => -y
  | .not => ~~~y
  | .eq => truth (x - y == 0)
  | .gt => truth (!(x - y).msb && x - y != 0)
  | .lt => truth (x - y).msb

/-- An operation on an operand stack. -/
def Op.apply (op : Op) : List Word → Option (List Word)
  | [] => none
  | y :: rest =>
    if op.isUnary then some (op.result 0 y :: rest)
    else
      match rest with
      | [] => none
      | x :: rest => some (op.result x y :: rest)

def heapAddress (base : Word) (index : Nat) : Option Nat :=
  let address := (base + BitVec.ofNat 16 index).toNat
  if stackEnd ≤ address ∧ address < heapEnd then some address else none

namespace State

/-- The word at an index of a segment, as the call `f` in a unit sees it. -/
def read (s : State) (f : Frame) (unit : Text) (segment : Segment) (i : Nat) : Option Word :=
  match segment with
  | .constant => some (BitVec.ofNat 16 i)
  | .local => f.locals[i]?
  | .argument => f.args[i]?
  | .this => (heapAddress f.this i).map s.heap
  | .that => (heapAddress f.that i).map s.heap
  | .temp => s.temps[i]?
  | .pointer => [f.this, f.that][i]?
  | .static => some (s.statics unit i)

def setHeap (s : State) (v : Word) (address : Nat) : State :=
  { s with heap := fun a => if a = address then v else s.heap a }

/-- The state in which the word at an index of a segment is `v`. The innermost call is `f`. -/
def write (s : State) (f : Frame) (callers : List Frame) (unit : Text) (segment : Segment) (i : Nat)
    (v : Word) : Option State :=
  match segment with
  | .constant => none
  | .local =>
    if i < f.locals.length then
      some { s with frames := { f with locals := f.locals.set i v } :: callers }
    else none
  | .argument =>
    if i < f.args.length then some { s with frames := { f with args := f.args.set i v } :: callers }
    else none
  | .this => (heapAddress f.this i).map (s.setHeap v)
  | .that => (heapAddress f.that i).map (s.setHeap v)
  | .temp => if h : i < 8 then some { s with temps := s.temps.set i v h } else none
  | .pointer =>
    if i = 0 then some { s with frames := { f with this := v } :: callers }
    else if i = 1 then some { s with frames := { f with that := v } :: callers }
    else none
  | .static =>
    some { s with statics := fun u j => if u = unit ∧ j = i then v else s.statics u j }

/-- The start of a call: the callee's frame, with its locals cleared, and its first command. -/
def enter (s : State) (program : List Routine) (name : Text) (args : List Word) (this that : Word)
    (callers : List Frame) (back : Option Point) : Option State := do
  let r ← program.findIdx? fun routine => routine.name = name
  let routine ← program[r]?
  checked
    { s with
      point := some ⟨r, 0⟩
      frames := ⟨args, List.replicate routine.locals 0, this, that, [], back⟩ :: callers }

/-- Executes the command `c` at the place `p` of `routine`. The innermost call is `f`. -/
def execute (s : State) (program : List Routine) (routine : Routine) (p : Point) (f : Frame)
    (callers : List Frame) : Command → Option State
  | .arithmetic op => do
    let stack ← op.apply f.stack
    some { s with point := some p.next, frames := { f with stack } :: callers }
  | .push segment i => do
    let v ← s.read f routine.unit segment i.toNat
    checked { s with point := some p.next, frames := { f with stack := v :: f.stack } :: callers }
  | .pop segment i =>
    match f.stack with
    | [] => none
    | v :: rest =>
      let f := { f with stack := rest }
      write { s with point := some p.next, frames := f :: callers } f callers routine.unit segment
        i.toNat v
  | .label _ => some { s with point := some p.next }
  | .goto name => do
    let target ← routine.body.idxOf? (.label name)
    some { s with point := some ⟨p.routine, target⟩ }
  | .ifGoto name =>
    match f.stack with
    | [] => none
    | v :: rest => do
      let target ← routine.body.idxOf? (.label name)
      some
        { s with
          point := some (if v = 0 then p.next else ⟨p.routine, target⟩)
          frames := { f with stack := rest } :: callers }
  | .call name n =>
    if n.toNat ≤ f.stack.length then
      s.enter program name (f.stack.take n.toNat).reverse f.this f.that
        ({ f with stack := f.stack.drop n.toNat } :: callers) (some p.next)
    else none
  | .function _ _ => none
  | .ret =>
    match f.stack, callers with
    | [], _ => none
    | v :: _, [] => some { s with point := f.back, frames := [], results := v :: s.results }
    | v :: _, g :: outer =>
      some { s with point := f.back, frames := { g with stack := v :: g.stack } :: outer }

/-- Executes one command. -/
def step (program : List Routine) (s : State) : Option State := do
  let p ← s.point
  let routine ← program[p.routine]?
  let c ← routine.body[p.index]?
  match s.frames with
  | [] => none
  | f :: callers => s.execute program routine p f callers c

/-- The state in which the start-up code has called the entry function. -/
def start (program : List Routine) (entry : Text) : Option State :=
  enter ⟨none, [], [], fun _ _ => 0, Vector.replicate 8 0, fun _ => 0⟩ program entry [] 0 0 [] none

def after (program : List Routine) (entry : Text) : Nat → Option State
  | 0 => start program entry
  | n + 1 => (after program entry n).bind (step program)

end State

end HackStack.Vm
