import HackStack.Lowering.Generator
import HackStack.Lowering.Request

/-!
# Code generation

Code is emitted line by line. Each instruction is counted as it is appended, and the next one may
depend on the count. A request that cannot be served is noticed on the way: the fault ends the
emission there, and what has been emitted stays.
-/

namespace HackStack.Lowering

open HackStack.Assembly
open HackStack.Vm

/-- A part of code generation. A fault ends it and leaves the state as it is at that point. -/
abbrev Emitter := ExceptT Fault (StateM Generator)

namespace Emitter

/-- The outcome of an emission, and the state after it. -/
def on {α : Type} (m : Emitter α) (e : Generator) : Except Fault α × Generator :=
  StateT.run (ExceptT.run m) e

def instruction (i : Instruction) : Emitter Unit :=
  modify fun e => { e with counter := e.counter + 1, code := e.code.push (.instruction i) }

def instructions (code : List Instruction) : Emitter Unit := code.forM instruction

def label (name : Text) : Emitter Unit :=
  modify fun e => { e with code := e.code.push (.label name) }

def comment (text : Text) : Emitter Unit :=
  modify fun e => { e with code := e.code.push (.comment text) }

/-! ## Operations -/

/-- Makes `D` the truth value of a condition on its sign. The places in the block that are jumped to
are computed from the counter. -/
def truth (jump : Jump) : Emitter Unit := do
  let start := (← get).counter
  instructions (truthBlock start jump)
  unless (← get).counter = start + truthLength do
    throw .truthDrifted

def comparison (jump : Jump) : Emitter Unit := do
  instructions popToD
  instructions topCell
  instruction (.setD .mMinusD)
  truth jump
  instructions topCell
  instruction (.setM .d)

def arithmetic (op : Int) : Emitter Unit :=
  match Op.ofCode? op with
  | some .neg => instructions (unaryBlock .negM)
  | some .not => instructions (unaryBlock .notM)
  | some .add => instructions (binaryBlock .dPlusM)
  | some .sub => instructions (binaryBlock .mMinusD)
  | some .and => instructions (binaryBlock .dAndM)
  | some .or => instructions (binaryBlock .dOrM)
  | some .eq => comparison .jeq
  | some .gt => comparison .jgt
  | some .lt => comparison .jlt
  | none => throw (.unknownOp op)

/-! ## Segments -/

/-- The register that holds the address of a segment's first word. -/
def baseRegister? : Segment → Option Text
  | .local => some "LCL"
  | .argument => some "ARG"
  | .this => some "THIS"
  | .that => some "THAT"
  | _ => none

/-- The address of a word that has one of its own. -/
def fixedAddress (segment index : Int) : Emitter Operand :=
  match Segment.ofCode? segment with
  | some .temp =>
    if 0 ≤ index ∧ index ≤ 7 then pure (.number (tempStart + index)) else throw (.tempIndex index)
  | some .pointer =>
    if 0 ≤ index ∧ index ≤ 1 then pure (.number (pointerStart + index))
    else throw (.pointerIndex index)
  | some .static => return .symbol (cellSymbol (← get).unit index)
  | _ => throw (.unknownSegment segment)

/-- Loads a word of a segment into `D`. -/
def loadWord (segment index : Int) : Emitter Unit :=
  match (Segment.ofCode? segment).bind baseRegister? with
  | some base => instructions [.symbol base, .setD .m, .number index, .setA .dPlusA, .setD .m]
  | none =>
    if segment = Segment.constant.code then instructions [.number index, .setD .a]
    else do
      instruction (.load (← fixedAddress segment index))
      instruction (.setD .m)

/-- Loads the address of a word of a segment into `D`. -/
def loadAddress (segment index : Int) : Emitter Unit :=
  if segment = Segment.constant.code then throw .popConstant
  else
    match (Segment.ofCode? segment).bind baseRegister? with
    | some base => instructions [.symbol base, .setD .m, .number index, .setD .dPlusA]
    | none => do
      instruction (.load (← fixedAddress segment index))
      instruction (.setD .a)

def push (segment index : Int) : Emitter Unit := do
  loadWord segment index
  instructions pushFromD

/-- Pops a word to a segment. The address is computed, and kept in `R13`, before `SP` moves. -/
def pop (segment index : Int) : Emitter Unit := do
  loadAddress segment index
  instructions [.symbol "R13", .setM .d]
  instructions popToD
  instructions [.symbol "R13", .setA .m, .setM .d]

/-! ## Branches and functions -/

def call (name : Text) (args : Int) : Emitter Unit := do
  let e ← get
  let back := returnSymbol e.scope e.calls
  modify fun e => { e with calls := e.calls + 1 }
  instructions (callCode back name args)
  label back

def function (name : Text) (locals : Int) : Emitter Unit := do
  modify fun e => { e with openFunctions := name :: e.openFunctions, closedFunction := none }
  label name
  instructions (functionCode locals)

def ret : Emitter Unit := do
  instructions returnBlock
  modify Generator.closeFunction

/-! ## Requests -/

/-- Serves a request without a comment. -/
def serve : Request → Emitter Unit
  | .nothing => throw (.noCommand false)
  | .arithmetic op => arithmetic op
  | .push segment index => push segment index
  | .pop segment index => pop segment index
  | .label name => do label (labelSymbol (← get).scope name)
  | .goto name => do instructions (gotoBlock (labelSymbol (← get).scope name))
  | .ifGoto name => do instructions (ifGotoBlock (labelSymbol (← get).scope name))
  | .call name args => call name args
  | .function name locals => function name locals
  | .ret => ret

/-- Emits a comment unless comments are left out. -/
def remark (text : Text) : Emitter Unit := do
  unless (← get).uncommented do
    comment text

/-- Emits the comment of a request, unless comments are left out. There is none without a
command. -/
def describe (r : Request) : Emitter Unit := do
  unless (← get).uncommented do
    match r.text? with
    | some text => comment text
    | none => throw (.noCommand true)

/-- Serves a request after its comment, which stays if the request has a fault. -/
def serveDescribed (r : Request) : Emitter Unit := do
  describe r
  serve r

def start (entry : Text) : Emitter Unit := do
  remark "bootstrap"
  instructions startBlock
  serveDescribed (.call entry 0)

end Emitter

namespace Generator

/-- The state after an emission, and the fault that has ended it. -/
def emission (e : Generator) (m : Emitter Unit) : Generator × Option Fault :=
  match m.on e with
  | (.ok _, e) => (e, none)
  | (.error fault, e) => (e, some fault)

def serve (e : Generator) (r : Request) : Generator × Option Fault :=
  e.emission (Emitter.serve r)

def serveDescribed (e : Generator) (r : Request) : Generator × Option Fault :=
  e.emission (Emitter.serveDescribed r)

def generate (e : Generator) (c : Command) : Generator × Option Fault := e.serve (.ofCommand c)

/-- Generates a command after its comment. -/
def write (e : Generator) (c : Command) : Generator × Option Fault :=
  e.serveDescribed (.ofCommand c)

def writeAll (e : Generator) (cs : List Command) : Generator :=
  cs.foldl (fun e c => (e.write c).1) e

/-- A new generator, which has generated the start-up code if it is to. -/
def new (options : Options) : Generator :=
  if options.bootstrap then
    let entry := if options.entry.isEmpty then standardEntry else options.entry
    ((initial options).emission (Emitter.start entry)).1
  else initial options

end Generator

end HackStack.Lowering
