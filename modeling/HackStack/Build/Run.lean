import HackStack.Build.Unit
import HackStack.Log.Record
import HackStack.Lowering.Program
import HackStack.Lowering.Sink
import HackStack.Settings.Basic

/-!
# Builds

A build parses all units first and then writes their code to one output. Either the whole code is
written or the build fails; a unit that cannot be read or parsed leaves the output alone.

A build has two results, its reports and its error. An output that was created is closed in the end,
whatever the results are by then, and a failure to close it may still change them.
-/

namespace HackStack.Build

open HackStack.Lowering
open HackStack.Log
open HackStack.Vm

/-- A failure of the surroundings; `missing` tells whether a file was not there. -/
structure Failure where
  message : Text
  missing : Bool
  deriving DecidableEq, Repr

/-- What a build reads from and writes to. -/
structure Surroundings where
  /-- The text of a source file. -/
  source : Text → Except Failure Text
  /-- Why the output cannot be created, if it cannot. -/
  createFailure : Text → Option Failure
  /-- The limit of the output, if it has one. -/
  limit : Option Limit
  /-- Why the output cannot be closed, if it cannot. -/
  closeFailure : Option Text

/-- How many commands and instructions a unit has. -/
structure Report where
  name : Text
  path : Text
  commands : Int
  instructions : Int
  deriving DecidableEq, Repr

inductive BuildError where
  | noUnits
  | unopened (f : Failure)
  | unparsed (path : Text) (e : SourceError)
  | uncreated (path : Text) (f : Failure)
  | unwritten (path reason : Text)
  | unclosed (path reason : Text)
  deriving DecidableEq, Repr

def BuildError.message : BuildError → Text
  | noUnits => noUnitsMessage
  | unopened f => f.message
  | unparsed path e => "translate " ++ path ++ ": " ++ e.message
  | uncreated path f => "create " ++ path ++ ": " ++ f.message
  | unwritten path reason => "flush " ++ path ++ ": " ++ reason
  | unclosed path reason => "close " ++ path ++ ": " ++ reason

structure ParsedUnit where
  unit : Unit
  commands : List Command

/-- Reads and parses units in order after those in `found`; the first that fails ends it. -/
def parseUnits (source : Text → Except Failure Text) (found : Array ParsedUnit) :
    List Unit → Except BuildError (List ParsedUnit)
  | [] => .ok found.toList
  | u :: rest =>
    match source u.path with
    | .error f => .error (.unopened f)
    | .ok src =>
      match parse src with
      | .error e => .error (.unparsed u.path e)
      | .ok cs => parseUnits source (found.push ⟨u, cs⟩) rest

/-- What generating code has come to. -/
structure Work where
  generator : Generator
  log : Array Record
  reports : Array Report

def commandRecord (unit : Text) (e : Generator) (c : Command) : Record :=
  ⟨.trace, "command", [("unit", unit), ("pc", Text.ofNat e.counter), ("cmd", c.text)]⟩

def unitRecord (r : Report) : Record :=
  ⟨.debug, "translated unit",
    [("unit", r.name), ("commands", Text.ofInt r.commands),
      ("instructions", Text.ofInt r.instructions)]⟩

def outputRecord (path : Text) (units instructions : Nat) : Record :=
  ⟨.info, "wrote output",
    [("path", path), ("units", Text.ofNat units), ("instructions", Text.ofNat instructions)]⟩

def writeCommand (unit : Text) (s : Generator × Array Record) (c : Command) :
    Generator × Array Record :=
  let (e, log) := s
  let record := commandRecord unit e c
  ((e.write c).1, log.push record)

/-- Generates a unit, records it and reports on it. -/
def writeUnit (w : Work) (p : ParsedUnit) : Work :=
  let e := w.generator.enterUnit p.unit.name
  let start := e.counter
  let (e, log) := p.commands.foldl (writeCommand p.unit.name) (e, w.log)
  let report : Report :=
    ⟨p.unit.name, p.unit.path, p.commands.length, (e.counter - start : Nat)⟩
  ⟨e, log.push (unitRecord report), w.reports.push report⟩

/-- Generates units one after another with a new generator. -/
def writeUnits (options : Options) (units : List ParsedUnit) : Work :=
  units.foldl writeUnit ⟨Generator.new options, #[], #[]⟩

/-! ## Results and effects -/

structure Results where
  reports : List Report
  error : Option BuildError
  deriving DecidableEq, Repr

/-- What a build has done so far. -/
structure Effects where
  /-- The paths that were to be created. -/
  created : List Text
  /-- How often the output was closed. -/
  closed : Nat
  log : List Record
  /-- What the output has taken. -/
  written : Text

def Effects.none : Effects := ⟨[], 0, [], []⟩

structure Outcome extends Results, Effects

/-- The reports of a build that succeeds, or else its error. -/
def Outcome.result (o : Outcome) : Except BuildError (List Report) :=
  match o.error with
  | some e => .error e
  | .none => .ok o.reports

abbrev Building := StateM Effects

namespace Building

/-- What comes of a build from its beginning. -/
def outcome (m : Building Results) : Outcome :=
  let (results, effects) := m.run .none
  ⟨results, effects⟩

def record (log : List Record) : Building PUnit :=
  modify fun t => { t with log := t.log ++ log }

/-- Creates the output, or gives the failure. -/
def create (s : Surroundings) (path : Text) : Building (Option Failure) := do
  modify fun t => { t with created := t.created ++ [path] }
  return s.createFailure path

/-- Sends the code to the output, which takes what it has room for, and gives the reason if that is
not all. -/
def send (s : Surroundings) (code : Text) : Building (Option Text) :=
  match s.limit.filter fun limit => limit.isExceeded code.length with
  | some limit => do
    modify fun t => { t with written := t.written ++ code.take limit.room.toNat }
    return some limit.reason
  | none => do
    modify fun t => { t with written := t.written ++ code }
    return none

/-- Closes the output, or gives the reason why it cannot be closed. -/
def close (s : Surroundings) : Building (Option Text) := do
  modify fun t => { t with closed := t.closed + 1 }
  return s.closeFailure

def write (s : Surroundings) (options : Options) (units : List ParsedUnit) (out : Text) :
    Building Results := do
  let w := writeUnits options units
  record w.log.toList
  match ← send s w.generator.text with
  | some reason => return ⟨[], some (.unwritten out reason)⟩
  | none =>
    record [outputRecord out units.length w.generator.counter]
    return ⟨w.reports.toList, none⟩

/-- Closes the output after a build with the given results. A failure to close it counts if nothing
has failed before. -/
def finish (s : Surroundings) (out : Text) (results : Results) : Building Results := do
  match ← close s, results.error with
  | some reason, none => return ⟨[], some (.unclosed out reason)⟩
  | _, _ => return results

end Building

/-- Creates the output, writes the code of parsed units to it and closes it. -/
def emitUnits (s : Surroundings) (options : Options) (units : List ParsedUnit) (out : Text) :
    Building Results := do
  match ← Building.create s out with
  | some f => return ⟨[], some (.uncreated out f)⟩
  | none => Building.finish s out (← Building.write s options units out)

def build (s : Surroundings) (options : Options) (units : List Unit) (out : Text) : Outcome :=
  if units.isEmpty then ⟨⟨[], some .noUnits⟩, .none⟩
  else
    match parseUnits s.source #[] units with
    | .error e => ⟨⟨[], some e⟩, .none⟩
    | .ok parsed => (emitUnits s options parsed out).outcome

end HackStack.Build
