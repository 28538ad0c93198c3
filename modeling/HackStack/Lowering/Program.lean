import HackStack.Lowering.Emitter
import HackStack.Vm.Source

/-!
# Programs of several units

A program is a list of named sources. One generator generates the code of all of them in order.
-/

namespace HackStack.Lowering

open HackStack.Vm

/-- Generates a unit from its commands and counts its instructions. -/
def Generator.writeUnit (e : Generator) (name : Text) (cs : List Command) : Generator × Nat :=
  let start := e.counter
  let e := (e.enterUnit name).writeAll cs
  (e, e.counter - start)

/-- Generates further units after the instruction counts `counts`; the first source that cannot be
parsed ends it. -/
def Generator.writeSources (e : Generator) (counts : Array Nat) :
    List (Text × Text) → Except SourceError (Generator × List Nat)
  | [] => .ok (e, counts.toList)
  | (name, src) :: rest =>
    match parse src with
    | .error err => .error err
    | .ok cs =>
      let (e, n) := e.writeUnit name cs
      e.writeSources (counts.push n) rest

/-- The generator after all units, given by name and source, and the instruction count of each. -/
def generateUnits (options : Options) (units : List (Text × Text)) :
    Except SourceError (Generator × List Nat) :=
  (Generator.new options).writeSources #[] units

end HackStack.Lowering
