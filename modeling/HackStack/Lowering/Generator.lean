import HackStack.Lowering.Block

/-!
# The state of code generation

A generator holds the assembly code of the commands so far. It counts the instructions, which gives
the program address of the next one, and it follows the functions to know in which scope a label
stands. Several units share one generator.
-/

namespace HackStack.Lowering

open HackStack.Assembly
open HackStack.Vm

/-- The function that the start-up code calls unless told otherwise. -/
def standardEntry : Text := "Sys.init"

/-- The unit that commands belong to before a unit is named. -/
def standardUnit : Text := "Sys"

/-- What a generator is to generate. -/
structure Options where
  /-- Whether the code starts by setting up the stack and calling `entry`. -/
  bootstrap : Bool
  /-- The function that the start-up code calls; the default one if empty. -/
  entry : Text
  /-- Whether the comment before each command's code is left out. -/
  uncommented : Bool
  deriving DecidableEq, Repr

/-- The state of code generation. -/
structure Generator where
  uncommented : Bool
  /-- The unit whose commands are being generated. -/
  unit : Text
  /-- The functions that have started and not ended, innermost first. -/
  openFunctions : List Text
  /-- The function that a `return` has ended, until the next function or unit starts. -/
  closedFunction : Option Text
  /-- How many calls have been generated. -/
  calls : Nat
  /-- How many instructions have been generated. -/
  counter : Nat
  /-- The code so far. -/
  code : Array Line

namespace Generator

/-- The scope of a label: the function that has just ended, as code after an early `return` still
belongs to it; else the innermost open function; else the unit. -/
def scope (e : Generator) : Text :=
  match e.closedFunction with
  | some f => f
  | none => e.openFunctions.head?.getD e.unit

def enterUnit (e : Generator) (name : Text) : Generator :=
  { e with unit := name, closedFunction := none }

/-- Ends the innermost open function, unless a function has ended already. A function without a
name leaves no trace. -/
def closeFunction (e : Generator) : Generator :=
  match e.closedFunction, e.openFunctions with
  | none, f :: rest =>
    { e with openFunctions := rest, closedFunction := if f.isEmpty then none else some f }
  | _, _ => e

def initial (options : Options) : Generator :=
  { uncommented := options.uncommented, unit := standardUnit, openFunctions := [],
    closedFunction := none, calls := 0, counter := 0, code := #[] }

def text (e : Generator) : Text := render e.code.toList

end Generator

end HackStack.Lowering
