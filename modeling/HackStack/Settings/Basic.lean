import HackStack.Log.Level
import HackStack.Lowering.Generator
import HackStack.Text.Quoted
import HackStack.Vm.Name

/-!
# Settings

The settings of a build and the conditions that they have to meet.
-/

namespace HackStack

structure Settings where
  /-- Whether the code starts by setting up the stack and calling `entry`. -/
  bootstrap : Bool
  entry : Text
  /-- Whether each command's code follows a comment with the command. -/
  comments : Bool
  /-- The ending of source files, its dot included. -/
  extension : Text
  /-- Whether each built unit is logged. -/
  verbose : Bool
  /-- The level of the log by name; empty if `verbose` decides. -/
  logLevel : Text
  deriving DecidableEq, Repr

namespace Settings

def standard : Settings :=
  { bootstrap := false, entry := Lowering.standardEntry, comments := true, extension := ".vm",
    verbose := false, logLevel := "" }

inductive Fault where
  | invalidEntry (entry : Text)
  | invalidExtension (extension : Text)
  | invalidLevel (level : Text)
  deriving DecidableEq, Repr

def Fault.message : Fault → Text
  | invalidEntry t => "invalid entry function " ++ t.quoted
  | invalidExtension t => "invalid extension " ++ t.quoted
  | invalidLevel t => "invalid log level " ++ t.quoted

def isExtension (t : Text) : Bool := t.head? == some 0x2E && 2 ≤ t.length

/-- The first fault of the settings: the entry, the extension and the log level are looked at in
this order. -/
def fault? (c : Settings) : Option Fault :=
  if !Vm.isFunctionName c.entry then some (.invalidEntry c.entry)
  else if !isExtension c.extension then some (.invalidExtension c.extension)
  else if !c.logLevel.isEmpty && (Log.Level.ofWord? c.logLevel).isNone then
    some (.invalidLevel c.logLevel)
  else none

def level (c : Settings) : Log.Level :=
  match Log.Level.ofWord? c.logLevel with
  | some l => l
  | none => if c.verbose then .debug else .info

def options (c : Settings) : Lowering.Options := ⟨c.bootstrap, c.entry, !c.comments⟩

end Settings

end HackStack
