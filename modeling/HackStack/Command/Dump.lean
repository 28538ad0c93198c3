import HackStack.Command.Basic
import HackStack.Lowering.Emitter
import HackStack.Vm.Source

/-!
# Showing the stages of a build

The command shows a source, its commands and their code.
-/

namespace HackStack.Command

open HackStack.Lowering
open HackStack.Files

def dumpName : Text := "vmdump"

def dumpFlags : List Flag := [⟨"bootstrap", .switch, "prepend the bootstrap"⟩]

/-- The source that is shown if none is given. -/
def sampleSource : Text :=
  "function Sys.init 0\npush constant 2\npush constant 3\nadd\nlabel HALT\ngoto HALT\n"

def commandLine (c : Vm.Command) : Text := "  " ++ c.text ++ "\n"

/-- Shows the stages of a source. -/
def dumpSource (bootstrap : Bool) (unit src : Text) (files : Tree) : Completion :=
  let shown := "Source:\n" ++ src ++ "\n"
  match Vm.parse src with
  | .error e => ⟨1, shown, "parse error: " ++ e.message ++ "\n", files⟩
  | .ok cs =>
    let e := ((Generator.new ⟨bootstrap, [], false⟩).enterUnit unit).writeAll cs
    let shown := shown ++ "Commands (" ++ Text.ofNat cs.length ++ ")\n" ++ cs.flatMap commandLine ++
      "\nGenerated Assembly\n" ++ e.text ++ "\nunit " ++ unit ++ ": " ++ Text.ofNat e.counter ++
      " instructions\n"
    ⟨0, shown, [], files⟩

def dump (i : Invocation) : Completion :=
  withFlags dumpName dumpFlags i fun given rest =>
    let bootstrap := (switch? given "bootstrap").getD false
    match rest with
    | [] => dumpSource bootstrap standardUnit sampleSource i.files
    | path :: _ =>
      match i.files.readFile i.cwd path with
      | .error e => ⟨1, [], "read error: " ++ e.message ++ "\n", i.files⟩
      | .ok src =>
        let base := baseName path
        dumpSource bootstrap (base.dropEnding (extension base)) src i.files

end HackStack.Command
