import HackStack.Command.Basic
import HackStack.Repl.History
import HackStack.Repl.Session

/-!
# Entering commands

The command reads lines, shows what a session makes of each and keeps their history in a file.
-/

namespace HackStack.Command

open HackStack.Files
open HackStack.Repl

def interactName : Text := "vmrepl"

def banner : Text := "hackvm repl. Type VM commands, :help for more, :quit to exit.\n"

def prompt : Text := "vm> "

/-- The name of the file with the history, in the user's own directory. -/
def historyName : Text := ".hackvm_history"

/-- What entering commands has come to. -/
structure Dialogue where
  session : Session
  history : History
  /-- What has been shown, the latest first. -/
  shown : List Text
  /-- The faults that have been reported, the latest first. -/
  faults : List Text

/-- Carries out one line that is not blank; also tells whether it quits. -/
def Dialogue.enter (d : Dialogue) (line : Text) : Dialogue × Bool :=
  let history := History.add d.history line
  match d.session.eval line with
  | (s, .ok (.shows out)) => (⟨s, history, out :: d.shown, d.faults⟩, false)
  | (s, .ok .quits) => (⟨s, history, d.shown, d.faults⟩, true)
  | (s, .error e) => (⟨s, history, d.shown, (e.message ++ "\n") :: d.faults⟩, false)

/-- Carries out lines until one quits or the input ends, which a line feed shows. -/
def Dialogue.run (d : Dialogue) : List InputLine → Dialogue
  | [] => { d with shown := (prompt ++ "\n") :: d.shown }
  | line :: rest =>
    let d := { d with shown := prompt :: d.shown }
    if line.text.trim.isEmpty then d.run rest
    else
      match d.enter line.text with
      | (d, true) => d
      | (d, false) => d.run rest

def interact (i : Invocation) : Completion :=
  let path := (Location.ofPath i.cwd i.home ++ [historyName] : Location).path
  let history := match i.files.readFile i.cwd path with
    | .ok content => History.ofText content
    | .error _ => #[]
  let d := Dialogue.run ⟨Session.new ⟨false, [], false⟩, history, [banner], []⟩ (inputLines i.stdin)
  let files := match i.files.creatable i.cwd path with
    | .ok l => i.files.put l (.file (History.text d.history))
    | .error _ => i.files
  ⟨0, d.shown.reverse.flatten, d.faults.reverse.flatten, files⟩

end HackStack.Command
