import HackStack.Command.Flag
import HackStack.Files.Tree

/-!
# Commands

A command is a function from what it is given to what it leaves behind.
-/

namespace HackStack.Command

open HackStack.Files

/-- What a command is given. -/
structure Invocation where
  args : List Text
  stdin : Text
  files : Tree
  /-- The working directory. -/
  cwd : Location
  /-- The user's own directory as a path. -/
  home : Text

/-- What a command leaves behind. -/
structure Completion where
  exit : Nat
  stdout : Text
  stderr : Text
  files : Tree

/-- Reads the flags of a command and goes on with them; a fault in the flags ends with status 2. -/
def withFlags (program : Text) (known : List Flag) (i : Invocation)
    (next : List (Text × Value) → List Text → Completion) : Completion :=
  match parseFlags known #[] i.args with
  | .ok given rest => next given rest
  | .help => ⟨0, [], usage program known, i.files⟩
  | .error e => ⟨2, [], e.message ++ "\n" ++ usage program known, i.files⟩

end HackStack.Command
