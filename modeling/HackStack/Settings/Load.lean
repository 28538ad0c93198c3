import HackStack.Files.Tree
import HackStack.Settings.Document

/-!
# Settings in a file

Reading the settings from a YAML file.
-/

namespace HackStack.Settings

open HackStack.Files

inductive LoadError where
  | unopened (e : PathError)
  | unreadable (path : Text) (e : PathError)
  | document (path : Text) (e : DocumentError)
  | faulty (path : Text) (f : Fault)
  deriving DecidableEq, Repr

def LoadError.message : LoadError → Text
  | unopened e => "config: " ++ e.message
  | unreadable path e => "config " ++ path ++ ": yaml: input error: " ++ e.message
  | document path e => "config " ++ path ++ ": " ++ e.message
  | faulty path f => "config " ++ path ++ ": " ++ f.message

def load (files : Tree) (cwd : Location) (path : Text) : Except LoadError Settings :=
  match files.openFile cwd path with
  | .error e => .error (.unopened e)
  | .ok .directory => .error (.unreadable path ⟨"read", path, .isDirectory⟩)
  | .ok (.file content) =>
    match ofText content with
    | .error e => .error (.document path e)
    | .ok c =>
      match c.fault? with
      | some f => .error (.faulty path f)
      | none => .ok c

end HackStack.Settings
