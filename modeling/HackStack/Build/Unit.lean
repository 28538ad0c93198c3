import HackStack.Files.Tree
import HackStack.Text.Quoted
import HackStack.Vm.Name

/-!
# Units

A file is a unit, named by its name without ending; a directory stands for the units in it. The
name of a unit has to be an identifier, because it becomes part of assembler symbols.
-/

namespace HackStack.Build

open HackStack.Files

/-- A source file and its name. -/
structure Unit where
  name : Text
  path : Text
  deriving DecidableEq, Repr

/-- What is known of an input path. -/
structure InputPlace where
  location : Location
  isDirectory : Bool
  deriving DecidableEq, Repr

/-- Looks at an input path, dots and doubled slashes taken out. -/
def InputPlace.ofPath (files : Tree) (cwd : Location) (path : Text) : Except PathError InputPlace :=
  let l := Location.ofPath cwd path
  (files.stat cwd l.path).map fun e => ⟨l, decide (e = .directory)⟩

inductive ResolveError where
  | unreachable (path : Text) (e : PathError)
  | wrongExtension (path ext : Text)
  | invalidName (unit : Unit)
  | noUnits (path : Text)
  deriving DecidableEq, Repr

def noUnitsMessage : Text := "no translation units"

def ResolveError.message : ResolveError → Text
  | unreachable path e => "resolve " ++ path ++ ": " ++ e.message
  | wrongExtension path ext => "resolve " ++ path ++ ": not a " ++ ext ++ " file"
  | invalidName u =>
    "resolve " ++ u.path ++ ": unit name " ++ u.name.quoted ++ " is not a valid identifier"
  | noUnits path => "resolve " ++ path ++ ": " ++ noUnitsMessage

/-- The units among the names of a directory, in order; a name that is no identifier ends it. -/
def unitsIn (l : Location) (ext : Text) (found : Array Unit) :
    List (Text × Bool) → Except ResolveError (List Unit)
  | [] => .ok found.toList
  | (name, isDirectory) :: rest =>
    if isDirectory || extension name != ext then unitsIn l ext found rest
    else
      let u : Unit := ⟨name.dropEnding ext, (l ++ [name] : Location).path⟩
      if Vm.isIdentifier u.name then unitsIn l ext (found.push u) rest
      else .error (.invalidName u)

/-- The units that an input path stands for, and the path of the output that belongs to them: for a
file, the same name with the ending `.asm`; for a directory, a file in it with its name. -/
def resolve (files : Tree) (cwd : Location) (path ext : Text) :
    Except ResolveError (List Unit × Text) :=
  match InputPlace.ofPath files cwd path with
  | .error e => .error (.unreachable path e)
  | .ok ⟨l, false⟩ =>
    if extension l.base != ext then .error (.wrongExtension path ext)
    else
      let u : Unit := ⟨l.base.dropEnding ext, l.path⟩
      if Vm.isIdentifier u.name then .ok ([u], l.path.dropEnding ext ++ ".asm")
      else .error (.invalidName u)
  | .ok ⟨l, true⟩ =>
    match unitsIn l ext #[] (files.list l) with
    | .error e => .error e
    | .ok [] => .error (.noUnits path)
    | .ok units => .ok (units, (l.descend (l.base ++ ".asm")).path)

end HackStack.Build
