import HackStack.Text.Basic

/-!
# Paths

A path names a place in a tree of directories. `Location` is the place itself, as the names on the
way from the root; `Location.ofPath` takes out dots and doubled slashes by the letter, without
looking at any directory.
-/

namespace HackStack.Files

def slash : UInt8 := 0x2F

/-- The names of a path, empty ones included. -/
def segments (path : Text) : List Text := path.splitOn slash

/-- A place in the tree: the names on the way from the root. -/
abbrev Location := List Text

namespace Location

def follow (l : Location) (name : Text) : Location :=
  if name = "" ∨ name = "." then l else if name = ".." then l.dropLast else l ++ [name]

/-- The place that the names of a path lead to from another place, one after the other. -/
def descend (l : Location) (path : Text) : Location := (segments path).foldl follow l

/-- The place that a path names from a working directory. -/
def ofPath (cwd : Location) (path : Text) : Location :=
  descend (if path.head? = some slash then [] else cwd) path

def path (l : Location) : Text :=
  match l with
  | [] => "/"
  | _ => l.flatMap fun name => slash :: name

/-- The last name on the way, a slash for the root. -/
def base (l : Location) : Text := l.getLast?.getD [slash]

def parent (l : Location) : Location := l.dropLast

end Location

/-- The last name in a path, trailing slashes aside; a dot for the empty path. -/
def baseName (path : Text) : Text :=
  if path.isEmpty then "." else ((segments path).filter (!·.isEmpty)).getLast?.getD [slash]

/-- The ending of a name: what follows its last dot, with the dot; empty if it has no dot. -/
def extension (name : Text) : Text :=
  let tail := name.reverse.takeWhile (· != 0x2E)
  if tail.length < name.length then 0x2E :: tail.reverse else []

end HackStack.Files
