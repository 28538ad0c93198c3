import HackStack.Files.Path

/-!
# A tree of files

The files and directories that a command sees. Paths are followed name by name, as a system does:
every name on the way has to exist and to be a directory.
-/

namespace HackStack.Files

/-- What a place in the tree holds. -/
inductive Entry where
  | file (content : Text)
  | directory
  deriving DecidableEq

/-- Why a place cannot be reached or used. -/
inductive Reason where
  | notFound
  | notDirectory
  | isDirectory
  | nameTooLong
  | invalidArgument
  deriving DecidableEq, Repr

def Reason.message : Reason → Text
  | notFound => "no such file or directory"
  | notDirectory => "not a directory"
  | isDirectory => "is a directory"
  | nameTooLong => "file name too long"
  | invalidArgument => "invalid argument"

structure PathError where
  operation : Text
  path : Text
  reason : Reason
  deriving DecidableEq, Repr

def PathError.message (e : PathError) : Text :=
  e.operation ++ " " ++ e.path ++ ": " ++ e.reason.message

/-- The places that exist besides the root, each with what it holds. -/
structure Tree where
  entries : List (Location × Entry)

/-- Whether the first text comes before the second or is the same, byte by byte. -/
def textLe : Text → Text → Bool
  | [], _ => true
  | _ :: _, [] => false
  | a :: s, b :: t => a < b || (a == b && textLe s t)

namespace Tree

/-- What a place holds; the root is a directory. -/
def entry? (t : Tree) (l : Location) : Option Entry :=
  if l.isEmpty then some .directory else t.entries.lookup l

/-- The tree with another content of a place. -/
def put (t : Tree) (l : Location) (e : Entry) : Tree :=
  if l.isEmpty then t
  else if (t.entries.lookup l).isSome then
    ⟨t.entries.map fun p => if p.1 = l then (l, e) else p⟩
  else ⟨t.entries ++ [(l, e)]⟩

/-- The tree with a directory at a place and all directories on the way, where nothing is yet. -/
def makeDirectories (t : Tree) (l : Location) : Tree :=
  (List.range (l.length + 1)).foldl (fun t k =>
    if (t.entry? (l.take k)).isNone then t.put (l.take k) .directory else t) t

def addFile (t : Tree) (l : Location) (content : Text) : Tree :=
  (t.makeDirectories l.parent).put l (.file content)

/-- The longest name that a directory can hold. -/
def maxName : Nat := 255

/-- How long a path has to be to be refused. -/
def maxPath : Nat := 4096

/-- Follows names from a directory. The last name may lead nowhere, which gives `none`. -/
def walk (t : Tree) (l : Location) : List Text → Except Reason (Location × Option Entry)
  | [] => .ok (l, t.entry? l)
  | name :: rest =>
    match t.entry? l with
    | none => .error .notFound
    | some (.file _) => .error .notDirectory
    | some .directory =>
      if maxName < name.length then .error .nameTooLong
      else walk t (l.follow name) rest

/-- Where the names of a path are followed from, and the names. -/
def route (cwd : Location) (path : Text) : Except Reason (Location × List Text) :=
  if path.isEmpty then .error .notFound
  else if path.contains 0 then .error .invalidArgument
  else if maxPath ≤ path.length then .error .nameTooLong
  else
    .ok (if path.head? = some slash then [] else cwd, (segments path).filter (!·.isEmpty))

/-- Whether a path ends with a slash, so that only a directory can be meant. -/
def endsWithSlash (path : Text) : Bool := path.getLast? == some slash

/-- The place that a path leads to, and what is there. A path that ends with a slash leads to no
file. -/
def locate (t : Tree) (cwd : Location) (path : Text) : Except Reason (Location × Option Entry) := do
  let (start, names) ← route cwd path
  match ← t.walk start names with
  | (l, some (.file content)) =>
    if endsWithSlash path then .error .notDirectory else .ok (l, some (.file content))
  | found => .ok found

def find (t : Tree) (cwd : Location) (path : Text) : Except Reason Entry :=
  match t.locate cwd path with
  | .ok (_, some e) => .ok e
  | .ok (_, none) => .error .notFound
  | .error e => .error e

def stat (t : Tree) (cwd : Location) (path : Text) : Except PathError Entry :=
  (t.find cwd path).mapError fun reason => ⟨"stat", path, reason⟩

/-- Opens a path for reading. A directory can be opened, though it holds no text. -/
def openFile (t : Tree) (cwd : Location) (path : Text) : Except PathError Entry :=
  (t.find cwd path).mapError fun reason => ⟨"open", path, reason⟩

def readFile (t : Tree) (cwd : Location) (path : Text) : Except PathError Text :=
  match t.openFile cwd path with
  | .error e => .error e
  | .ok (.file content) => .ok content
  | .ok .directory => .error ⟨"read", path, .isDirectory⟩

/-- Why a path that ends with a slash cannot be written to: it names a directory, once the
directories before its last name are there. -/
def slashReason (t : Tree) (cwd : Location) (path : Text) : Reason :=
  match route cwd path with
  | .error reason => reason
  | .ok (start, names) =>
    match t.walk start names.dropLast with
    | .error reason => reason
    | .ok (_, none) => .notFound
    | .ok (_, some (.file _)) => .notDirectory
    | .ok (_, some .directory) => .isDirectory

/-- Where a path can be written to: the place of a file, or a new place in a directory. -/
def creatable (t : Tree) (cwd : Location) (path : Text) : Except PathError Location :=
  if endsWithSlash path then .error ⟨"open", path, t.slashReason cwd path⟩
  else
    match t.locate cwd path with
    | .ok (_, some .directory) => .error ⟨"open", path, .isDirectory⟩
    | .ok (l, _) => .ok l
    | .error reason => .error ⟨"open", path, reason⟩

/-- The names in a directory in byte order, each with whether it is a directory itself. -/
def list (t : Tree) (l : Location) : List (Text × Bool) :=
  let inside := t.entries.filterMap fun (k, e) =>
    match k.getLast? with
    | some name => if k.dropLast = l then some (name, decide (e = .directory)) else none
    | none => none
  inside.mergeSort fun a b => textLe a.1 b.1

def content? (t : Tree) (l : Location) : Option Text :=
  match t.entry? l with
  | some (.file content) => some content
  | _ => none

/-- The files below a place that differ between two trees: the path of each from that place, and
its content in the second tree. The paths are in byte order. -/
def changes (before after : Tree) (top : Location) : List (Text × Option Text) :=
  let files (t : Tree) := t.entries.filterMap fun (l, _) =>
    if top.isPrefixOf l && (t.content? l).isSome then some l else none
  let gone := (files before).filter fun l => (after.content? l).isNone
  let changed := (files after).filter fun l => before.content? l != after.content? l
  let name (l : Location) := Text.joinWith [slash] (l.drop top.length)
  ((gone ++ changed).map fun l => (name l, after.content? l)).mergeSort fun a b => textLe a.1 b.1

end Tree

end HackStack.Files
