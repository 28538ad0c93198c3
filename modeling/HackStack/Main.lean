import HackStack.Command.Build
import HackStack.Command.Dump
import HackStack.Command.Interact

/-!
# The program

The program behaves as the command whose name it is started by. It looks at the places that the
command may use, lets the command do its work on them, and writes what has changed.
-/

namespace HackStack

open HackStack.Command
open HackStack.Files

def pathString? (l : Location) : Option String := String.fromUTF8? ⟨l.path.toArray⟩

def surveyFile (t : Tree) (l : Location) (path : String) : IO Tree := do
  try
    return t.addFile l (← IO.FS.readBinFile path).data.toList
  catch _ => return t

/-- Adds a place and, of a directory, what is directly in it. -/
def survey (t : Tree) (l : Location) : IO Tree := do
  match pathString? l with
  | none => return t
  | some path =>
    let place := (← IO.currentDir) / path
    if ← place.isDir then
      let mut t := t.makeDirectories l
      for e in ← place.readDir do
        let inside := l ++ [Text.ofString e.fileName]
        if ← e.path.isDir then t := t.makeDirectories inside
        else t ← surveyFile t inside e.path.toString
      return t
    else if ← place.pathExists then surveyFile t l path
    else return t

/-- The places on the way of a path, the last one included. -/
def onTheWay (cwd : Location) (path : Text) : List Location :=
  let start := if path.head? = some slash then [] else cwd
  let (l, seen) := (segments path).foldl (fun (s : Location × List Location) name =>
    (s.1.follow name, s.1 :: s.2)) (start, [])
  (l :: seen).reverse

/-- The places that arguments may name, also after an equals sign. -/
def mentioned (cwd : Location) (args : List Text) : List Location :=
  (args.flatMap fun a =>
    onTheWay cwd a ++ ((Text.cut? 0x3D a).elim [] fun p => onTheWay cwd p.2)).eraseDups

def writeBack (before after : Tree) : IO Unit := do
  for (path, content) in before.changes after [] do
    match String.fromUTF8? ⟨(slash :: path).toArray⟩, content with
    | some path, some content => IO.FS.writeBinFile path ⟨content.toArray⟩
    | some path, none => IO.FS.removeFile path
    | none, _ => pure ()

partial def readAll (s : IO.FS.Stream) (found : ByteArray) : IO ByteArray := do
  let more ← s.read 65536
  if more.isEmpty then return found else readAll s (found ++ more)

/-- The work of the program by the name that it is started by. -/
def work (name : Text) : Invocation → Completion :=
  if name = dumpName then dump else if name = interactName then interact else Command.build

end HackStack

open HackStack in
def main (args : List String) : IO UInt32 := do
  let name := Text.ofString ((← IO.appPath).fileName.getD "")
  let cwd := Files.Location.ofPath [] (Text.ofString (← IO.currentDir).toString)
  let home := Text.ofString ((← IO.getEnv "HOME").getD "")
  let args := args.map Text.ofString
  let mut files : Files.Tree := ⟨[]⟩
  for l in mentioned cwd (args ++ [[], home]) do
    files ← survey files l
  let stdin ← if name = Command.interactName then readAll (← IO.getStdin) .empty else pure .empty
  let done := work name ⟨args, stdin.data.toList, files, cwd, home⟩
  (← IO.getStderr).write ⟨done.stderr.toArray⟩
  (← IO.getStdout).write ⟨done.stdout.toArray⟩
  writeBack files done.files
  return done.exit.toUInt32
