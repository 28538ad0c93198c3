import HackStack.Build.Run
import HackStack.Settings.Load

/-!
# Builds of files

A build whose sources and output are files of a tree.
-/

namespace HackStack.Build

open HackStack.Files

def Failure.ofPathError (e : PathError) : Failure := ⟨e.message, decide (e.reason = .notFound)⟩

def Surroundings.ofTree (files : Tree) (cwd : Location) : Surroundings where
  source path := (files.readFile cwd path).mapError Failure.ofPathError
  createFailure path :=
    match files.creatable cwd path with
    | .ok _ => none
    | .error e => some (.ofPathError e)
  limit := none
  closeFailure := none

inductive FilesError where
  | unresolved (e : ResolveError)
  | failed (e : BuildError)
  deriving DecidableEq, Repr

def FilesError.message : FilesError → Text
  | unresolved e => e.message
  | failed e => e.message

def FilesError.isNoUnits : FilesError → Bool
  | unresolved (.noUnits _) => true
  | failed .noUnits => true
  | _ => false

structure FilesOutcome where
  result : Except FilesError (List Report)
  /-- The path of the output, empty if there were no units to write. -/
  out : Text
  log : List Log.Record
  files : Tree

/-- Builds what an input path stands for; an empty output path means the one that belongs to
the input. -/
def buildFiles (files : Tree) (cwd : Location) (settings : Settings) (path out : Text) :
    FilesOutcome :=
  match resolve files cwd path settings.extension with
  | .error e => ⟨.error (.unresolved e), [], [], files⟩
  | .ok (units, own) =>
    let out := if out.isEmpty then own else out
    let o := build (.ofTree files cwd) settings.options units out
    let after :=
      if o.closed = 0 then files
      else
        match files.creatable cwd out with
        | .ok l => files.put l (.file o.written)
        | .error _ => files
    ⟨o.result.mapError .failed, out, o.log, after⟩

end HackStack.Build
