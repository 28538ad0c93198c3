import HackStack.Build.OnDisk
import HackStack.Command.Basic
import HackStack.Table.Summary

/-!
# Building from the command line

The command builds a file or a directory. Settings come from a file, and flags override them.
-/

namespace HackStack.Command

open HackStack.Files
open HackStack.Build

def buildName : Text := "hackvm"

def buildFlags : List Flag :=
  [⟨"bootstrap", .switch, "emit SP=256 and a call to the entry function first"⟩,
    ⟨"config", .word, "YAML settings file; flags override it"⟩,
    ⟨"entry", .word, "entry function called by the bootstrap (default Sys.init)"⟩,
    ⟨"in", .word, "input .vm file or directory of .vm files"⟩,
    ⟨"log-level", .word, "trace, debug, info, warn or error (trace logs every command)"⟩,
    ⟨"out", .word, "output assembly path (default: Foo.vm -> Foo.asm, Dir -> Dir/Dir.asm)"⟩,
    ⟨"summary", .switch, "print a per-unit summary table"⟩,
    ⟨"v", .switch, "log each translated unit"⟩]

/-- Settings with those that were given as flags. -/
def overridden (c : Settings) (given : List (Text × Value)) : Settings :=
  { c with
    bootstrap := (switch? given "bootstrap").getD c.bootstrap
    entry := (word? given "entry").getD c.entry
    verbose := (switch? given "v").getD c.verbose
    logLevel := (word? given "log-level").getD c.logLevel }

/-- The input path: the flag, or else the only argument; empty if there is none. -/
def inputPath (given : List (Text × Value)) (rest : List Text) : Text :=
  let path := (word? given "in").getD []
  match path, rest with
  | [], [argument] => argument
  | _, _ => path

def buildWith (i : Invocation) (c : Settings) (path out : Text) (summary : Bool) : Completion :=
  let o := buildFiles i.files i.cwd c path out
  let log := Log.render c.level o.log
  match o.result with
  | .error e =>
    ⟨if e.isNoUnits then 2 else 1, [], log ++ "translation failed: " ++ e.message ++ "\n", o.files⟩
  | .ok reports =>
    let table := if summary then Table.summary (baseName o.out) reports ++ "\n" else []
    ⟨0, table, log, o.files⟩

def build (i : Invocation) : Completion :=
  withFlags buildName buildFlags i fun given rest =>
    let path := inputPath given rest
    if path.isEmpty then
      ⟨2, [], "nothing to do: provide -in <file.vm|dir>\n" ++ usage buildName buildFlags,
        i.files⟩
    else
      let file := (word? given "config").getD []
      let loaded :=
        if file.isEmpty then .ok Settings.standard else Settings.load i.files i.cwd file
      match loaded with
      | .error e => ⟨1, [], e.message ++ "\n", i.files⟩
      | .ok c =>
        let c := overridden c given
        match c.fault? with
        | some f => ⟨2, [], f.message ++ "\n", i.files⟩
        | none =>
          buildWith i c path ((word? given "out").getD []) ((switch? given "summary").getD false)

end HackStack.Command
