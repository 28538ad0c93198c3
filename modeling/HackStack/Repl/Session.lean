import HackStack.Lowering.Emitter
import HackStack.Text.Blank
import HackStack.Vm.Line

/-!
# Interactive sessions

A session shows the code of each command as it is entered. A line that starts with a colon is a
request to the session itself.
-/

namespace HackStack.Repl

open HackStack.Lowering
open HackStack.Vm

structure Session where
  generator : Generator
  /-- How many lines of code have been shown. -/
  shown : Nat
  /-- How many lines have been entered, requests aside. -/
  lineCount : Nat

def Session.new (options : Options) : Session := ⟨Generator.new options, 0, 0⟩

inductive EntryError where
  | refused (e : LineError)
  | faulty (f : Fault)
  | unitUsage
  | unknownRequest (name : Text)
  deriving DecidableEq, Repr

def EntryError.message : EntryError → Text
  | refused e => e.message
  | faulty f => f.message
  | unitUsage => "usage: :unit <Name>"
  | unknownRequest name => "unknown command " ++ name ++ ". Type :help"

inductive Reply where
  | shows (out : Text)
  | quits
  deriving DecidableEq, Repr

/-- What the session says of its requests. -/
def helpText : Text :=
  ":unit <Name>  switch translation unit (statics)\n" ++
  ":state        show unit, label scope and ROM counter\n" ++
  ":quit         exit\n"

namespace Session

def stateText (s : Session) : Text :=
  "unit=" ++ s.generator.unit ++ " scope=" ++ s.generator.scope ++ " pc=" ++
    Text.ofNat s.generator.counter ++ "\n"

/-- The code that has not been shown, which then counts as shown. -/
def takeUnshown (s : Session) : Session × Text :=
  let code := s.generator.code
  ({ s with shown := code.size }, Assembly.render (code.toList.drop s.shown))

def request (s : Session) (name : Text) (operands : List Text) :
    Session × Except EntryError Reply :=
  if name = ":quit" ∨ name = ":q" then (s, .ok .quits)
  else if name = ":unit" then
    match operands with
    | [unit] =>
      if isIdentifier unit then
        ({ s with generator := s.generator.enterUnit unit }, .ok (.shows []))
      else (s, .error .unitUsage)
    | _ => (s, .error .unitUsage)
  else if name = ":state" then (s, .ok (.shows s.stateText))
  else if name = ":help" then (s, .ok (.shows helpText))
  else (s, .error (.unknownRequest name))

/-- Generates a command and shows its code. What has been emitted before a fault is shown with the
code of the next command. -/
def enter (s : Session) (c : Command) : Session × Except EntryError Reply :=
  match s.generator.write c with
  | (e, some f) => ({ s with generator := e }, .error (.faulty f))
  | (e, none) =>
    let (s, out) := { s with generator := e }.takeUnshown
    (s, .ok (.shows out))

def eval (s : Session) (line : Text) : Session × Except EntryError Reply :=
  let line := line.trim
  match line.head?, line.words with
  | some 0x3A, name :: operands => s.request name operands
  | _, _ =>
    let s := { s with lineCount := s.lineCount + 1 }
    match parseCommand line s.lineCount with
    | .error e => (s, .error (.refused e))
    | .ok none => (s, .ok (.shows []))
    | .ok (some c) => s.enter c

end Session

end HackStack.Repl
