import HackStack.Vm.Line

/-!
# Source files

A source file is read line by line. Lines end at a line feed, one carriage return before it is
dropped, and a last line without line feed counts unless it is empty. A line of `maxLine` bytes or
more cannot be read. The first fault in the order of the lines is reported.
-/

namespace HackStack.Vm

/-- The number of bytes from which on a line is too long to be read. -/
def maxLine : Nat := 0x10000

/-- Why a source file yields no commands. -/
inductive SourceError where
  /-- A line was refused. -/
  | refused (e : LineError)
  | lineTooLong
  /-- The file could not be read to its end. -/
  | unreadable (reason : Text)
  deriving DecidableEq, Repr

def SourceError.message : SourceError → Text
  | refused e => e.message
  | lineTooLong => "vm: read source: bufio.Scanner: token too long"
  | unreadable reason => "vm: read source: " ++ reason

/-- The lines of a source, without their line feeds. -/
def rawLines (src : Text) : List Text :=
  let parts := src.splitOn Text.lineFeed
  if parts.getLast? = some [] then parts.dropLast else parts

def dropReturn (line : Text) : Text :=
  if line.getLast? = some Text.carriageReturn then line.dropLast else line

/-- Reads lines numbered from `n` on after the commands `found`; `ending` is what ends the
input. -/
def parseFrom (ending : Option Text) (n : Nat) (found : Array Command) :
    List Text → Except SourceError (Array Command)
  | [] =>
    match ending with
    | none => .ok found
    | some reason => .error (.unreadable reason)
  | line :: rest =>
    if maxLine ≤ line.length then .error .lineTooLong
    else
      match parseCommand (dropReturn line) n with
      | .error e => .error (.refused e)
      | .ok none => parseFrom ending (n + 1) found rest
      | .ok (some c) => parseFrom ending (n + 1) (found.push c) rest

/-- The commands of a source whose reading ends with `ending`, a reason of failure or nothing. -/
def parseInput (src : Text) (ending : Option Text) : Except SourceError (List Command) :=
  (parseFrom ending 1 #[] (rawLines src)).map Array.toList

def parse (src : Text) : Except SourceError (List Command) := parseInput src none

end HackStack.Vm
