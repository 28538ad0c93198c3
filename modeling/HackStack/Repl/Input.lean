import HackStack.Text.Basic

/-!
# Lines of an input

An input is read line by line into a buffer. A line that fills the buffer is handed out in pieces,
each as if it were a line.
-/

namespace HackStack.Repl

def bufferSize : Nat := 4096

structure InputLine where
  text : Text
  /-- Whether the line was longer than the buffer, and this is not its last piece. -/
  isPart : Bool
  deriving DecidableEq, Repr

/-- How much of a line that fills the buffer is handed out: all that is in the buffer, but a
carriage return at the end is left for the next piece. -/
def pieceSize (line : Text) : Nat :=
  if (line.take bufferSize).getLast? = some Text.carriageReturn then bufferSize - 1 else bufferSize

theorem pieceSize_pos (line : Text) : 0 < pieceSize line := by
  unfold pieceSize bufferSize
  split <;> omega

/-- The pieces of a line before its last one, and the last one. -/
def pieces (line : Text) : List InputLine × Text :=
  if bufferSize ≤ line.length then
    let (more, last) := pieces (line.drop (pieceSize line))
    (⟨line.take (pieceSize line), true⟩ :: more, last)
  else ([], line)
termination_by line.length
decreasing_by
  have := pieceSize_pos line
  simp only [List.length_drop, bufferSize] at *
  omega

/-- The readings of a line that a line feed ends; a carriage return before it is dropped. -/
def endedLine (line : Text) : List InputLine :=
  let (parts, last) := pieces line
  let last := if last.getLast? = some Text.carriageReturn then last.dropLast else last
  parts ++ [⟨last, false⟩]

/-- The readings of a line that the end of the input ends. -/
def openLine (line : Text) : List InputLine :=
  let (parts, last) := pieces line
  if last.isEmpty then parts else parts ++ [⟨last, false⟩]

def inputLines (input : Text) : List InputLine :=
  let lines := input.splitOn Text.lineFeed
  lines.dropLast.flatMap endedLine ++ openLine (lines.getLast?.getD [])

end HackStack.Repl
