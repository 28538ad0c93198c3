import HackStack.Repl.Input
import HackStack.Text.Glyph

/-!
# History of entered lines

The lines that were entered, the latest last. Only the latest ones are kept.
-/

namespace HackStack.Repl

/-- The lines that were entered, the latest last. -/
abbrev History := Array Text

namespace History

def limit : Nat := 1000

def push (h : History) (line : Text) : History :=
  let h := Array.push h line
  if limit < h.size then h.extract 1 h.size else h

/-- Adds a line unless it is the same as the one before. -/
def add (h : History) (line : Text) : History := if h.back? = some line then h else h.push line

/-- Takes over readings up to one that is too long or not UTF-8. -/
def extend (h : History) : List InputLine → History
  | [] => h
  | line :: rest =>
    if line.isPart || !line.text.isValid then h else extend (History.push h line.text) rest

def ofText (content : Text) : History := extend #[] (inputLines content)

def text (h : History) : Text := h.toList.flatMap fun line => line ++ [Text.lineFeed]

end History

end HackStack.Repl
