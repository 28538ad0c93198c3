import HackStack.Text.Case

/-!
# Levels of a log

A log takes the messages at its level and above.
-/

namespace HackStack.Log

/-- How important a message is. -/
inductive Level where
  | trace
  | debug
  | info
  | warn
  | error
  deriving DecidableEq, Repr

namespace Level

/-- All levels, the least important first. -/
def all : List Level := [.trace, .debug, .info, .warn, .error]

/-- The word by which settings name the level. -/
def word : Level → Text
  | .trace => "trace"
  | .debug => "debug"
  | .info => "info"
  | .warn => "warn"
  | .error => "error"

def ofWord? (t : Text) : Option Level := all.find? fun l => l.word = t.asciiLower

/-- The number that orders the levels. -/
def rank : Level → Int
  | .trace => -8
  | .debug => -4
  | .info => 0
  | .warn => 4
  | .error => 8

/-- The name of the level in the log; the trace level is shown by its distance. -/
def name : Level → Text
  | .trace => "DEBUG-4"
  | .debug => "DEBUG"
  | .info => "INFO"
  | .warn => "WARN"
  | .error => "ERROR"

end Level

end HackStack.Log
