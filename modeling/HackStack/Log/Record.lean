import HackStack.Log.Level
import HackStack.Text.Blank
import HackStack.Text.Quoted

/-!
# Records of a log

A record is a line of names and values. A value is quoted if it could be misread otherwise.
-/

namespace HackStack.Log

/-- Whether a character makes a value need quotes. -/
def needsQuotes (g : Glyph) : Bool :=
  match g.char? with
  | none => true
  | some c =>
    if c.toNat < 0x80 then c.toNat < 0x20 || c == ' ' || c == '=' || c == '"'
    else c.toNat == 0xFFFD || isBlankChar c || !isPrintable c

/-- A value as it stands in a record. -/
def shown (t : Text) : Text :=
  if t.isEmpty || t.glyphs.any needsQuotes then t.quoted else t

structure Record where
  level : Level
  message : Text
  details : List (Text × Text)

/-- A detail as it stands in a record, after what comes before it. -/
def detail (d : Text × Text) : Text := " " ++ d.1 ++ "=" ++ shown d.2

def Record.text (r : Record) : Text :=
  "level=" ++ r.level.name ++ " msg=" ++ shown r.message ++ r.details.flatMap detail ++ "\n"

/-- The lines of those records that a log at a level takes. -/
def render (level : Level) (rs : List Record) : Text :=
  (rs.filter fun r => decide (level.rank ≤ r.level.rank)).flatMap Record.text

end HackStack.Log
