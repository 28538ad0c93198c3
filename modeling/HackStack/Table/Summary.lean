import HackStack.Build.Run
import HackStack.Table.Basic
import HackStack.Text.Template

/-!
# Summary of a build

A table with a row for each unit and the sums of the commands and instructions.
-/

namespace HackStack.Table

open HackStack.Build

/-- A sum in 64 bits. -/
def total (ns : List Int) : Int := Int.bmod (ns.foldl (· + ·) 0) 0x10000000000000000

def reportRow (r : Report) : List Text :=
  [r.name, r.path, Text.ofInt r.commands, Text.ofInt r.instructions]

/-- The table of the reports. Counts stand to the right, the other columns to the left if there is
a unit at all. -/
def summaryGrid (reports : List Report) : Grid :=
  let side : Align := if reports.isEmpty then .right else .left
  { aligns := [side, side, .right, .right]
    header := ["UNIT", "SOURCE", "COMMANDS", "INSTRUCTIONS"]
    rows := reports.map reportRow
    footer :=
      ["TOTAL", "", Text.ofInt (total (reports.map Report.commands)),
        Text.ofInt (total (reports.map Report.instructions))] }

/-- The summary of a build. The title is a template without operands; an empty one is left
out. -/
def summary (title : Text) (reports : List Report) : Text :=
  (summaryGrid reports).text (if title.isEmpty then none else some title.expand)

end HackStack.Table
