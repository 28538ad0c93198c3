import HackStack.Table.Title

/-!
# Boxed tables

A table is drawn with lines of dashes, a column as wide as its widest cell. A cell may have several
lines. Over the table there may be a title as wide as the table.
-/

namespace HackStack.Table

/-- Where the text of a cell stands. -/
inductive Align where
  | left
  | right
  deriving DecidableEq, Repr

/-- What is drawn. -/
structure Grid where
  /-- Where the text stands, column by column. -/
  aligns : List Align
  header : List Text
  rows : List (List Text)
  footer : List Text

/-- Writes a character over the one at a place in a line, or at its end. -/
def overwrite (line : Array Char × Nat) (c : Char) : Array Char × Nat :=
  let (chars, k) := line
  if c == '\r' then (chars, 0)
  else (if k < chars.size then chars.setIfInBounds k c else chars.push c, k + 1)

/-- A line in which a carriage return goes back to its start, so that what follows is written
over it. -/
def returnLine (line : Text) : Text :=
  if line.contains Text.carriageReturn then
    Text.ofChars (line.shownChars.foldl overwrite (#[], 0)).1.toList
  else line

/-- A text with each carriage return before a line feed left out. -/
def dropReturns (t : Text) : Text :=
  (t.foldr (fun b (out, next) =>
    (if b == Text.carriageReturn && next == some Text.lineFeed then out else b :: out, some b))
    (([] : Text), (none : Option UInt8))).1

/-- The text that a cell shows: tabs are four spaces, and carriage returns are obeyed. -/
def cellText (cell : Text) : Text :=
  let cell := expandTabs cell
  if cell.contains Text.carriageReturn then
    Text.joinWith [Text.lineFeed] (((dropReturns cell).splitOn Text.lineFeed).map returnLine)
  else cell

def cellLines (cell : Text) : List Text := (cellText cell).splitOn Text.lineFeed

def blanks (n : Nat) : Text := List.replicate n 0x20

/-- A text with blanks up to a width, on the side away from where it stands. Its own blanks on that
side are left out first. -/
def pad (a : Align) (width : Nat) (t : Text) : Text :=
  match a with
  | .left =>
    let shown : Text := (t.reverse.dropWhile (· == 0x20)).reverse
    shown ++ blanks (width - shown.shownWidth)
  | .right =>
    let shown : Text := t.dropWhile (· == 0x20)
    blanks (width - shown.shownWidth) ++ shown

/-- The reading of a cell for its width: the place in it, the columns of the line at hand, and those
of the widest line. -/
structure Measure where
  state : ControlState
  line : Nat
  widest : Nat

/-- The reading behind a character. A line feed in a control sequence ends no line. -/
def Measure.next (m : Measure) (c : Char) : Measure :=
  let state := m.state.next c
  if !m.state.shows c then { m with state }
  else if c == '\n' then ⟨state, 0, max m.widest m.line⟩
  else { m with state, line := m.line + charWidth c }

/-- The width of a cell: that of its widest line. -/
def cellWidth (cell : Text) : Nat :=
  let m := (cellText cell).shownChars.foldl Measure.next ⟨.start, 0, 0⟩
  max m.widest m.line

def Grid.widths (g : Grid) : List Nat :=
  let widen (w : Nat) (cell : Text) := max w (cellWidth cell)
  (g.rows ++ [g.footer]).foldl (List.zipWith widen) (g.header.map cellWidth)

/-- A line of dashes between rows. -/
def rule (widths : List Nat) : Text :=
  (widths.flatMap fun w => 0x2B :: List.replicate (w + 2) 0x2D) ++ [0x2B]

/-- One line of a row, its texts already padded. -/
def boxed (texts : List Text) : Text :=
  (texts.flatMap fun t => [0x7C, 0x20] ++ t ++ [0x20]) ++ [0x7C]

/-- The lines of a row. A cell with fewer lines than another is blank below them. -/
def rowLines (aligns : List Align) (widths : List Nat) (row : List Text) : List Text :=
  let cells := row.map fun cell => (cellLines cell).toArray
  let height := (cells.map Array.size).foldl max 0
  (List.range height).map fun k =>
    boxed ((aligns.zip (widths.zip cells)).map fun (a, w, lines) => pad a w (lines[k]?.getD []))

/-- The lines of a title over a table with columns of the given widths. -/
def titleLines (widths : List Nat) (title : Text) : List Text :=
  let total := widths.foldl (fun n width => n + width + 3) 1
  (0x2B :: List.replicate (total - 2) 0x2D ++ [0x2B]) ::
    (wrap (total - 4) title).map fun line => boxed [pad .left (total - 4) line.trim]

/-- The lines of a table, under its title if it has one. -/
def Grid.lines (g : Grid) (title : Option Text) : List Text :=
  let widths := g.widths
  let lines (row : List Text) := rowLines g.aligns widths row
  title.elim [] (titleLines widths) ++ [rule widths] ++ lines g.header ++ [rule widths] ++
    g.rows.flatMap lines ++ [rule widths] ++ lines g.footer ++ [rule widths]

def Grid.text (g : Grid) (title : Option Text) : Text :=
  Text.joinWith [Text.lineFeed] (g.lines title)

end HackStack.Table
