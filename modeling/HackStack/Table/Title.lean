import HackStack.Text.Control

/-!
# Titles in lines

A title is cut into lines that fit over a table. A title that takes no more columns than there are,
all its lines together, is left as it is. In any other the words of each line follow each other with
one blank between them and are cut wherever a line is full; the styles that are on at such a place
are switched off for the cut and on again behind it.
-/

namespace HackStack.Table

/-- Lines that are being written, and how many columns the last one takes. -/
structure Wrapping where
  out : Array UInt8
  column : Nat

namespace Wrapping

/-- Ends the line, with the sequence `style` switched off at its end and on again behind it. -/
def endLine (w : Wrapping) (style : Text) : Wrapping :=
  ⟨w.out ++ (if style.isEmpty then [] else resetSequence) ++ Text.lineFeed :: style, 0⟩

def write (w : Wrapping) (t : Text) (width : Nat) : Wrapping := ⟨w.out ++ t, w.column + width⟩

/-- Whether the last that was written switches all styles off. -/
def endsReset (w : Wrapping) : Bool :=
  let n := resetSequence.length
  (w.out.extract (w.out.size - n) w.out.size).toList == resetSequence

end Wrapping

/-- A word that is being cut: whether its last character lies in a control sequence, and the
sequence to be repeated behind a cut. -/
structure WordState where
  wrapping : Wrapping
  inside : Bool
  style : Array UInt8

/-- Writes a character of a word into lines of `width` columns. A control sequence lasts until the
letter `m`. -/
def WordState.put (width : Nat) (s : WordState) (c : Char) : WordState :=
  let starts := c == escapeChar
  let inside := s.inside || starts
  let style := if starts then #[] else s.style
  let style := if inside then style ++ Text.ofChar c else style
  let w := s.wrapping
  let w := if !inside && w.column == width then w.endLine style.toList else w
  { wrapping := w.write (Text.ofChar c) (if inside then 0 else charWidth c)
    inside := inside && c != 'm'
    style := if style == resetSequence.toArray then #[] else style }

/-- Writes words into lines of `width` columns. `styles` are on before them, and `style` is the last
sequence that switched styles on. -/
def wrapWords (width : Nat) : List Text → Styles → Text → Wrapping → Wrapping
  | [], _, style, w => if style.isEmpty || w.endsReset then w else w.write resetSequence 0
  | word :: rest, styles, style, w =>
    let styles := word.stylesAfter styles
    let sequence := styleSequence styles
    let style := if sequence.isEmpty then style else sequence
    let w := if 0 < w.column then w.write " " 1 else w
    let taken := word.shownWidth
    let w :=
      if w.column + taken ≤ width then w.write word taken
      else (word.shownChars.foldl (WordState.put width) ⟨w, false, style.toArray⟩).wrapping
    let w := if w.column == width && !rest.isEmpty then w.endLine style else w
    wrapWords width rest styles style w

def expandTabs (t : Text) : Text :=
  t.flatMap fun b => if b = 0x09 then Text.ofString "    " else [b]

/-- The words of a text in lines of `width` columns. -/
def wrapLine (width : Nat) (line : Text) : List Text :=
  (wrapWords width line.words [] [] ⟨#[], 0⟩).out.toList.splitOn Text.lineFeed

/-- A title in lines of `width` columns; a line feed ends a line too, and takes no column. -/
def wrap (width : Nat) (title : Text) : List Text :=
  let title := expandTabs title
  let lines := title.splitOn Text.lineFeed
  if title.shownWidth ≤ width then lines else lines.flatMap (wrapLine width)

end HackStack.Table
