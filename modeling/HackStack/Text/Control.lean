import HackStack.Text.Blank
import HackStack.Text.Width

/-!
# Control sequences

The escape character starts a sequence that a screen obeys and does not show. A sequence of the
style kind lists numbers that switch styles on and off; the styles that are on can be switched on
again by the sequence `styleSequence`. `shownWidth` is the number of columns that a text takes when
its sequences are left out.
-/

namespace HackStack

def escapeChar : Char := Char.ofNat 0x1B

/-- The kind of a control sequence, which tells where it ends. -/
inductive ControlKind where
  /-- Nothing has told the kind yet. -/
  | unknown
  | style
  | command
  /-- A command that starts or ends a link. -/
  | link
  deriving DecidableEq, Repr

/-- A control sequence that has not ended yet: its characters, the last first. -/
structure Control where
  kind : ControlKind
  chars : List Char

namespace Control

/-- How a link starts, the last character first. -/
def linkStart : List Char := [';', '8', ']', escapeChar]

/-- The sequence with one more character, which may tell its kind. -/
def push (s : Control) (c : Char) : Control :=
  let chars := c :: s.chars
  match s.kind with
  | .unknown => ⟨if c == '[' then .style else if c == ']' then .command else .unknown, chars⟩
  | .command => ⟨if chars == linkStart then .link else .command, chars⟩
  | kind => ⟨kind, chars⟩

def isDone (s : Control) : Bool :=
  match s.kind, s.chars with
  | .style, c :: _ => c == 'm'
  | .command, c :: _ => c == '\\'
  | .link, c :: d :: _ => c.toNat == 0x07 || (c == '\\' && d == escapeChar)
  | _, _ => false

end Control

/-- The numbers of the styles that are on, ascending. -/
abbrev Styles := List Int

namespace Styles

def insert (n : Int) : Styles → Styles
  | [] => [n]
  | m :: rest => if n < m then n :: m :: rest else if n == m then m :: rest else m :: insert n rest

/-- The styles after a number: zero switches all off, some numbers switch off one or two others. -/
def apply (s : Styles) (n : Int) : Styles :=
  if n == 0 then []
  else if n == 22 then s.filter fun m => m != 1 && m != 2
  else if n == 23 then s.filter (· != 3)
  else if n == 24 then s.filter (· != 4)
  else if n == 25 then s.filter fun m => m != 5 && m != 6
  else if n == 27 then s.filter (· != 7)
  else if n == 29 then s.filter (· != 9)
  else insert n s

end Styles

/-- An integer of 64 bits in decimal digits behind an optional sign. -/
def Text.intValue? (t : Text) : Option Int :=
  match t with
  | 0x2D :: digits => (natUpTo? 0x8000000000000000 digits).map fun n => -(n : Int)
  | 0x2B :: digits => (natUpTo? 0x7FFFFFFFFFFFFFFF digits).map Int.ofNat
  | digits => (natUpTo? 0x7FFFFFFFFFFFFFFF digits).map Int.ofNat

def Text.indexOf? (part : Text) (n : Nat) : Text → Option Nat
  | [] => none
  | b :: t => if part.isPrefixOf (b :: t) then some n else indexOf? part (n + 1) t

def Text.eraseFirst (part t : Text) : Text :=
  match Text.indexOf? part 0 t with
  | some i => t.take i ++ t.drop (i + part.length)
  | none => t

/-- The numbers of a finished sequence; what is no number is passed over. -/
def Control.numbers (s : Control) : List Int :=
  let (start, stop) : Text × Text :=
    if s.kind == .style then ("\x1b[", "m") else ("\x1b]", "\\")
  let inner := Text.eraseFirst stop (Text.eraseFirst start (Text.ofChars s.chars.reverse))
  (inner.splitOn 0x3B).filterMap fun t => Text.intValue? (Text.trim t)

/-- A place in a text: the sequence that it lies in, if any, and the styles that are on. -/
structure ControlState where
  within : Option Control
  styles : Styles

namespace ControlState

def start : ControlState := ⟨none, []⟩

/-- The place behind a character. -/
def next (s : ControlState) (c : Char) : ControlState :=
  let sequence? :=
    match s.within with
    | some sequence => some (sequence.push c)
    | none => if c == escapeChar then some ⟨.unknown, [c]⟩ else none
  match sequence? with
  | none => s
  | some sequence =>
    if sequence.isDone then ⟨none, sequence.numbers.foldl Styles.apply s.styles⟩
    else ⟨some sequence, s.styles⟩

/-- Whether a character is shown: neither it nor the place before it lies in a sequence. -/
def shows (s : ControlState) (c : Char) : Bool := s.within.isNone && c != escapeChar

end ControlState

/-- The character of a glyph; a stray byte counts as a replacement character. -/
def Glyph.shown (g : Glyph) : Char := g.char?.getD '�'

namespace Text

def shownChars (t : Text) : List Char := t.glyphs.map Glyph.shown

/-- How many columns a text takes. -/
def shownWidth (t : Text) : Nat :=
  (t.shownChars.foldl (fun (s, n) c =>
    (s.next c, if s.shows c then n + charWidth c else n)) (ControlState.start, 0)).2

/-- The styles that are on behind a text, if `styles` are on before it. -/
def stylesAfter (styles : Styles) (t : Text) : Styles :=
  (t.shownChars.foldl ControlState.next ⟨none, styles⟩).styles

end Text

/-- The sequence that switches styles on, nothing if there are none. -/
def styleSequence (s : Styles) : Text :=
  if s.isEmpty then [] else "\x1b[" ++ Text.joinWith ";" (s.map Text.ofInt) ++ "m"

def resetSequence : Text := "\x1b[0m"

end HackStack
