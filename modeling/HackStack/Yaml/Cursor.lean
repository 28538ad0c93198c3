import HackStack.Yaml.Feed

/-!
# A place in a YAML text

A cursor is a place in a text with the characters that have been decoded from there on. More are
decoded when they are needed: `need` sees to it that some are there, and fails if they lie in a
window with a fault. Beyond the end of the text a cursor sees the character `endMark`, which no YAML
text contains.
-/

namespace HackStack.Yaml

/-- What a cursor sees beyond the end of the text. -/
def endMark : Char := Char.ofNat 0

def isGap (c : Char) : Bool := c == ' ' || c == '\t'

def isBreak (c : Char) : Bool :=
  c == '\n' || c == '\r' || c.toNat == 0x85 || c.toNat == 0x2028 || c.toNat == 0x2029

/-- The end of a line or of the text. -/
def isLineEnd (c : Char) : Bool := isBreak c || c == endMark

/-- The end of a word: a gap, or the end of a line or of the text. -/
def isWordEnd (c : Char) : Bool := isGap c || isLineEnd c

/-- A character of an anchor's or a directive's name. -/
def isNameChar (c : Char) : Bool := c.isAlphanum || c == '_' || c == '-'

/-- A place in a text. Lines and columns count from zero. -/
structure Cursor where
  /-- The decoded characters from here on. -/
  ahead : List Char
  /-- The windows that follow. -/
  feed : List Batch
  /-- Whether a byte order mark stood where characters were decoded last. -/
  marked : Bool
  index : Nat
  line : Nat
  column : Nat
  /-- The number of line ends just before this place, gaps aside. -/
  breaks : Nat
  /-- A bound on the number of characters of the text. -/
  size : Nat

namespace Cursor

def start (t : Text) : Cursor := ⟨[], batches t, false, 0, 0, 0, 0, t.length + 8⟩

/-- Decodes windows until there are `n` characters. At the end of the text the end mark is added. -/
def fill (n : Nat) : List Char → List Batch → Option (List Char × List Batch)
  | ahead, [] => some (ahead ++ [endMark], [])
  | _, none :: _ => none
  | ahead, some cs :: feed =>
    let ahead := ahead ++ cs
    if n ≤ ahead.length then some (ahead, feed) else fill n ahead feed

/-- The same place with at least `n` decoded characters, if the text has as many. -/
def need (c : Cursor) (n : Nat) : Option Cursor :=
  if (c.ahead.drop (n - 1)).isEmpty then
    (fill n c.ahead c.feed).map fun (ahead, feed) =>
      { c with ahead, feed, marked := ahead.head?.any fun x => x.toNat == 0xFEFF }
  else some c

def look (c : Cursor) (k : Nat) : Char := c.ahead[k]?.getD endMark

def peek (c : Cursor) : Char := c.ahead.head?.getD endMark

def atEnd (c : Cursor) : Bool := c.peek == endMark

/-- Passes one character of a line. -/
def skip (c : Cursor) : Cursor :=
  { c with
    ahead := c.ahead.tail, index := c.index + 1, column := c.column + 1
    breaks := if isGap c.peek then c.breaks else 0 }

def skipBy (c : Cursor) (k : Nat) : Cursor := k.repeat skip c

/-- Passes a line end, if the cursor is at one. -/
def skipBreak (c : Cursor) : Cursor :=
  let pass (k : Nat) :=
    { c with
      ahead := c.ahead.drop k, index := c.index + k, line := c.line + 1, column := 0
      breaks := c.breaks + 1 }
  if c.peek == '\r' && c.look 1 == '\n' then pass 2 else if isBreak c.peek then pass 1 else c

/-- What the line end at the cursor means: line feeds and their like are one, the separators of
lines and paragraphs stand for themselves. -/
def breakChars (c : Cursor) : List Char :=
  let x := c.peek
  if x.toNat == 0x2028 || x.toNat == 0x2029 then [x] else if isBreak x then ['\n'] else []

/-- Passes a line end for which two characters may be needed. -/
def passBreak (c : Cursor) : Option Cursor := (c.need 2).map skipBreak

def passBreakIfAny (c : Cursor) : Option Cursor :=
  if isBreak c.peek then c.passBreak else some c

/-- Passes characters that satisfy `p`, at most `fuel` of them. -/
def passWhile (p : Char → Bool) : Nat → Cursor → Option Cursor
  | 0, c => some c
  | fuel + 1, c =>
    if p c.peek then
      match c.skip.need 1 with
      | none => none
      | some c => passWhile p fuel c
    else some c

/-- Passes the characters that satisfy `p`, which the end mark may not. -/
def skipWhile (c : Cursor) (p : Char → Bool) : Option Cursor :=
  (c.need 1).bind fun c => passWhile p c.size c

/-- Adds characters that satisfy `p` to `out`, at most `fuel` of them. -/
def collectWhile (p : Char → Bool) : Nat → Cursor → Array Char → Option (Array Char × Cursor)
  | 0, c, out => some (out, c)
  | fuel + 1, c, out =>
    if p c.peek then
      match c.skip.need 1 with
      | none => none
      | some d => collectWhile p fuel d (out.push c.peek)
    else some (out, c)

/-- The characters that satisfy `p`, which the end mark may not, and the cursor after them. -/
def takeWhile (c : Cursor) (p : Char → Bool) : Option (List Char × Cursor) :=
  (c.need 1).bind fun c => (collectWhile p c.size c #[]).map fun (cs, c) => (cs.toList, c)

def skipLine (c : Cursor) : Option Cursor := c.skipWhile fun x => !isLineEnd x

/-- Whether three characters `x` that mark a document's end or start stand at a line's start. -/
def atMark (c : Cursor) (x : Char) : Bool :=
  c.column == 0 && c.peek == x && c.look 1 == x && c.look 2 == x && isWordEnd (c.look 3)

/-- Whether a document ends or starts here. -/
def atDocumentMark (c : Cursor) : Bool := c.atMark '-' || c.atMark '.'

end Cursor

end HackStack.Yaml
