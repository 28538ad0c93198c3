import HackStack.Yaml.Scalar

/-!
# Tokens of a YAML text

The tokens of a text, and the readers of those that are neither a single character nor a scalar:
names, tags and directives.
-/

namespace HackStack.Yaml

inductive TokenKind where
  | streamStart
  | streamEnd
  | version (major minor : Nat)
  | tagHandle (handle expansion : Text)
  | documentStart
  | documentEnd
  | blockSequenceStart
  | blockMappingStart
  | blockEnd
  | flowSequenceStart
  | flowSequenceEnd
  | flowMappingStart
  | flowMappingEnd
  | blockEntry
  | flowEntry
  | key
  | value
  | reference (name : Text)
  | anchor (name : Text)
  | tag (handle rest : Text)
  | scalar (value : Text) (plain : Bool)
  deriving DecidableEq

/-- A token and the number of the line where it starts, counted from zero. -/
structure Token where
  kind : TokenKind
  line : Nat

/-- The name of an anchor behind its indicator. Only some characters may follow it. -/
def readName (c : Cursor) : Option (Text × Cursor) := do
  let (name, c) ← c.takeWhile isNameChar
  let x := c.peek
  if name.isEmpty ||
      !(isWordEnd x || x == '?' || x == ':' || x == ',' || x == ']' || x.toNat == 0x7D ||
        x == '%' || x == '@' || x.toNat == 0x60) then none
  else some (Text.ofChars name, c)

def isTagChar (c : Char) : Bool := isNameChar c || ";/?:@&=+$,.!~*'()[]%".toList.contains c

/-- The byte that an escape spells: a percent sign and two hexadecimal digits. -/
def readOctet (c : Cursor) : Option (UInt8 × Cursor) := do
  let c ← c.need 3
  if c.peek != '%' then none
  else
    let x ← hexValue? (c.look 1)
    let y ← hexValue? (c.look 2)
    pure ((16 * x + y).toUInt8, c.skipBy 3)

/-- The bytes of `n` escapes that continue a character. -/
def readTrailing : Nat → Cursor → Array UInt8 → Option (Array UInt8 × Cursor)
  | 0, c, out => some (out, c)
  | n + 1, c, out => do
    let (b, c) ← readOctet c
    if isTrailing b then readTrailing n c (out.push b) else none

/-- The bytes of a character that is written as escapes. The first byte tells how many there are. -/
def readEscapes (c : Cursor) (out : Array UInt8) : Option (Array UInt8 × Cursor) := do
  let (b, c) ← readOctet c
  let (width, _) ← leadByte? b
  readTrailing (width - 1) c (out.push b)

/-- The bytes of tag characters, at most `fuel` of them. -/
def readTagChars : Nat → Cursor → Array UInt8 → Option (Array UInt8 × Cursor)
  | 0, c, out => some (out, c)
  | fuel + 1, c, out =>
    if isTagChar c.peek then do
      let (out, c) ←
        if c.peek == '%' then readEscapes c out else some (out ++ Text.ofChar c.peek, c.skip)
      let c ← c.need 1
      readTagChars fuel c out
    else some (out, c)

/-- The part of a tag at the cursor, behind `before` without its first character; something has to
be there. -/
def readTagPart (before : Text) (c : Cursor) : Option (Text × Cursor) := do
  let d ← c.need 1
  let (out, d) ← readTagChars d.size d before.tail.toArray
  if before.isEmpty && c.index == d.index then none else some (out.toList, d)

/-- The handle of a tag: `!`, `!!` or `!name!`, or else what might be the start of a tag. -/
def readTagHandle (c : Cursor) : Option (Text × Cursor) := do
  let c ← c.need 1
  if c.peek != '!' then none
  else
    let (name, c) ← c.skip.takeWhile isNameChar
    let name := Text.ofChars ('!' :: name)
    if c.peek == '!' then some (name ++ "!", c.skip) else some (name, c)

def readTag (c : Cursor) : Option (Text × Text × Cursor) := do
  let c ← c.need 2
  let (handle, rest, c) ←
    if c.look 1 == '<' then do
      let (rest, c) ← readTagPart [] (c.skipBy 2)
      if c.peek == '>' then some (([] : Text), rest, c.skip) else none
    else do
      let (handle, c) ← readTagHandle c
      if 1 < handle.length && handle.getLast? == some 0x21 then
        let (rest, c) ← readTagPart [] c
        pure (handle, rest, c)
      else
        let (rest, c) ← readTagPart handle c
        pure (if rest.isEmpty then (([] : Text), ("!" : Text), c) else ("!", rest, c))
  let c ← c.need 1
  if isWordEnd c.peek then some (handle, rest, c) else none

def readVersionNumber (c : Cursor) : Option (Nat × Cursor) := do
  let (digits, c) ← c.takeWhile Char.isDigit
  if digits.isEmpty || 2 < digits.length then none
  else some (digits.foldl (fun n d => 10 * n + (d.toNat - 0x30)) 0, c)

def readVersion (c : Cursor) : Option (TokenKind × Cursor) := do
  let (major, c) ← readVersionNumber (← c.skipWhile isGap)
  if c.peek != '.' then none
  else
    let (minor, c) ← readVersionNumber c.skip
    pure (.version major minor, c)

/-- The handle of a tag directive and what it stands for. -/
def readHandle (c : Cursor) : Option (TokenKind × Cursor) := do
  let (handle, c) ← readTagHandle (← c.skipWhile isGap)
  let c ← c.need 1
  if handle.getLast? != some 0x21 || !isGap c.peek then none
  else
    let (expansion, c) ← readTagPart [] (← c.skipWhile isGap)
    let c ← c.need 1
    if isWordEnd c.peek then some (.tagHandle handle expansion, c) else none

def readDirective (c : Cursor) : Option (TokenKind × Cursor) := do
  let (name, c) ← c.skip.takeWhile isNameChar
  if !isWordEnd c.peek then none
  else
    let (kind, c) ←
      if name == "YAML".toList then readVersion c
      else if name == "TAG".toList then readHandle c
      else none
    let c ← c.skipWhile isGap
    let c ← if c.peek == '#' then c.skipLine else some c
    if isLineEnd c.peek then (c.passBreakIfAny).map fun c => (kind, c) else none

end HackStack.Yaml
