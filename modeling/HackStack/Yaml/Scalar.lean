import HackStack.Yaml.Cursor

/-!
# Scalars in a YAML text

The four ways to write a scalar: plain, quoted once or twice, and as a block of lines. Each reader
takes the cursor at the start of the scalar and gives its characters and the cursor behind it, or
nothing if the text is malformed. A reader's `fuel` bounds the number of its rounds; each round
passes at least one character, so the size of the text is enough.
-/

namespace HackStack.Yaml

/-- White space met inside a scalar: gaps within a line, or a line end with the ones after it. -/
structure Space where
  gaps : Array Char
  /-- The first line end. -/
  first : List Char
  /-- The line ends after the first. -/
  later : Array Char
  /-- Whether the white space reaches over a line end. -/
  folded : Bool

namespace Space

def none : Space := ⟨#[], [], #[], false⟩

/-- What white space between two parts of a scalar stands for: a single line end is a blank. -/
def join (s : Space) : Array Char :=
  if s.folded then
    if s.first.head? == some '\n' then if s.later.isEmpty then #[' '] else s.later
    else s.first.toArray ++ s.later
  else s.gaps

/-- Passes gaps and line ends, at most `fuel` of them. A tab after a line end in a column before
`margin` is refused. -/
def read (margin : Int) : Nat → Cursor → Space → Option (Space × Cursor)
  | 0, c, s => some (s, c)
  | fuel + 1, c, s =>
    if isGap c.peek then
      if s.folded && c.peek == '\t' && (c.column : Int) < margin then Option.none
      else
        let s := if s.folded then s else { s with gaps := s.gaps.push c.peek }
        match c.skip.need 1 with
        | Option.none => Option.none
        | some c => read margin fuel c s
    else if isBreak c.peek then
      let s :=
        if s.folded then { s with later := s.later ++ c.breakChars }
        else ⟨#[], c.breakChars, s.later, true⟩
      match c.passBreak.bind (·.need 1) with
      | Option.none => Option.none
      | some c => read margin fuel c s
    else some (s, c)

end Space

/-- Whether a plain scalar ends before the character at the cursor. -/
def endsPlain (inFlow : Bool) (c : Cursor) : Bool :=
  let x := c.peek
  isWordEnd x || (x == ':' && isWordEnd (c.look 1)) ||
    (inFlow && (x == ',' || x == '?' || x == '[' || x == ']' || x.toNat == 0x7B || x.toNat == 0x7D))

/-- The characters of a plain scalar up to the next gap or indicator. -/
def plainRun (inFlow : Bool) : Nat → Cursor → Array Char → Option (Array Char × Cursor)
  | 0, c, out => some (out, c)
  | fuel + 1, c, out =>
    if endsPlain inFlow c then some (out, c)
    else
      match c.skip.need 2 with
      | none => none
      | some d => plainRun inFlow fuel d (out.push c.peek)

/-- A plain scalar. Also tells whether a line end follows it. Outside of flow collections its lines
stand at least at the column `margin`. -/
def readPlain (inFlow : Bool) (margin : Int) (fuel : Nat) (c : Cursor) (space : Space)
    (out : Array Char) : Option (Array Char × Bool × Cursor) :=
  match fuel with
  | 0 => some (out, space.folded, c)
  | fuel + 1 =>
    match c.need 4 with
    | none => none
    | some c =>
      if c.atDocumentMark || c.peek == '#' || endsPlain inFlow c then some (out, space.folded, c)
      else
        match plainRun inFlow c.size c (out ++ space.join) with
        | none => none
        | some (out, c) =>
          if isGap c.peek || isBreak c.peek then
            match Space.read margin c.size c .none with
            | none => none
            | some (space, c) =>
              if !inFlow && (c.column : Int) < margin then some (out, space.folded, c)
              else readPlain inFlow margin fuel c space out
          else some (out, false, c)

/-- The characters of an escape of one letter. -/
def escapeChar? (c : Char) : Option Char :=
  match c with
  | '0' => some (Char.ofNat 0x00)
  | 'a' => some (Char.ofNat 0x07)
  | 'b' => some (Char.ofNat 0x08)
  | 't' => some '\t'
  | '\t' => some '\t'
  | 'n' => some '\n'
  | 'v' => some (Char.ofNat 0x0B)
  | 'f' => some (Char.ofNat 0x0C)
  | 'r' => some '\r'
  | 'e' => some (Char.ofNat 0x1B)
  | ' ' => some ' '
  | '"' => some '"'
  | '\'' => some '\''
  | '\\' => some '\\'
  | 'N' => some (Char.ofNat 0x85)
  | '_' => some (Char.ofNat 0xA0)
  | 'L' => some (Char.ofNat 0x2028)
  | 'P' => some (Char.ofNat 0x2029)
  | _ => none

def hexValue? (c : Char) : Option Nat :=
  if c.isDigit then some (c.toNat - 0x30)
  else if 'a' ≤ c && c ≤ 'f' then some (c.toNat - 0x57)
  else if 'A' ≤ c && c ≤ 'F' then some (c.toNat - 0x37)
  else none

/-- The character whose number the next `width` hexadecimal digits give. -/
def numberedChar? (c : Cursor) (width : Nat) : Option Char := do
  let digits ← (c.ahead.take width).mapM hexValue?
  if digits.length < width then none
  else
    let n := digits.foldl (fun n d => 16 * n + d) 0
    if n.isValidChar then some (Char.ofNat n) else none

/-- The character that the escape at the cursor stands for, and the cursor behind it. -/
def readEscape (c : Cursor) : Option (Char × Cursor) :=
  let numbered (width : Nat) : Option (Char × Cursor) := do
    let c ← (c.skipBy 2).need width
    let x ← numberedChar? c width
    pure (x, c.skipBy width)
  match c.look 1 with
  | 'x' => numbered 2
  | 'u' => numbered 4
  | 'U' => numbered 8
  | x => (escapeChar? x).map fun y => (y, c.skipBy 2)

/-- The characters of a quoted scalar up to the next gap, line end or closing quote. Also tells
whether an escaped line end was passed. -/
def quotedRun (single : Bool) : Nat → Cursor → Array Char → Option (Array Char × Bool × Cursor)
  | 0, c, out => some (out, false, c)
  | fuel + 1, c, out =>
    let x := c.peek
    let go (y : Char) (c : Cursor) :=
      match c.need 2 with
      | none => none
      | some c => quotedRun single fuel c (out.push y)
    if isWordEnd x then some (out, false, c)
    else if single && x == '\'' then
      if c.look 1 == '\'' then go '\'' (c.skipBy 2) else some (out, false, c)
    else if !single && x == '"' then some (out, false, c)
    else if !single && x == '\\' then
      if isBreak (c.look 1) then (c.need 3).map fun c => (out, true, c.skip.skipBreak)
      else
        match readEscape c with
        | none => none
        | some (y, c) => go y c
    else go x c.skip

/-- A quoted scalar from behind its opening quote. -/
def readQuoted (single : Bool) (fuel : Nat) (c : Cursor) (out : Array Char) :
    Option (Array Char × Cursor) :=
  match fuel with
  | 0 => none
  | fuel + 1 =>
    match c.need 4 with
    | none => none
    | some c =>
      if c.atDocumentMark || c.atEnd then none
      else
        match (quotedRun single c.size c out) with
        | none => none
        | some (out, escaped, c) =>
          match c.need 1 with
          | none => none
          | some c =>
            if c.peek == (if single then '\'' else '"') then some (out, c.skip)
            else
              match Space.read 0 c.size c { Space.none with folded := escaped } with
              | none => none
              | some (space, c) => readQuoted single fuel c (out ++ space.join)

/-- What the header of a block scalar says: which line ends at its end are kept (1 all, 0 one, -1
none), and how far it is indented, zero if not said. -/
structure BlockHeader where
  chomp : Int
  increment : Nat

/-- The sign in a block scalar's header. -/
def chompSign? (c : Char) : Option Int :=
  if c == '+' then some 1 else if c == '-' then some (-1) else none

/-- The header of a block scalar from behind its indicator. -/
def readBlockHeader (c : Cursor) : Option (BlockHeader × Cursor) := do
  let c ← c.need 1
  match chompSign? c.peek with
  | some chomp =>
    let c ← c.skip.need 1
    if c.peek == '0' then none
    else if c.peek.isDigit then some (⟨chomp, c.peek.toNat - 0x30⟩, c.skip)
    else some (⟨chomp, 0⟩, c)
  | none =>
    if c.peek == '0' then none
    else if c.peek.isDigit then
      let increment := c.peek.toNat - 0x30
      let c ← c.skip.need 1
      match chompSign? c.peek with
      | some chomp => some (⟨chomp, increment⟩, c.skip)
      | none => some (⟨0, increment⟩, c)
    else some (⟨0, 0⟩, c)

/-- Passes the indentation of a block scalar and its empty lines: the line ends, the widest column
reached, and the cursor. An indentation of zero is not known yet. -/
def readIndentation (indent : Nat) :
    Nat → Cursor → Nat → Array Char → Option (Array Char × Nat × Cursor)
  | 0, c, widest, out => some (out, widest, c)
  | fuel + 1, c, widest, out =>
    match c.need 1 with
    | none => none
    | some c =>
      let indenting := indent == 0 || c.column < indent
      if indenting && c.peek == ' ' then readIndentation indent fuel c.skip widest out
      else
        let widest := max widest c.column
        if indenting && c.peek == '\t' then none
        else if isBreak c.peek then
          match c.passBreak with
          | none => none
          | some d => readIndentation indent fuel d widest (out ++ c.breakChars)
        else some (out, widest, c)

/-- What a block scalar has read: its characters, the line end of the last line, and the empty
lines after it. -/
structure BlockText where
  out : Array Char
  lineEnd : List Char
  empties : Array Char
  /-- Whether the last line starts with a gap; such lines are not joined with others. -/
  gapped : Bool

/-- The lines of a block scalar that is indented to the column `indent`. -/
def readBlockLines (literal : Bool) (indent : Nat) (fuel : Nat) (c : Cursor) (t : BlockText) :
    Option (BlockText × Cursor) :=
  match fuel with
  | 0 => some (t, c)
  | fuel + 1 =>
    if c.column != indent || c.atEnd then some (t, c)
    else
      let gapped := isGap c.peek
      let joint :=
        if !literal && !t.gapped && !gapped && t.lineEnd.head? == some '\n' then
          if t.empties.isEmpty then [' '] else []
        else t.lineEnd
      let out := t.out ++ joint ++ t.empties
      match (Cursor.collectWhile (fun x => !isLineEnd x) c.size c out).bind fun (out, c) =>
          (c.need 2).map fun c => (out, c) with
      | none => none
      | some (out, c) =>
        match readIndentation indent c.size c.skipBreak 0 #[] with
        | none => none
        | some (empties, _, d) =>
          readBlockLines literal indent fuel d ⟨out, c.breakChars, empties, gapped⟩

/-- A block scalar from behind its indicator, in a collection indented to `parent`. -/
def readBlock (literal : Bool) (parent : Int) (c : Cursor) : Option (Array Char × Cursor) := do
  let (header, c) ← readBlockHeader c
  let c ← c.skipWhile isGap
  let c ← if c.peek == '#' then c.skipLine else some c
  if !isLineEnd c.peek then none
  else
    let c ← c.passBreakIfAny
    let known := if header.increment == 0 then 0 else (max parent 0).toNat + header.increment
    let (empties, widest, c) ← readIndentation known c.size c 0 #[]
    let indent := if known == 0 then max (max widest (parent + 1).toNat) 1 else known
    let (t, c) ← readBlockLines literal indent c.size c ⟨#[], [], empties, false⟩
    let out := if header.chomp == -1 then t.out else t.out ++ t.lineEnd
    pure (if header.chomp == 1 then out ++ t.empties else out, c)

end HackStack.Yaml
