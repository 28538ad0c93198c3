import HackStack.Yaml.Token
import Std.Data.HashMap

/-!
# The queue of tokens

Tokens are found one after the other and wait in a queue until they are taken. Indentation is made
explicit by tokens that start and end block collections. A word becomes the key of a mapping only
when a colon follows it, so its token is noted as a possible key, and the tokens that make it a key
are put in front of it later; if it has been taken by then, they go to the end.

A token can be taken when two more tokens follow it in the queue and it is no possible key any more
(`Queue.ready`). Nothing behind them has been looked at.
-/

namespace HackStack.Yaml

/-- A token that becomes a key if a colon follows. -/
structure PossibleKey where
  /-- Whether a colon can still make it a key. -/
  possible : Bool
  /-- Whether nothing but a key may stand there. -/
  required : Bool
  /-- The number of the token. -/
  token : Nat
  index : Nat
  line : Nat
  column : Nat

/-- No key, noted where token number `token` is found at a cursor. -/
def PossibleKey.absent (token : Nat) (c : Cursor) : PossibleKey :=
  ⟨false, false, token, c.index, c.line, c.column⟩

/-- The tokens of a text as far as it has been read. -/
structure Queue where
  cursor : Cursor
  /-- The column of the innermost block collection, -1 outside of all. -/
  indent : Int
  /-- The columns of the collections around it. -/
  outer : List Int
  /-- How many collections there are around it. -/
  depth : Nat
  keyAllowed : Bool
  /-- The possible key of the block context and of each open flow collection, innermost last. -/
  keys : Array PossibleKey
  /-- The numbers of the tokens that are possible keys, each with the place of its key. -/
  waiting : Std.HashMap Nat Nat
  /-- All tokens found so far. -/
  tokens : Array Token
  /-- How many tokens have been taken. -/
  taken : Nat

namespace Queue

/-- How deep collections may be nested. -/
def maxDepth : Nat := 10000

def start (t : Text) : Queue :=
  let c := Cursor.start t
  { cursor := c, indent := -1, outer := [], depth := 0, keyAllowed := true
    keys := #[.absent 0 c], waiting := ∅, tokens := #[⟨.streamStart, 0⟩], taken := 0 }

def inFlow (q : Queue) : Bool := 1 < q.keys.size

def push (q : Queue) (kind : TokenKind) : Queue :=
  { q with tokens := q.tokens.push ⟨kind, q.cursor.line⟩ }

/-- Appends a token of `width` characters. -/
def pushSkip (q : Queue) (kind : TokenKind) (width : Nat) : Queue :=
  let token : Token := ⟨kind, q.cursor.line⟩
  { q with tokens := q.tokens.push token, cursor := q.cursor.skipBy width }

/-- Puts a token in front of token number `n`, or at the end if that one has been taken. -/
def insert (q : Queue) (n : Nat) (token : Token) : Queue :=
  { q with
    tokens := if n < q.taken then q.tokens.push token else q.tokens.insertIdxIfInBounds n token }

def key (q : Queue) : PossibleKey := q.keys.back?.getD (.absent 0 q.cursor)

def setKey (q : Queue) (k : PossibleKey) : Queue := { q with keys := q.keys.pop.push k }

/-- Gives up the possible key of the innermost context; a required one is missed. -/
def dropKey (q : Queue) : Option Queue :=
  let k := q.key
  if !k.possible then some q
  else if k.required then none
  else
    let q := q.setKey { k with possible := false }
    some { q with waiting := q.waiting.erase k.token }

/-- Notes the next token as a possible key, where one is allowed. -/
def saveKey (q : Queue) : Option Queue :=
  if q.keyAllowed then
    let c := q.cursor
    let required := !q.inFlow && q.indent == c.column
    q.dropKey.map fun q =>
      let q := q.setKey ⟨true, required, q.tokens.size, c.index, c.line, c.column⟩
      { q with waiting := q.waiting.insert q.tokens.size (q.keys.size - 1) }
  else some q

/-- Whether a colon at the cursor can still make a key of the one at place `i`: it has to stand on
the same line and not too far off. A key that has become impossible is noted so; a required one is
missed. -/
def checkKey (q : Queue) (i : Nat) : Option (Bool × Queue) :=
  let k := q.keys[i]?.getD (.absent 0 q.cursor)
  if !k.possible then some (false, q)
  else if k.line < q.cursor.line || k.index + 1024 < q.cursor.index then
    if k.required then none
    else some (false, { q with keys := q.keys.setIfInBounds i { k with possible := false } })
  else some (true, q)

/-- Starts a block collection at `column` if it is deeper than the present one. Its first token
goes before token number `at?`, or to the end. -/
def roll (q : Queue) (column : Nat) (at? : Option Nat) (kind : TokenKind) (line : Nat) :
    Option Queue :=
  if !q.inFlow && q.indent < column then
    if maxDepth ≤ q.depth then none
    else
      let q := q.insert (at?.getD q.tokens.size) ⟨kind, line⟩
      some { q with indent := column, outer := q.indent :: q.outer, depth := q.depth + 1 }
  else some q

/-- Ends the block collections deeper than `column`. -/
def unrollFrom (column : Int) (line : Nat) : Int → List Int → Nat → Array Token →
    Int × List Int × Nat × Array Token
  | indent, [], depth, tokens => (indent, [], depth, tokens)
  | indent, next :: outer, depth, tokens =>
    if column < indent then
      unrollFrom column line next outer (depth - 1) (tokens.push ⟨.blockEnd, line⟩)
    else (indent, next :: outer, depth, tokens)

/-- Ends the block collections deeper than `column`, unless a flow collection is open. -/
def unroll (q : Queue) (column : Int) : Queue :=
  if q.inFlow || q.indent ≤ column then q
  else
    let (indent, outer, depth, tokens) :=
      unrollFrom column q.cursor.line q.indent q.outer q.depth q.tokens
    { q with indent, outer, depth, tokens }

def leaveAll (q : Queue) : Option Queue :=
  (q.unroll (-1)).dropKey.map fun q => { q with keyAllowed := false }

end Queue

namespace Cursor

/-- How far comments are looked for. -/
def commentReach : Nat := 512

/-- Looks for a comment behind gaps, and behind line ends if `acrossLines`, from the character `k`
places ahead on: how far ahead it starts, if there is one. -/
def seekComment (acrossLines : Bool) : Nat → Nat → Cursor → Option (Option Nat × Cursor)
  | 0, _, c => some (none, c)
  | fuel + 1, k, c =>
    match c.need (k + 1) with
    | none => none
    | some c =>
      let x := c.look k
      if isGap x || (acrossLines && (x == '\n' || x == '\r')) then
        seekComment acrossLines fuel (k + 1) c
      else if acrossLines && isBreak x then (c.need (k + 2)).map fun c => (none, c)
      else some (if x == '#' then some k else none, c)

/-- Passes gaps and line ends up to the place with number `index`. -/
def skipTo (index : Nat) : Nat → Cursor → Option Cursor
  | 0, c => some c
  | fuel + 1, c =>
    match c.need 1 with
    | none => none
    | some c =>
      if index ≤ c.index then some c
      else if isBreak c.peek then
        match c.passBreak with
        | none => none
        | some c => skipTo index fuel c
      else skipTo index fuel c.skip

/-- Passes a comment and the comment lines that follow it. The cursor stays at the end of the last
comment's line. -/
def skipComments : Nat → Cursor → Option Cursor
  | 0, c => some c
  | fuel + 1, c =>
    match c.skipLine with
    | none => none
    | some c =>
      if isBreak c.peek && c.peek != '\n' && c.peek != '\r' then c.need 2
      else
        match seekComment true (commentReach - 1) 1 c with
        | none => none
        | some (none, c) => some c
        | some (some k, c) =>
          match skipTo (c.index + k) commentReach c with
          | none => none
          | some c => skipComments fuel c

/-- Passes a comment behind a token on the same line. -/
def skipLineComment (c : Cursor) : Option Cursor :=
  if c.breaks != 0 then some c
  else do
    match ← seekComment false commentReach 0 c with
    | (some k, c) => (c.skipBy k).skipLine
    | (none, c) => some c

end Cursor

namespace Queue

/-- Passes white space and comments before the next token. A tab may not indent a key. A byte order
mark makes every line lose its first character until more of the text is decoded. -/
def toToken : Nat → Queue → Option Queue
  | 0, q => some q
  | fuel + 1, q =>
    let passed? : Option Cursor := do
      let c ← q.cursor.need 1
      let c := if c.column == 0 && c.marked then c.skip else c
      let c ← c.skipWhile fun x => x == ' ' || ((q.inFlow || !q.keyAllowed) && x == '\t')
      if c.peek == '#' then c.skipComments c.size else some c
    match passed? with
    | none => none
    | some c =>
      if isBreak c.peek then
        match c.passBreak with
        | none => none
        | some c => toToken fuel { q with cursor := c, keyAllowed := q.keyAllowed || !q.inFlow }
      else some { q with cursor := c }

def fetchEnd (q : Queue) : Option Queue :=
  let c := q.cursor
  let q := if c.column == 0 then q
    else { q with cursor := { c with column := 0, line := c.line + 1 } }
  q.leaveAll.map fun q => q.push .streamEnd

def fetchDocumentMark (q : Queue) (kind : TokenKind) : Option Queue :=
  q.leaveAll.map fun q => q.pushSkip kind 3

def fetchDirective (q : Queue) : Option Queue := do
  let q ← q.leaveAll
  let (kind, c) ← readDirective q.cursor
  pure { q.push kind with cursor := c }

def openFlow (q : Queue) (kind : TokenKind) : Option Queue := do
  let q ← q.saveKey
  let q := { q with keys := q.keys.push (.absent q.tokens.size q.cursor), keyAllowed := true }
  if maxDepth + 1 < q.keys.size then none else some (q.pushSkip kind 1)

/-- The closing bracket of a flow collection. The token that its own key was noted for waits no
longer. -/
def closeFlow (q : Queue) (kind : TokenKind) : Option Queue := do
  let q ← q.dropKey
  let q :=
    if q.inFlow then { q with waiting := q.waiting.erase q.key.token, keys := q.keys.pop } else q
  some { q.pushSkip kind 1 with keyAllowed := false }

def fetchFlowEntry (q : Queue) : Option Queue :=
  q.dropKey.map fun q => { q.pushSkip .flowEntry 1 with keyAllowed := true }

/-- The dash of a block sequence. -/
def fetchBlockEntry (q : Queue) : Option Queue := do
  if !q.inFlow && !q.keyAllowed then none
  else
    let q ← q.roll q.cursor.column none .blockSequenceStart q.cursor.line
    let q ← q.dropKey
    some { q.pushSkip .blockEntry 1 with keyAllowed := true }

/-- The question mark before a key. -/
def fetchKey (q : Queue) : Option Queue := do
  if !q.inFlow && !q.keyAllowed then none
  else
    let q ← q.roll q.cursor.column none .blockMappingStart q.cursor.line
    let q ← q.dropKey
    some { q.pushSkip .key 1 with keyAllowed := !q.inFlow }

def fetchValue (q : Queue) : Option Queue := do
  let (valid, q) ← q.checkKey (q.keys.size - 1)
  if valid then
    let k := q.key
    let q := q.insert k.token ⟨.key, k.line⟩
    let q ← q.roll k.column (some k.token) .blockMappingStart k.line
    let q := q.setKey { k with possible := false }
    let q := { q with waiting := q.waiting.erase k.token }
    some { q.pushSkip .value 1 with keyAllowed := false }
  else if !q.inFlow && !q.keyAllowed then none
  else
    let q ← q.roll q.cursor.column none .blockMappingStart q.cursor.line
    some { q.pushSkip .value 1 with keyAllowed := !q.inFlow }

/-- An anchor or an alias. -/
def fetchName (q : Queue) (kind : Text → TokenKind) : Option Queue := do
  let q ← q.saveKey
  let (name, c) ← readName q.cursor.skip
  some { q.push (kind name) with cursor := c, keyAllowed := false }

def fetchTag (q : Queue) : Option Queue := do
  let q ← q.saveKey
  let (handle, rest, c) ← readTag q.cursor
  some { q.push (.tag handle rest) with cursor := c, keyAllowed := false }

def fetchBlockScalar (q : Queue) (literal : Bool) : Option Queue := do
  let q ← q.dropKey
  let (out, c) ← readBlock literal q.indent q.cursor.skip
  some { q.push (.scalar (Text.ofChars out.toList) false) with cursor := c, keyAllowed := true }

def fetchQuoted (q : Queue) (single : Bool) : Option Queue := do
  let q ← q.saveKey
  let (out, c) ← readQuoted single q.cursor.size q.cursor.skip #[]
  some { q.push (.scalar (Text.ofChars out.toList) false) with cursor := c, keyAllowed := false }

def fetchPlain (q : Queue) : Option Queue := do
  let q ← q.saveKey
  let c := q.cursor
  let (out, folded, c) ← readPlain q.inFlow (q.indent + 1) c.size c .none #[]
  some { q.push (.scalar (Text.ofChars out.toList) true) with cursor := c, keyAllowed := folded }

/-- Whether a plain scalar may start at the cursor. -/
def startsPlain (q : Queue) : Bool :=
  let c := q.cursor
  let x := c.peek
  !(isWordEnd x || "-?:,[]#&*!|>'\"%@".toList.contains x || x.toNat == 0x7B || x.toNat == 0x7D ||
      x.toNat == 0x60) ||
    (x == '-' && !isGap (c.look 1)) ||
    (!q.inFlow && (x == '?' || x == ':') && !isWordEnd (c.look 1))

def fetchHere (q : Queue) : Option Queue :=
  let c := q.cursor
  let x := c.peek
  if x == '[' then q.openFlow .flowSequenceStart
  else if x.toNat == 0x7B then q.openFlow .flowMappingStart
  else if x == ']' then q.closeFlow .flowSequenceEnd
  else if x.toNat == 0x7D then q.closeFlow .flowMappingEnd
  else if x == ',' then q.fetchFlowEntry
  else if x == '-' && isWordEnd (c.look 1) then q.fetchBlockEntry
  else if x == '?' && (q.inFlow || isWordEnd (c.look 1)) then q.fetchKey
  else if x == ':' && (q.inFlow || isWordEnd (c.look 1)) then q.fetchValue
  else if x == '*' then q.fetchName .reference
  else if x == '&' then q.fetchName .anchor
  else if x == '!' then q.fetchTag
  else if x == '|' && !q.inFlow then q.fetchBlockScalar true
  else if x == '>' && !q.inFlow then q.fetchBlockScalar false
  else if x == '\'' then q.fetchQuoted true
  else if x == '"' then q.fetchQuoted false
  else if q.startsPlain then q.fetchPlain
  else none

/-- Passes a comment behind the last token. A dash has none: the comment belongs to what follows. -/
def skipLineComment (q : Queue) : Option Queue :=
  match q.tokens.back? with
  | some ⟨.blockEntry, _⟩ => some q
  | _ => q.cursor.skipLineComment.map fun c => { q with cursor := c }

/-- Finds the next token, with those that it brings along. -/
def fetch (q : Queue) : Option Queue := do
  let q ← toToken q.cursor.size q
  let q := q.unroll q.cursor.column
  let c ← q.cursor.need 4
  let q := { q with cursor := c }
  if c.atEnd then q.fetchEnd
  else if c.column == 0 && c.peek == '%' then q.fetchDirective
  else if c.atMark '-' then q.fetchDocumentMark .documentStart
  else if c.atMark '.' then q.fetchDocumentMark .documentEnd
  else q.fetchHere.bind skipLineComment

/-- Whether the next token cannot be taken yet: two tokens have to follow it, and it must not be a
possible key. -/
def lacks (q : Queue) : Option (Bool × Queue) :=
  if q.taken + 2 < q.tokens.size then
    match q.waiting[q.taken]? with
    | none => some (false, q)
    | some i => q.checkKey i
  else some (true, q)

/-- Finds tokens until the next one can be taken; each round of `fuel` finds one. -/
def ready : Nat → Queue → Option Queue
  | 0, _ => none
  | fuel + 1, q =>
    match q.lacks with
    | none => none
    | some (false, q) => some q
    | some (true, q) =>
      match q.fetch with
      | none => none
      | some q => ready fuel q

end Queue

end HackStack.Yaml
