import HackStack.Yaml.Queue
import HackStack.Yaml.Tag

/-!
# Documents

A YAML document is a tree of scalars, sequences and mappings. A node can be named, and an alias
stands for the node that its name means at that place; this may be a node that contains the alias.
`Document.ofText?` reads the first document of a text.
-/

namespace HackStack.Yaml

/-- A node of a document with the number of its line, counted from one, and its tag. -/
inductive Node where
  | scalar (line : Nat) (tag value : Text)
  | sequence (line : Nat) (tag : Text) (items : List Node)
  | mapping (line : Nat) (tag : Text) (entries : List (Node × Node))
  /-- An alias, the `number`-th of its document, for the `target`-th named node. -/
  | reference (line : Nat) (name : Text) (number target : Nat)

def Node.line : Node → Nat
  | scalar l _ _ => l
  | sequence l _ _ => l
  | mapping l _ _ => l
  | reference l _ _ _ => l

/-- A document: its tree, and the named nodes in the order in which they start. -/
structure Document where
  root : Node
  named : Array Node
  /-- The number of aliases. -/
  aliases : Nat
  /-- A bound on the number of nodes in the tree. -/
  size : Nat

/-- What reading a document has come to. -/
structure Reader where
  queue : Queue
  /-- The names given so far and the numbers of their nodes, the last first. -/
  anchors : List (Text × Nat)
  /-- The named nodes; one that is being read is an empty scalar. -/
  named : Array Node
  /-- The number of aliases so far. -/
  aliases : Nat
  /-- The handles of tags and what they stand for. -/
  handles : List (Text × Text)

/-- A step of reading, which fails where the text is malformed. -/
abbrev Read := StateT Reader Option

namespace Read

def peek : Read Token := fun r =>
  match r.queue.ready r.queue.cursor.size with
  | none => none
  | some q => q.tokens[q.taken]?.map fun t => (t, { r with queue := q })

def advance : Read Unit := modify fun r => { r with queue.taken := r.queue.taken + 1 }

def kind : Read TokenKind := do return (← peek).kind

def fail {α : Type} : Read α := fun _ => none

end Read

/-- An empty scalar, which is null. -/
def emptyNode (line : Nat) : Node := .scalar (line + 1) Kind.null.tag []

/-- A tag in its short form: the tags of the standard types start with `!!`. -/
def shortTag (t : Text) : Text :=
  let long : Text := "tag:yaml.org,2002:"
  if long.isPrefixOf t then "!!" ++ t.drop long.length else t

structure Properties where
  line : Nat
  anchor : Option Text
  tag : Text

/-- The tag that a handle and the rest of a tag spell. -/
def expandTag (handle rest : Text) : Read Text := do
  if handle.isEmpty then return rest
  else
    match (← get).handles.lookup handle with
    | some expansion =>
      let tag := expansion ++ rest
      if tag.isEmpty then Read.fail else return tag
    | none => Read.fail

/-- The properties at the present place, in either order. -/
def readProperties : Read Properties := do
  let t ← Read.peek
  match t.kind with
  | .anchor name =>
    Read.advance
    match ← Read.kind with
    | .tag handle rest =>
      Read.advance
      return ⟨t.line, some name, ← expandTag handle rest⟩
    | _ => return ⟨t.line, some name, []⟩
  | .tag handle rest =>
    Read.advance
    match ← Read.kind with
    | .anchor name =>
      Read.advance
      return ⟨t.line, some name, ← expandTag handle rest⟩
    | _ => return ⟨t.line, none, ← expandTag handle rest⟩
  | _ => return ⟨t.line, none, []⟩

/-- The tag of a node: the one given, or else the default. -/
def Properties.tagOr (p : Properties) (default : Text) : Text :=
  if p.tag.isEmpty || p.tag == "!" then default else shortTag p.tag

/-- The scalar with the given properties. -/
def Properties.scalar (p : Properties) (value : Text) (plain : Bool) : Node :=
  let default : Text :=
    if !plain then "!!str" else if value == "<<" then "!!merge" else (kindOf value).tag
  .scalar (p.line + 1) (p.tagOr default) value

/-- Names a node that is about to be read: its number, if it has a name. -/
def beginNode (p : Properties) : Read (Option Nat) :=
  match p.anchor with
  | none => pure none
  | some name =>
    modifyGet fun r =>
      let n := r.named.size
      (some n, { r with anchors := (name, n) :: r.anchors, named := r.named.push (emptyNode 0) })

def endNode (number : Option Nat) (n : Node) : Read Node := do
  if let some i := number then
    modify fun r => { r with named := r.named.setIfInBounds i n }
  return n

/-- An alias on a line. -/
def readAlias (line : Nat) (name : Text) : Read Node := do
  match (← get).anchors.lookup name with
  | none => Read.fail
  | some target =>
    modifyGet fun r =>
      (.reference (line + 1) name r.aliases target, { r with aliases := r.aliases + 1 })

inductive Context where
  /-- Inside brackets. -/
  | flow
  /-- An item of a block sequence, or the document itself. -/
  | block
  /-- A key or value of a block mapping, where a sequence needs no indentation. -/
  | inMapping
  deriving DecidableEq

/-- Whether a token cannot start the key or value of a block mapping. -/
def endsBlockPart : TokenKind → Bool
  | .key | .value | .blockEnd => true
  | _ => false

/-- Whether a token cannot start an item of an unindented sequence. -/
def endsPlainItem : TokenKind → Bool
  | .blockEntry | .key | .value | .blockEnd => true
  | _ => false

mutual

def readNode : Nat → Context → Read Node
  | 0, _ => Read.fail
  | fuel + 1, context => do
    let t ← Read.peek
    if let .reference name := t.kind then
      Read.advance
      readAlias t.line name
    else
      let p ← readProperties
      let t ← Read.peek
      match t.kind with
      | .scalar value plain =>
        Read.advance
        endNode (← beginNode p) (p.scalar value plain)
      | .flowSequenceStart =>
        let number ← beginNode p
        Read.advance
        let items ← readFlowSequence fuel true #[]
        endNode number (.sequence (p.line + 1) (p.tagOr "!!seq") items)
      | .flowMappingStart =>
        let number ← beginNode p
        Read.advance
        let entries ← readFlowMapping fuel true #[]
        endNode number (.mapping (p.line + 1) (p.tagOr "!!map") entries)
      | k =>
        if k == .blockEntry && context == .inMapping then
          let number ← beginNode p
          let items ← readPlainSequence fuel #[]
          endNode number (.sequence (p.line + 1) (p.tagOr "!!seq") items)
        else if k == .blockSequenceStart && context != .flow then
          let number ← beginNode p
          Read.advance
          let items ← readBlockSequence fuel #[]
          endNode number (.sequence (p.line + 1) (p.tagOr "!!seq") items)
        else if k == .blockMappingStart && context != .flow then
          let number ← beginNode p
          Read.advance
          let entries ← readBlockMapping fuel #[]
          endNode number (.mapping (p.line + 1) (p.tagOr "!!map") entries)
        else if p.anchor.isSome || !p.tag.isEmpty then
          endNode (← beginNode p) (p.scalar [] true)
        else Read.fail

def readBlockSequence : Nat → Array Node → Read (List Node)
  | 0, _ => Read.fail
  | fuel + 1, items => do
    let t ← Read.peek
    match t.kind with
    | .blockEntry =>
      Read.advance
      let k ← Read.kind
      let item ← if k == .blockEntry || k == .blockEnd then pure (emptyNode t.line)
        else readNode fuel .block
      readBlockSequence fuel (items.push item)
    | .blockEnd =>
      Read.advance
      return items.toList
    | _ => Read.fail

/-- The items of a sequence that is not indented. -/
def readPlainSequence : Nat → Array Node → Read (List Node)
  | 0, _ => Read.fail
  | fuel + 1, items => do
    let t ← Read.peek
    if t.kind == .blockEntry then
      Read.advance
      let item ← if endsPlainItem (← Read.kind) then pure (emptyNode t.line)
        else readNode fuel .block
      readPlainSequence fuel (items.push item)
    else return items.toList

def readBlockMapping : Nat → Array (Node × Node) → Read (List (Node × Node))
  | 0, _ => Read.fail
  | fuel + 1, entries => do
    let t ← Read.peek
    match t.kind with
    | .key =>
      Read.advance
      let key ← if endsBlockPart (← Read.kind) then pure (emptyNode t.line)
        else readNode fuel .inMapping
      let v ← Read.peek
      let value ← if v.kind == .value then do
          Read.advance
          if endsBlockPart (← Read.kind) then pure (emptyNode v.line) else readNode fuel .inMapping
        else pure (emptyNode v.line)
      readBlockMapping fuel (entries.push (key, value))
    | .blockEnd =>
      Read.advance
      return entries.toList
    | _ => Read.fail

/-- The items of a bracketed sequence; all but the first follow a comma. -/
def readFlowSequence : Nat → Bool → Array Node → Read (List Node)
  | 0, _, _ => Read.fail
  | fuel + 1, first, items => do
    if (← Read.kind) == .flowSequenceEnd then
      Read.advance
      return items.toList
    else
      if !first then
        if (← Read.kind) == .flowEntry then Read.advance else Read.fail
      let t ← Read.peek
      match t.kind with
      | .flowSequenceEnd =>
        Read.advance
        return items.toList
      | .key =>
        Read.advance
        let k ← Read.peek
        let key ←
          if k.kind == .value || k.kind == .flowEntry || k.kind == .flowSequenceEnd then do
            Read.advance
            pure (emptyNode k.line)
          else readNode fuel .flow
        let v ← Read.peek
        let value ←
          if v.kind == .value then do
            Read.advance
            let w ← Read.peek
            if w.kind == .flowEntry || w.kind == .flowSequenceEnd then pure (emptyNode w.line)
            else readNode fuel .flow
          else pure (emptyNode v.line)
        readFlowSequence fuel false (items.push (.mapping (t.line + 1) "!!map" [(key, value)]))
      | _ =>
        let item ← readNode fuel .flow
        readFlowSequence fuel false (items.push item)

/-- The entries of a bracketed mapping; all but the first follow a comma. -/
def readFlowMapping : Nat → Bool → Array (Node × Node) → Read (List (Node × Node))
  | 0, _, _ => Read.fail
  | fuel + 1, first, entries => do
    if (← Read.kind) == .flowMappingEnd then
      Read.advance
      return entries.toList
    else
      if !first then
        if (← Read.kind) == .flowEntry then Read.advance else Read.fail
      let t ← Read.peek
      match t.kind with
      | .flowMappingEnd =>
        Read.advance
        return entries.toList
      | .key =>
        Read.advance
        let k ← Read.peek
        let key ←
          if k.kind == .value || k.kind == .flowEntry || k.kind == .flowMappingEnd then
            pure (emptyNode k.line)
          else readNode fuel .flow
        let v ← Read.peek
        let value ←
          if v.kind == .value then do
            Read.advance
            let w ← Read.peek
            if w.kind == .flowEntry || w.kind == .flowMappingEnd then pure (emptyNode w.line)
            else readNode fuel .flow
          else pure (emptyNode v.line)
        readFlowMapping fuel false (entries.push (key, value))
      | _ =>
        let key ← readNode fuel .flow
        let v ← Read.peek
        readFlowMapping fuel false (entries.push (key, emptyNode v.line))

end

/-- The directives before a document; whether there are any and the document is marked as
started. -/
def readDirectives : Nat → Bool → Read Unit
  | 0, _ => Read.fail
  | fuel + 1, versioned => do
    match ← Read.kind with
    | .version major minor =>
      if versioned || major != 1 || minor != 1 then Read.fail
      else
        Read.advance
        readDirectives fuel true
    | .tagHandle handle expansion =>
      if ((← get).handles.lookup handle).isSome then Read.fail
      else
        Read.advance
        modify fun r => { r with handles := (handle, expansion) :: r.handles }
        readDirectives fuel versioned
    | _ => return ()

/-- The handles that every document knows. -/
def standardHandles : List (Text × Text) := [("!", "!"), ("!!", "tag:yaml.org,2002:")]

def readDocument (fuel : Nat) : Read (Option Node) := do
  Read.advance
  match ← Read.kind with
  | .streamEnd => return none
  | .version _ _ | .tagHandle _ _ | .documentStart =>
    readDirectives fuel false
    modify fun r => { r with handles := r.handles ++ standardHandles }
    let t ← Read.peek
    if t.kind != .documentStart then Read.fail
    else
      Read.advance
      match ← Read.peek with
      | ⟨.version _ _, line⟩ | ⟨.tagHandle _ _, line⟩ | ⟨.documentStart, line⟩
      | ⟨.documentEnd, line⟩ | ⟨.streamEnd, line⟩ => return some (emptyNode line)
      | _ =>
        let n ← readNode fuel .block
        let _ ← Read.peek
        return some n
  | _ =>
    modify fun r => { r with handles := standardHandles }
    let n ← readNode fuel .block
    let _ ← Read.peek
    return some n

/-- The first document of a text: nothing if the text is malformed, `some none` if the text holds no
document. -/
def Document.ofText? (t : Text) : Option (Option Document) := do
  let size := 4 * t.length + 64
  let (root?, r) ← (readDocument size).run ⟨.start t, [], #[], 0, []⟩
  return root?.map fun root => ⟨root, r.named, r.aliases, size⟩

end HackStack.Yaml
