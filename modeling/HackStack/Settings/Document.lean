import HackStack.Settings.Value

/-!
# Settings in a document

The settings that a YAML document gives. Every key has to be a known setting and to stand once. The
key `<<` includes the entries of other mappings, as far as their keys are not given before. All
complaints are collected in the order of the document.
-/

namespace HackStack.Settings

open HackStack.Yaml

/-- Gives a setting the value of a node, if it gives one. -/
def assign {α : Type} (read : Node → Decode (Option α)) (set : Settings → α → Settings) (n : Node) :
    Decode Unit := do
  if let some v ← read n then modify fun p => { p with settings := set p.settings v }

/-- How the setting with a name takes a value. -/
def setting? (key : Text) : Option (Node → Decode Unit) :=
  if key == "bootstrap" then some (assign readBool fun c v => { c with bootstrap := v })
  else if key == "entry" then some (assign readText fun c v => { c with entry := v })
  else if key == "comments" then some (assign readBool fun c v => { c with comments := v })
  else if key == "extension" then some (assign readText fun c v => { c with extension := v })
  else if key == "verbose" then some (assign readBool fun c v => { c with verbose := v })
  else if key == "log_level" then some (assign readText fun c v => { c with logLevel := v })
  else none

def isInclusion : Node → Bool
  | .scalar _ tag value => value == "<<" && tag == "!!merge"
  | _ => false

def tagOf (named : Array Node) : Node → Text
  | .scalar _ tag _ => tag
  | .sequence _ tag _ => tag
  | .mapping _ tag _ => tag
  | .reference _ _ _ target =>
    match named[target]? with
    | some (.scalar _ tag _) => tag
    | some (.sequence _ tag _) => tag
    | some (.mapping _ tag _) => tag
    | _ => []

/-- Whether all keys are texts by their tags. -/
def hasTextKeys (named : Array Node) (entries : List (Node × Node)) : Bool :=
  entries.all fun (k, _) => tagOf named k == "!!str" || tagOf named k == "!!merge"

/-- The keys that hide those of included mappings, if mappings are being included. They are taken
away while the entries of a mapping are read. -/
abbrev Known := Option (Std.HashSet Item)

def takeKnown : Decode Known := modifyGet fun p => (p.known, { p with known := none })

def putKnown (known : Known) : Decode Unit := modify fun p => { p with known }

/-- Looks up a key: whether it is hidden, and the known keys with it. A collection cannot be looked
up. -/
def lookUp (known : Known) (item : Item) : Decode (Bool × Known) :=
  match known with
  | none => return (false, none)
  | some set =>
    match item.collectionType? with
    | some type => throw (.collectionKey type set.isEmpty)
    | none =>
      if item.isSelfSame && set.contains item then return (true, set)
      else return (false, set.insert item)

/-- Notes a key that hides those of included mappings. A collection cannot be noted. -/
def noteKey (item : Item) : Decode Unit :=
  match item.collectionType? with
  | some type => throw (.collectionKey type false)
  | none => modify fun p => { p with known := p.known.map (·.insert item) }

/-- What the entries of a mapping are read into. -/
inductive Goal where
  | settings
  /-- A mapping of any values. -/
  | table (textKeys : Bool)

/-- Reads the entries of a mapping as settings in order. `done` are the settings given in it so far;
the known keys and the last inclusion are returned. -/
def readSettings :
    List (Node × Node) → List Text → Known → Option Node → Decode (Known × Option Node)
  | [], _, known, inclusion => return (known, inclusion)
  | (k, v) :: rest, done, known, inclusion => do
    if isInclusion k then readSettings rest done known (some v)
    else
      match ← readText k with
      | none => readSettings rest done known inclusion
      | some key =>
        let (hidden, known) ← lookUp known (.text key)
        if hidden then readSettings rest done known inclusion
        else
          match setting? key with
          | none =>
            complain (.unknownKey k.line key)
            readSettings rest done known inclusion
          | some set =>
            if done.contains key then
              complain (.repeatedSetting k.line key)
              readSettings rest done known inclusion
            else
              set v
              readSettings rest (key :: done) known inclusion

mutual

/-- Reads a node as an item of any type, `none` if it gives nothing. -/
def readItem : Nat → Node → Decode (Option Item)
  | 0, _ => unreadable
  | fuel + 1, n =>
    follow n fun n => do
      match n with
      | .scalar _ tag value =>
        let (k, text) ← readScalar tag value
        return some (.ofScalar k text)
      | .sequence _ _ items =>
        readItems fuel items
        return some .list
      | .mapping _ _ entries =>
        let textKeys := hasTextKeys (← get).named entries
        if ← readMapping fuel (.table textKeys) entries then return some (.table textKeys)
        else return none
      | .reference _ _ _ _ => unreadable

def readItems : Nat → List Node → Decode Unit
  | 0, _ => unreadable
  | _, [] => return ()
  | fuel + 1, n :: rest => do
    let _ ← readItem fuel n
    readItems fuel rest

/-- Reads the entries of a mapping as items in order; the known keys and the last inclusion are
returned. -/
def readPairs : Nat → Bool → List (Node × Node) → Known → Option Node →
    Decode (Known × Option Node)
  | 0, _, _, _, _ => unreadable
  | _, _, [], known, inclusion => return (known, inclusion)
  | fuel + 1, textKeys, (k, v) :: rest, known, inclusion => do
    if isInclusion k then readPairs fuel textKeys rest known (some v)
    else
      let item? ← if textKeys then Option.map Item.text <$> readText k else readItem fuel k
      match item? with
      | none => readPairs fuel textKeys rest known inclusion
      | some item =>
        let (hidden, known) ← lookUp known item
        if hidden then readPairs fuel textKeys rest known inclusion
        else if item.collectionType?.isSome then unreadable
        else
          let _ ← readItem fuel v
          readPairs fuel textKeys rest known inclusion

/-- Reads the entries of a mapping, and those that it includes; whether no key is repeated. -/
def readMapping : Nat → Goal → List (Node × Node) → Decode Bool
  | 0, _, _ => unreadable
  | fuel + 1, goal, entries => do
    let repeats := repeatedKeys (entries.map Prod.fst)
    if !repeats.isEmpty then
      repeats.forM complain
      return false
    else
      let known ← takeKnown
      let (known, inclusion) ← match goal with
        | .settings => readSettings entries [] known none
        | .table textKeys => readPairs fuel textKeys entries known none
      putKnown known
      if let some n := inclusion then
        if known.isNone then
          putKnown (some ∅)
          noteKeys fuel entries
        match n with
        | .sequence _ _ items => includeNodes fuel goal items
        | n => includeNodes fuel goal [n]
        if known.isNone then putKnown none
      return true

def noteKeys : Nat → List (Node × Node) → Decode Unit
  | 0, _ => unreadable
  | _, [] => return ()
  | fuel + 1, (k, _) :: rest => do
    if let some item ← readItem fuel k then noteKey item
    noteKeys fuel rest

/-- Includes the entries of mappings in order; an earlier one wins. -/
def includeNodes : Nat → Goal → List Node → Decode Unit
  | 0, _, _ => unreadable
  | _, _, [] => return ()
  | fuel + 1, goal, n :: rest => do
    let isMapping ← match n with
      | .mapping _ _ _ => pure true
      | .reference _ _ _ target =>
        match (← get).named[target]? with
        | some (.mapping _ _ _) => pure true
        | _ => pure false
      | _ => pure false
    if !isMapping then unreadable
    else
      follow n fun n => do
        match n with
        | .mapping _ _ entries => discard (readMapping fuel goal entries)
        | _ => unreadable
      includeNodes fuel goal rest

end

def readDocument (fuel : Nat) (root : Node) : Decode Unit := do
  countNode
  follow root fun n => do
    match n with
    | .mapping _ _ entries => discard (readMapping fuel .settings entries)
    | .scalar _ tag value =>
      match ← readScalar tag value with
      | (.null, _) => return ()
      | _ => complain (wrongType n documentType)
    | n => complain (wrongType n documentType)

def ofText (t : Text) : Except DocumentError Settings := do
  match Document.ofText? t with
  | none => throw .malformed
  | some none => return standard
  | some (some d) =>
    let ((), p) ← (readDocument (d.size * (d.aliases + 2)) d.root).run
      ⟨standard, #[], d.named, none, [], 0, 0⟩
    if p.complaints.isEmpty then return p.settings
    else throw (.complaints p.complaints.toList)

end HackStack.Settings
