import HackStack.Settings.Complaint
import HackStack.Text.Base64
import HackStack.Yaml.Node
import Std.Data.HashSet

/-!
# Values of a document

Reading the nodes of a document as texts, truth values or items of any type. An alias is read as the
node that it stands for; a node that is met again while it is being read under the same alias has no
value. Truth values also have the old spellings `yes`, `no`, `on`, `off`, `y` and `n`; a text takes
any scalar as it is spelled; nothing gives no value.
-/

namespace HackStack.Settings

open HackStack.Yaml

/-- A value of any type as far as it matters for a key. -/
inductive Item where
  | null
  | bool (value : Bool)
  | int (value : Int)
  | float (value : Double)
  | time (value : Moment)
  | text (value : Text)
  | list
  /-- A mapping; `textKeys` tells whether all its keys are texts. -/
  | table (textKeys : Bool)
  deriving DecidableEq, Hashable

namespace Item

def ofScalar (k : Kind) (t : Text) : Item :=
  match k with
  | .null => null
  | .bool b => bool b
  | .int n => int n
  | .float x => float x
  | .timestamp m => time m
  | .str => text t

/-- The type of a collection, which cannot be looked up among keys. -/
def collectionType? : Item → Option Text
  | list => some "[]interface \x7b\x7d"
  | table true => some "map[string]interface \x7b\x7d"
  | table false => some "map[interface \x7b\x7d]interface \x7b\x7d"
  | _ => none

/-- Whether a value is the same as itself. What is not a number differs from itself, and so does a
point in time whose zone is not shared. -/
def isSelfSame : Item → Bool
  | float .nan => false
  | time m => m.hasSharedZone
  | _ => true

end Item

/-- What reading settings has come to. -/
structure Progress where
  settings : Settings
  complaints : Array Complaint
  /-- The named nodes of the document. -/
  named : Array Node
  /-- The keys that hide those of included mappings, while mappings are being included. -/
  known : Option (Std.HashSet Item)
  /-- The aliases that are being followed. -/
  followed : List Nat
  /-- How many nodes have been read. -/
  read : Nat
  /-- How many of them were read by following an alias. -/
  repeated : Nat

/-- A step of reading settings, which fails where a document cannot be read at all. -/
abbrev Decode := StateT Progress (Except DocumentError)

def complain (c : Complaint) : Decode Unit :=
  modify fun p => { p with complaints := p.complaints.push c }

def unreadable {α : Type} : Decode α := throw .malformed

/-- Whether too many of the nodes read were repeated: more than 99 in 100, and of more than 400000
nodes ever fewer, down to 10 in 100. -/
def isExcessive (repeated read : Nat) : Bool :=
  100 < repeated && 1000 < read &&
    if read ≤ 400000 then 99 * read < 100 * repeated
    else if 4000000 ≤ read then read < 10 * repeated
    else (99 * 3600000 - 89 * (read - 400000)) * read < 100 * 3600000 * repeated

def countNode : Decode Unit := do
  modify fun p =>
    { p with
      read := p.read + 1
      repeated := if p.followed.isEmpty then p.repeated else p.repeated + 1 }
  let p ← get
  if isExcessive p.repeated p.read then unreadable

/-- Reads a node, or the one that it stands for, with `f`. -/
def follow {α : Type} (n : Node) (f : Node → Decode α) : Decode α := do
  countNode
  match n with
  | .reference _ _ number target =>
    let p ← get
    if p.followed.contains number then unreadable
    else
      match p.named[target]? with
      | none => unreadable
      | some m =>
        modify fun p => { p with followed := number :: p.followed }
        countNode
        let a ← f m
        modify fun p => { p with followed := p.followed.tail }
        return a
  | n => f n

/-- A complaint that a node has the wrong type. A collection has no spelling. -/
def wrongType (n : Node) (wanted : Text) : Complaint :=
  match n with
  | .scalar line tag value => .wrongType line tag value wanted
  | .sequence line tag _ => .wrongType line tag [] wanted
  | .mapping line tag _ => .wrongType line tag [] wanted
  | .reference line name _ _ => .wrongType line [] name wanted

/-- What makes two keys the same: the kind of node and the spelling. -/
def keyIdentity : Node → Nat × Text
  | .scalar _ _ value => (0, value)
  | .sequence _ _ _ => (1, [])
  | .mapping _ _ _ => (2, [])
  | .reference _ name _ _ => (3, name)

/-- The complaints about keys that are the same as an earlier one. -/
def repeatedKeys : List Node → List Complaint
  | [] => []
  | k :: rest =>
    (rest.filter fun l => keyIdentity l == keyIdentity k).map (fun l =>
      Complaint.repeatedKey l.line (keyIdentity l).2 k.line) ++ repeatedKeys rest

/-- The tags whose scalars have to be spelled accordingly. -/
def spelledTags : List Text := ["!!bool", "!!int", "!!float", "!!null", "!!timestamp"]

/-- The type of a scalar and the text that it gives, after its tag or its spelling. A tag that does
not fit the spelling makes the document unreadable; an unknown tag makes a string. -/
def scalarValue? (tag value : Text) : Option (Kind × Text) :=
  if tag == "!!binary" then value.fromBase64?.map fun t => (.str, t)
  else if !spelledTags.contains tag then some (.str, value)
  else
    let k := kindOf value
    if tag == k.tag then some (k, value)
    else
      match k with
      | .int n =>
        if tag == "!!float" && n < 0x8000000000000000 then
          (Double.ofInt? n).map fun x => (.float x, value)
        else none
      | _ => none

def readScalar (tag value : Text) : Decode (Kind × Text) :=
  match scalarValue? tag value with
  | none => unreadable
  | some v => pure v

/-- The truth value that a string spells. -/
def oldBool? (t : Text) : Option Bool :=
  let among (spellings : List String) := (spellings.map Text.ofString).contains t
  if among ["y", "Y", "yes", "Yes", "YES", "on", "On", "ON"] then some true
  else if among ["n", "N", "no", "No", "NO", "off", "Off", "OFF"] then some false
  else none

/-- The complaints about a collection where a scalar is wanted: repeated keys come first. -/
def refuseCollection (n : Node) (wanted : Text) : Decode Unit := do
  let repeats := match n with
    | .mapping _ _ entries => repeatedKeys (entries.map Prod.fst)
    | _ => []
  if repeats.isEmpty then complain (wrongType n wanted) else repeats.forM complain

/-- The text that a node gives, `none` if it gives nothing. -/
def readText (n : Node) : Decode (Option Text) :=
  follow n fun n => do
    match n with
    | .scalar _ tag value =>
      match ← readScalar tag value with
      | (.null, _) => return none
      | (_, text) => return some text
    | n =>
      refuseCollection n "string"
      return none

/-- The truth value that a node gives, `none` if it gives nothing. -/
def readBool (n : Node) : Decode (Option Bool) :=
  follow n fun n => do
    match n with
    | .scalar _ tag value =>
      match ← readScalar tag value with
      | (.null, _) => return none
      | (.bool b, _) => return some b
      | (k, text) =>
        match if k == .str then oldBool? text else none with
        | some b => return some b
        | none =>
          complain (wrongType n "bool")
          return none
    | n =>
      refuseCollection n "bool"
      return none

end HackStack.Settings
