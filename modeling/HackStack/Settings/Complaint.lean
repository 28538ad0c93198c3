import HackStack.Settings.Basic

/-!
# Complaints about a document

What can be wrong with the values of a document that is well formed, and the wording of it.
-/

namespace HackStack.Settings

inductive Complaint where
  /-- A value of the wrong type: its line, tag and spelling, and the type wanted. -/
  | wrongType (line : Nat) (tag value wanted : Text)
  | unknownKey (line : Nat) (key : Text)
  /-- A key that stands on an earlier line already. -/
  | repeatedKey (line : Nat) (key : Text) (earlier : Nat)
  /-- A setting that was given under another spelling of its key already. -/
  | repeatedSetting (line : Nat) (key : Text)
  deriving DecidableEq, Repr

/-- The type of the document as complaints name it. -/
def documentType : Text := "config.Config"

/-- A spelling behind its tag in a complaint: it is set apart, and a long one is cut, unless the tag
is that of a collection. -/
def shownValue (tag t : Text) : Text :=
  if tag == "!!seq" || tag == "!!map" then t
  else if 10 < t.length then " `" ++ t.take 7 ++ "...`"
  else " `" ++ t ++ "`"

def Complaint.message : Complaint → Text
  | wrongType n tag value wanted =>
    "line " ++ Text.ofNat n ++ ": cannot unmarshal " ++ tag ++ shownValue tag value ++ " into " ++
      wanted
  | unknownKey n key =>
    "line " ++ Text.ofNat n ++ ": field " ++ key ++ " not found in type " ++ documentType
  | repeatedKey n key earlier =>
    "line " ++ Text.ofNat n ++ ": mapping key " ++ key.quoted ++ " already defined at line " ++
      Text.ofNat earlier
  | repeatedSetting n key =>
    "line " ++ Text.ofNat n ++ ": field " ++ key ++ " already set in type " ++ documentType

def Complaint.line (c : Complaint) : Text := "\n  " ++ c.message

inductive DocumentError where
  | malformed
  | complaints (cs : List Complaint)
  /-- A collection of the named type stands as a key where the keys of included mappings are looked
  up; `first` tells whether it was looked up before any other key was noted. -/
  | collectionKey (type : Text) (first : Bool)
  deriving DecidableEq, Repr

def DocumentError.message : DocumentError → Text
  | malformed => "yaml: malformed document"
  | complaints cs => "yaml: unmarshal errors:" ++ cs.flatMap Complaint.line
  | collectionKey type first =>
    if first then "hash of unhashable type: " ++ type
    else "runtime error: hash of unhashable type " ++ type

end HackStack.Settings
