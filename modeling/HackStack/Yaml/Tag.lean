import HackStack.Yaml.Moment

/-!
# Types of plain scalars

A plain scalar that no tag describes gets its type from its spelling: nothing, a truth value, an
integer, a floating-point number, a point in time, or a string.
-/

namespace HackStack.Yaml

/-- The type of a scalar, with its value unless it is a string. -/
inductive Kind where
  | null
  | bool (value : Bool)
  | int (value : Int)
  | float (value : Double)
  | timestamp (value : Moment)
  | str
  deriving DecidableEq

def Kind.tag : Kind → Text
  | null => "!!null"
  | bool _ => "!!bool"
  | int _ => "!!int"
  | float _ => "!!float"
  | timestamp _ => "!!timestamp"
  | str => "!!str"

/-- Words with a type of their own. -/
def namedKind? (t : Text) : Option Kind :=
  if t ∈ ["true", "True", "TRUE"].map Text.ofString then some (.bool true)
  else if t ∈ ["false", "False", "FALSE"].map Text.ofString then some (.bool false)
  else if t ∈ ["", "~", "null", "Null", "NULL"].map Text.ofString then some .null
  else if t ∈ [".nan", ".NaN", ".NAN"].map Text.ofString then some (.float .nan)
  else if t ∈ [".inf", ".Inf", ".INF", "+.inf", "+.Inf", "+.INF"].map Text.ofString then
    some (.float (.infinite false))
  else if t ∈ ["-.inf", "-.Inf", "-.INF"].map Text.ofString then some (.float (.infinite true))
  else none

/-- Whether every underscore of a text stands between two digits, `last` telling whether a digit
stands before the text. -/
def separatesDigits (last : Bool) : Text → Bool
  | [] => true
  | 0x5F :: b :: rest => last && Text.isDigit b && separatesDigits true rest
  | b :: rest => b != 0x5F && separatesDigits (Text.isDigit b) rest

/-- The type of a floating-point number, or a string if a text spells none. -/
def floatKind (t : Text) : Kind := ((double? t).map Kind.float).getD .str

/-- The type of a plain scalar that no tag describes. -/
def kindOf (t : Text) : Kind :=
  match namedKind? t with
  | some k => k
  | none =>
    match t with
    | [] => .null
    | b :: _ =>
      let plain := t.filter (· != 0x5F)
      if b == 0x2E then if separatesDigits false t then floatKind plain else .str
      else if Text.isDigit b || b == 0x2B || b == 0x2D then
        match moment? t with
        | some m => .timestamp m
        | none =>
          match integer? plain with
          | some n => .int n
          | none => floatKind plain
      else .str

end HackStack.Yaml
