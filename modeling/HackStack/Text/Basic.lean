/-!
# Byte strings

Sources, names and messages are byte strings. A file may hold bytes that are no UTF-8, and such
bytes have to leave the program as they entered it, so text is kept as bytes throughout; the view
of a text as characters is in `HackStack.Text.Glyph`.
-/

namespace HackStack

/-- A byte string. -/
abbrev Text := List UInt8

namespace Text

/-- The UTF-8 bytes of `s`. -/
def ofString (s : String) : Text := s.toUTF8.data.toList

instance : Coe String Text := ⟨ofString⟩

def lineFeed : UInt8 := 0x0A

def carriageReturn : UInt8 := 0x0D

/-- The decimal numeral of `n`, without leading zeros. -/
def ofNat (n : Nat) : Text := (Nat.toDigits 10 n).map fun c => c.toNat.toUInt8

/-- The decimal numeral of `n`, a minus sign before a negative number. -/
def ofInt (n : Int) : Text := if n < 0 then 0x2D :: ofNat n.natAbs else ofNat n.natAbs

/-- `t` without the ending `suffix`, or `t` itself if it does not end so. -/
def dropEnding (t suffix : Text) : Text :=
  if suffix.isSuffixOf t then t.take (t.length - suffix.length) else t

/-- The texts in order with `sep` between neighbours. -/
def joinWith (sep : Text) (ts : List Text) : Text := sep.intercalate ts

/-- The part of `t` before the first `sep` and the part after it, if `sep` occurs. -/
def cut? (sep : UInt8) (t : Text) : Option (Text × Text) :=
  match t.idxOf? sep with
  | some i => some (t.take i, t.drop (i + 1))
  | none => none

/-- Where the first `//` of a text starts, counted from `n`. -/
def commentStart (n : Nat) : Text → Option Nat
  | 0x2F :: 0x2F :: _ => some n
  | _ :: t => commentStart (n + 1) t
  | [] => none

/-- `t` up to its first `//`, which starts a comment. -/
def dropComment (t : Text) : Text :=
  match commentStart 0 t with
  | some i => t.take i
  | none => t

def isDigit (b : UInt8) : Bool := 0x30 ≤ b && b ≤ 0x39

def isAsciiLetter (b : UInt8) : Bool := (0x41 ≤ b && b ≤ 0x5A) || (0x61 ≤ b && b ≤ 0x7A)

/-- The number up to `bound` that a non-empty string of ASCII digits spells; leading zeros are
allowed. What is above the bound stays there, however many digits follow. -/
def natUpTo? (bound : Nat) (t : Text) : Option Nat :=
  if !t.isEmpty && t.all isDigit then
    let n := t.foldl (fun n b => min (bound + 1) (10 * n + (b.toNat - 0x30))) 0
    if n ≤ bound then some n else none
  else none

end Text

end HackStack
