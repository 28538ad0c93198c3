import HackStack.Text.Basic

/-!
# Numbers

The numbers that plain scalars spell: integers of 64 bits in several bases, and decimal numbers in
64-bit floating point. `Double.ofQuotient?` rounds an exact quotient to the nearest number, a tie
going to the even one, so two spellings of one number have one value.
-/

namespace HackStack.Yaml

/-- The value of a digit in a base up to 36. -/
def digitValue? (base : Nat) (b : UInt8) : Option Nat :=
  let n := b.toNat
  let v? :=
    if 0x30 ≤ n ∧ n ≤ 0x39 then some (n - 0x30)
    else if 0x61 ≤ n ∧ n ≤ 0x7A then some (n - 0x61 + 10)
    else if 0x41 ≤ n ∧ n ≤ 0x5A then some (n - 0x41 + 10)
    else none
  v?.filter (· < base)

/-- The number that non-empty digits in a base spell. More than 64 of them behind the leading zeros
spell no number of 64 bits. -/
def digitsValue? (base : Nat) (t : Text) : Option Nat :=
  if t.isEmpty then none
  else
    (t.mapM (digitValue? base)).bind fun ds =>
      let ds := ds.dropWhile (· == 0)
      if 64 < ds.length then none else some (ds.foldl (fun n d => base * n + d) 0)

/-- A number with an optional base mark: `0x`, `0b` and `0o` in either case, or `0` for octal. -/
def magnitude? (t : Text) : Option Nat :=
  match t with
  | 0x30 :: b :: rest =>
    if b == 0x78 || b == 0x58 then digitsValue? 16 rest
    else if b == 0x62 || b == 0x42 then digitsValue? 2 rest
    else if b == 0x6F || b == 0x4F then digitsValue? 8 rest
    else digitsValue? 8 (b :: rest)
  | _ => digitsValue? 10 t

/-- A text without its sign, and whether the sign is a minus; `none` as the second part if there is
no sign. -/
def splitSign (t : Text) : Text × Option Bool :=
  match t with
  | 0x2B :: rest => (rest, some false)
  | 0x2D :: rest => (rest, some true)
  | _ => (t, none)

/-- The number that digits in a base behind an optional sign spell, in 64 bits. -/
def signedValue? (base : Nat) (t : Text) : Option Int :=
  match splitSign t with
  | (digits, some true) =>
    ((digitsValue? base digits).filter (· ≤ 0x8000000000000000)).map fun n => -(n : Int)
  | (digits, _) => ((digitsValue? base digits).filter (· < 0x8000000000000000)).map Int.ofNat

/-- The integer of 64 bits, signed or unsigned, that a text spells. A sign may stand before the base
mark, or behind the mark of a binary or octal number. -/
def integer? (t : Text) : Option Int :=
  match splitSign t with
  | (rest, some true) =>
    ((magnitude? rest).filter (· ≤ 0x8000000000000000)).map fun n => -(n : Int)
  | (rest, some false) => ((magnitude? rest).filter (· < 0x8000000000000000)).map Int.ofNat
  | (rest, none) =>
    match (magnitude? rest).filter (· < 0x10000000000000000) with
    | some n => some n
    | none =>
      match rest with
      | 0x30 :: 0x62 :: digits => signedValue? 2 digits
      | 0x30 :: 0x6F :: digits => signedValue? 8 digits
      | _ => none

/-- A value in 64-bit floating point; zero has no sign. -/
inductive Double where
  /-- Not a number. -/
  | nan
  | infinite (negative : Bool)
  /-- The number `mantissa * 2 ^ exponent`. The mantissa has 53 bits, or fewer with the least
  exponent, -1074. -/
  | finite (mantissa exponent : Int)
  deriving DecidableEq, Hashable

/-- A quotient rounded to the nearest number; a tie goes to the even one. -/
def roundedQuotient (num den : Nat) : Nat :=
  let q := num / den
  let r := num % den
  if den < 2 * r || (2 * r == den && q % 2 == 1) then q + 1 else q

namespace Double

def zero : Double := finite 0 (-1074)

/-- The nearest value to a quotient, `none` if it is too large. -/
def ofQuotient? (negative : Bool) (num den : Nat) : Option Double :=
  if num == 0 then some zero
  else
    let upper (e : Int) := num <<< (-e).toNat
    let lower (e : Int) := den <<< e.toNat
    let e := (num.log2 : Int) - den.log2 - 53
    let e := if 1 <<< 53 ≤ upper e / lower e then e + 1 else e
    let e := max e (-1074)
    let m := roundedQuotient (upper e) (lower e)
    let (m, e) := if m == 1 <<< 53 then (1 <<< 52, e + 1) else (m, e)
    if 971 < e then none else some (finite (if negative then -m else m) e)

def ofInt? (n : Int) : Option Double := ofQuotient? (n < 0) n.natAbs 1

end Double

/-- The parts of a decimal number: digits before and after the point, and the exponent. -/
structure Decimal where
  whole : Text
  fraction : Text
  exponent : Int

/-- The value of the digits of an exponent. Once it is 10000 or more, further digits are passed
over. -/
def exponentValue? (t : Text) : Option Nat :=
  if t.isEmpty then none
  else (t.mapM (digitValue? 10)).map fun ds =>
    ds.foldl (fun n d => if n < 10000 then 10 * n + d else n) 0

/-- The exponent behind a mantissa, zero if there is none. -/
def exponent? (t : Text) : Option Int :=
  match t with
  | [] => some 0
  | e :: rest =>
    if e == 0x65 || e == 0x45 then
      let (digits, sign) := splitSign rest
      (exponentValue? digits).map fun n => if sign == some true then -(n : Int) else n
    else none

/-- A decimal number without its sign. A point needs a digit before it or after it. -/
def decimal? (t : Text) : Option Decimal :=
  let whole := t.takeWhile Text.isDigit
  match t.drop whole.length with
  | 0x2E :: rest =>
    let fraction := rest.takeWhile Text.isDigit
    if whole.isEmpty && fraction.isEmpty then none
    else (exponent? (rest.drop fraction.length)).map fun e => ⟨whole, fraction, e⟩
  | rest => if whole.isEmpty then none else (exponent? rest).map fun e => ⟨whole, [], e⟩

/-- How many digits of a decimal number are looked at one by one. No number half way between two
values in floating point has as many, so of the others it only counts whether one is not zero. -/
def decisiveDigits : Nat := 800

namespace Decimal

/-- The digits without leading zeros. -/
def significant (d : Decimal) : Text := (d.whole ++ d.fraction).dropWhile (· == 0x30)

/-- The power of ten that the last digit counts. -/
def scale (d : Decimal) : Int := d.exponent - d.fraction.length

/-- A whole number and a power of ten whose product lies on the same side of every number half way
between two values in floating point. -/
def shortened (d : Decimal) : Nat × Int :=
  let head := d.significant.take decisiveDigits
  let tail := d.significant.drop decisiveDigits
  let n := head.foldl (fun n b => 10 * n + (b.toNat - 0x30)) 0
  let scale := d.scale + tail.length
  if tail.all (· == 0x30) then (n, scale) else (10 * n + 1, scale - 1)

/-- The nearest value in floating point, `none` if the number is too large. -/
def toDouble? (d : Decimal) (negative : Bool) : Option Double :=
  let order := d.scale + d.significant.length
  if d.significant.isEmpty || order < -330 then some .zero
  else if 310 < order then none
  else
    let (n, scale) := d.shortened
    Double.ofQuotient? negative (n * Nat.pow 10 scale.toNat) (Nat.pow 10 (-scale).toNat)

end Decimal

/-- The value in floating point that a text spells. -/
def double? (t : Text) : Option Double :=
  let (rest, sign) := splitSign t
  (decimal? rest).bind fun d => d.toDouble? (sign == some true)

end HackStack.Yaml
