import HackStack.Yaml.Number

/-!
# Points in time

The dates and times that plain scalars spell. A date alone is its midnight in universal time; a time
without a zone is in universal time too.
-/

namespace HackStack.Yaml

structure Moment where
  /-- The seconds of universal time since the year 0 began. -/
  seconds : Int
  nanoseconds : Nat
  /-- The seconds that the zone is ahead of universal time, `none` for universal time itself. -/
  zone : Option Int
  deriving DecidableEq, Hashable

/-- Whether the zone is shared with other points in time. Zones that are off by whole hours are,
from 12 hours behind to 14 ahead; any other zone is made anew wherever it is spelled, and differs
from itself. -/
def Moment.hasSharedZone (m : Moment) : Bool :=
  m.zone.all fun s => s % 3600 == 0 && -12 * 3600 ≤ s && s ≤ 14 * 3600

def daysIn (year month : Nat) : Nat :=
  if month == 2 then
    if year % 4 == 0 && (year % 100 != 0 || year % 400 == 0) then 29 else 28
  else if month == 4 || month == 6 || month == 9 || month == 11 then 30
  else 31

/-- The number of days before a day since the year 0 began. -/
def daysBefore (year month day : Nat) : Nat :=
  let leapDays := (year + 3) / 4 + (year + 399) / 400 - (year + 99) / 100
  let earlierMonths := (List.range (month - 1)).map fun m => daysIn year (m + 1)
  365 * year + leapDays + earlierMonths.foldl (· + ·) 0 + (day - 1)

/-- One or two digits at the start of a text and the rest. -/
def shortNumber? (t : Text) : Option (Nat × Text) :=
  let digits := (t.take 2).takeWhile Text.isDigit
  (digitsValue? 10 digits).map fun n => (n, t.drop digits.length)

/-- A number of one or two digits below `bound` and the rest. -/
def clockNumber? (bound : Nat) (t : Text) : Option (Nat × Text) :=
  (shortNumber? t).filter fun p => p.1 < bound

def passByte? (b : UInt8) (t : Text) : Option Text :=
  match t with
  | x :: rest => if x == b then some rest else none
  | [] => none

/-- The days before the date at the start of a text, and the rest. A year has four digits. -/
def date? (t : Text) : Option (Nat × Text) := do
  let year := t.takeWhile Text.isDigit
  if year.length != 4 then none
  else
    let t ← passByte? 0x2D (t.drop 4)
    let (month, t) ← shortNumber? t
    let t ← passByte? 0x2D t
    let (day, t) ← shortNumber? t
    let y := (digitsValue? 10 year).getD 0
    if 1 ≤ month && month ≤ 12 && 1 ≤ day && day ≤ daysIn y month then
      some (daysBefore y month day, t)
    else none

/-- The nanoseconds that the digits behind a point or a comma spell, and the rest. Only nine of the
digits count. -/
def fraction (t : Text) : Nat × Text :=
  match t with
  | b :: rest =>
    let digits := rest.takeWhile Text.isDigit
    if (b == 0x2E || b == 0x2C) && !digits.isEmpty then
      let counted := digits.take 9
      ((digitsValue? 10 counted).getD 0 * Nat.pow 10 (9 - counted.length), rest.drop digits.length)
    else (0, t)
  | [] => (0, t)

/-- The seconds and nanoseconds since midnight of the time at the start of a text, and the rest. -/
def clock? (t : Text) : Option (Nat × Nat × Text) := do
  let (hours, t) ← clockNumber? 24 t
  let t ← passByte? 0x3A t
  let (minutes, t) ← clockNumber? 60 t
  let t ← passByte? 0x3A t
  let (seconds, t) ← clockNumber? 60 t
  let (nanoseconds, t) := fraction t
  pure ((hours * 60 + minutes) * 60 + seconds, nanoseconds, t)

/-- The zone that a text spells: `Z`, or a sign, hours and minutes of two digits each. -/
def zone? (t : Text) : Option (Option Int) :=
  match t with
  | [0x5A] => some none
  | [s, a, b, 0x3A, c, d] => do
    let hours ← (digitsValue? 10 [a, b]).filter (· ≤ 24)
    let minutes ← (digitsValue? 10 [c, d]).filter (· ≤ 60)
    let ahead : Int := (hours * 60 + minutes) * 60
    if s == 0x2B then some (some ahead) else if s == 0x2D then some (some (-ahead)) else none
  | _ => none

/-- The point in time at a clock reading of a day in a zone. -/
def Moment.ofClock (days seconds nanoseconds : Nat) (zone : Option Int) : Moment :=
  ⟨days * 86400 + seconds - zone.getD 0, nanoseconds, zone⟩

/-- The point in time that a text spells as a date, or as a date and a time. Between the two stands
the letter `T`, or blanks if there is no zone. -/
def moment? (t : Text) : Option Moment := do
  let (days, t) ← date? t
  match t with
  | [] => some (.ofClock days 0 0 none)
  | b :: rest =>
    if b == 0x54 || b == 0x74 then
      let (seconds, nanoseconds, t) ← clock? rest
      let zone ← zone? t
      some (.ofClock days seconds nanoseconds zone)
    else if b == 0x20 then
      let (seconds, nanoseconds, t) ← clock? (rest.dropWhile (· == 0x20))
      if t.isEmpty then some (.ofClock days seconds nanoseconds none) else none
    else none

end HackStack.Yaml
