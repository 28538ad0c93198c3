import HackStack.Text.Basic

/-!
# Base 64

Four letters of six bits each stand for three bytes; equals signs fill up the last four letters.
-/

namespace HackStack.Text

/-- The value of a letter. -/
def sextet? (b : UInt8) : Option Nat :=
  let n := b.toNat
  if 0x41 ≤ n ∧ n ≤ 0x5A then some (n - 0x41)
  else if 0x61 ≤ n ∧ n ≤ 0x7A then some (n - 0x61 + 26)
  else if 0x30 ≤ n ∧ n ≤ 0x39 then some (n - 0x30 + 52)
  else if n = 0x2B then some 62
  else if n = 0x2F then some 63
  else none

/-- The three bytes of four letters. -/
def triple? (a b c d : UInt8) : Option Text := do
  let n := (((← sextet? a) * 64 + (← sextet? b)) * 64 + (← sextet? c)) * 64 + (← sextet? d)
  pure [(n / 65536).toUInt8, (n / 256 % 256).toUInt8, (n % 256).toUInt8]

/-- The bytes that letters stand for, four by four. -/
def fromLetters? : Text → Option Text
  | [] => some []
  | [a, b, 0x3D, 0x3D] => (triple? a b 0x41 0x41).map (·.take 1)
  | [a, b, c, 0x3D] => (triple? a b c 0x41).map (·.take 2)
  | a :: b :: c :: d :: rest => do pure ((← triple? a b c d) ++ (← fromLetters? rest))
  | _ => none

/-- The bytes that a text stands for; line ends in it do not matter. -/
def fromBase64? (t : Text) : Option Text :=
  fromLetters? (t.filter fun b => b != lineFeed && b != carriageReturn)

end HackStack.Text
