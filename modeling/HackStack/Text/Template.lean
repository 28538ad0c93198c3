import HackStack.Text.Glyph

/-!
# Templates without operands

A template holds directives: a percent sign, flags, a width, a precision and a letter, with operand
numbers in brackets among them. Here there are no operands, so a directive stands for a notice of
what it lacks; only a doubled percent sign stands for itself.
-/

namespace HackStack

namespace Template

/-- A text from which a directive's parts have been read. -/
structure Reading where
  rest : Text
  /-- The notices that the parts gave. -/
  notices : Text
  /-- Whether an operand was named that is not there. -/
  misnamed : Bool
  /-- Whether the last part was a well-formed operand number. -/
  numbered : Bool

def isFlag (b : UInt8) : Bool :=
  b == 0x23 || b == 0x30 || b == 0x2B || b == 0x2D || b == 0x20

/-- Whether the digits give a number that a directive can hold: without its last digit it is a
million at most. -/
def isSmall (digits : Text) : Bool := digits.isEmpty || (Text.natUpTo? 10000009 digits).isSome

/-- Skips the number of an operand. Without a closing bracket only the opening one is skipped. -/
def skipNumber (r : Reading) : Reading :=
  match r.rest with
  | 0x5B :: rest =>
    let inner := rest.takeWhile (· != 0x5D)
    if inner.length < rest.length ∧ 2 ≤ rest.length then
      { r with
        rest := rest.drop (inner.length + 1), misnamed := true
        numbered := !inner.isEmpty && inner.all Text.isDigit && isSmall inner }
    else { r with rest := rest, misnamed := true, numbered := false }
  | _ => { r with numbered := false }

/-- Skips a width or a precision. A star asks for an operand and gives a notice; a number that is
too large takes all the rest with it. -/
def skipSize (notice : Text) (r : Reading) : Reading :=
  match r.rest with
  | 0x2A :: rest => { r with rest := rest, notices := r.notices ++ notice, numbered := false }
  | _ =>
    let digits := r.rest.takeWhile Text.isDigit
    { r with rest := if isSmall digits then r.rest.drop digits.length else [] }

/-- Skips the dot of a precision and what belongs to it. A dot at the very end starts no
precision. -/
def skipPrecision (r : Reading) : Reading :=
  match r.rest with
  | 0x2E :: b :: rest => skipSize "%!(BADPREC)" (skipNumber { r with rest := b :: rest })
  | _ => r

/-- The text of the directive after a percent sign, and what follows it. -/
def directive (t : Text) : Text × Text :=
  let r := skipNumber ⟨t.dropWhile isFlag, [], false, false⟩
  let r := skipPrecision (skipSize "%!(BADWIDTH)" r)
  let r := if r.numbered then r else skipNumber r
  match r.rest.firstGlyph? with
  | none => (r.notices ++ "%!(NOVERB)", [])
  | some letter =>
    let shown :=
      if letter.bytes = [0x25] then letter.bytes
      else
        "%!" ++ letter.char?.elim (Text.ofChar '�') Text.ofChar ++
          (if r.misnamed then Text.ofString "(BADINDEX)" else Text.ofString "(MISSING)")
    (r.notices ++ shown, r.rest.drop letter.bytes.length)

/-- Writes a template out behind `out`; each round of `fuel` handles one directive. -/
def expandWith : Nat → Array UInt8 → Text → Text
  | 0, out, t => (out ++ t).toList
  | fuel + 1, out, t =>
    let plain := t.takeWhile (· != 0x25)
    match t.drop plain.length with
    | [] => (out ++ plain).toList
    | _ :: rest =>
      let (shown, rest) := directive rest
      expandWith fuel (out ++ plain ++ shown) rest

end Template

/-- Writes out a template that has no operands. -/
def Text.expand (t : Text) : Text := Template.expandWith (t.count 0x25) #[] t

end HackStack
