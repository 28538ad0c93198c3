import HackStack.Text.Glyph

/-!
# Characters of a YAML text

A YAML text is UTF-8, or UTF-16 behind a byte order mark. It is read in windows of a fixed number of
bytes, and a window is decoded as a whole. So a fault in a window is met as soon as one of its
characters is asked for, and not before. `batches` gives the characters window by window.
-/

namespace HackStack.Yaml

/-- How characters are spelled by bytes. -/
inductive Encoding where
  | utf8
  /-- Units of two bytes, the lower byte first. -/
  | utf16Low
  /-- Units of two bytes, the higher byte first. -/
  | utf16High
  deriving DecidableEq, Repr

/-- What stands at the start of some bytes. -/
inductive Decoded where
  | char (c : Char) (rest : Text)
  /-- The bytes end within a character. -/
  | incomplete
  | fault

/-- Whether a character may stand in a YAML text. -/
def isAllowed (c : Char) : Bool :=
  let n := c.toNat
  n == 0x09 || n == 0x0A || n == 0x0D || (0x20 ≤ n && n ≤ 0x7E) || n == 0x85 ||
    (0xA0 ≤ n && n ≤ 0xFFFD) || 0x10000 ≤ n

/-- The scalar value `n`, if a YAML text may hold it. -/
def Decoded.ofNat (n : Nat) (rest : Text) : Decoded :=
  if n.isValidChar && isAllowed (Char.ofNat n) then .char (Char.ofNat n) rest else .fault

/-- How many bytes a character takes that starts with `b`, and the bits of `b` that belong to it. -/
def leadByte? (b : UInt8) : Option (Nat × Nat) :=
  let n := b.toNat
  if n < 0x80 then some (1, n)
  else if 0xC0 ≤ n && n < 0xE0 then some (2, n - 0xC0)
  else if 0xE0 ≤ n && n < 0xF0 then some (3, n - 0xE0)
  else if 0xF0 ≤ n && n < 0xF8 then some (4, n - 0xF0)
  else none

def isTrailing (b : UInt8) : Bool := 0x80 ≤ b && b < 0xC0

/-- The least scalar value that takes `width` bytes. -/
def leastOfWidth (width : Nat) : Nat :=
  if width == 2 then 0x80 else if width == 3 then 0x800 else if width == 4 then 0x10000 else 0

def decodeBytes (t : Text) : Decoded :=
  match t with
  | [] => .incomplete
  | b :: rest =>
    match leadByte? b with
    | none => .fault
    | some (width, bits) =>
      let trail := rest.take (width - 1)
      if trail.length + 1 < width then .incomplete
      else
        let n := trail.foldl (fun n b => 64 * n + (b.toNat - 0x80)) bits
        if trail.all isTrailing && leastOfWidth width ≤ n then .ofNat n (rest.drop (width - 1))
        else .fault

/-- The unit that two bytes make. -/
def unit (lowFirst : Bool) (a b : UInt8) : Nat :=
  if lowFirst then a.toNat + 256 * b.toNat else 256 * a.toNat + b.toNat

/-- The first character of some bytes in UTF-16. A unit of the upper half of a pair needs one of the
lower half behind it. -/
def decodeUnits (lowFirst : Bool) (t : Text) : Decoded :=
  match t with
  | a :: b :: rest =>
    let n := unit lowFirst a b
    if 0xD800 ≤ n && n < 0xDC00 then
      match rest with
      | c :: d :: rest =>
        let m := unit lowFirst c d
        if 0xDC00 ≤ m && m < 0xE000 then
          .ofNat (0x10000 + 0x400 * (n - 0xD800) + (m - 0xDC00)) rest
        else .fault
      | _ => .incomplete
    else .ofNat n rest
  | _ => .incomplete

def decode (e : Encoding) (t : Text) : Decoded :=
  match e with
  | .utf8 => decodeBytes t
  | .utf16Low => decodeUnits true t
  | .utf16High => decodeUnits false t

/-- The encoding of a text, and how many bytes the mark takes that tells it. -/
def encodingOf (t : Text) : Encoding × Nat :=
  match t with
  | 0xFF :: 0xFE :: _ => (.utf16Low, 2)
  | 0xFE :: 0xFF :: _ => (.utf16High, 2)
  | 0xEF :: 0xBB :: 0xBF :: _ => (.utf8, 3)
  | _ => (.utf8, 0)

/-- The characters of a window, at most `fuel` of them, and the bytes of a character that goes on
beyond it; nothing if there is a fault. -/
def decodeWindow (e : Encoding) : Nat → Text → Array Char → Option (Array Char × Text)
  | 0, t, out => some (out, t)
  | fuel + 1, t, out =>
    if t.isEmpty then some (out, [])
    else
      match decode e t with
      | .char c rest => decodeWindow e fuel rest (out.push c)
      | .incomplete => some (out, t)
      | .fault => none

/-- The characters of one window, or nothing if there is a fault in it. -/
abbrev Batch := Option (List Char)

/-- How many bytes a window has. -/
def windowSize : Nat := 512

/-- The batches of some bytes. The first window starts with the bytes `kept` of the one before and
has room for `room` more. Each round of `fuel` is one window. -/
def batchesFrom (e : Encoding) : Nat → Nat → Text → Text → List Batch
  | 0, _, _, _ => []
  | fuel + 1, room, kept, rest =>
    if rest.isEmpty then if kept.isEmpty then [] else [none]
    else
      match decodeWindow e windowSize (kept ++ rest.take room) #[] with
      | none => [none]
      | some (cs, kept) =>
        some cs.toList :: batchesFrom e fuel (windowSize - kept.length) kept (rest.drop room)

/-- The characters of a text, window by window. A mark that tells the encoding is left out. -/
def batches (t : Text) : List Batch :=
  let (e, mark) := encodingOf t
  batchesFrom e (t.length + 1) (windowSize - mark) [] (t.drop mark)

end HackStack.Yaml
