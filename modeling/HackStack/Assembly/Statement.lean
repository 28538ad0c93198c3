import HackStack.Assembly.Symbol
import HackStack.Text.Blank

/-!
# Assembly statements

A line of assembly text holds at most one statement: a label, an instruction that loads an operand,
or a computing instruction. Reading a statement splits it into its fields; what the fields mean is
decided later.
-/

namespace HackStack.Assembly

/-- Why a text cannot be assembled; every cause names the number of a line. -/
inductive AssemblyError where
  /-- A label without its closing bracket. -/
  | unclosedLabel (line : Nat)
  | invalidLabel (name : Text) (line : Nat)
  | missingOperand (line : Nat)
  | missingComp (line : Nat)
  | duplicateLabel (name : Text) (line : Nat)
  /-- There are more instructions than the program memory holds. -/
  | tooLarge (line : Nat)
  | constantRange (operand : Text) (line : Nat)
  | invalidSymbol (operand : Text) (line : Nat)
  | invalidComp (field : Text) (line : Nat)
  | invalidDest (field : Text) (line : Nat)
  | invalidJump (field : Text) (line : Nat)
  deriving DecidableEq, Repr

def aboutField (what field : Text) (line : Nat) : Text :=
  what ++ " '" ++ field ++ "' on line " ++ Text.ofNat line

def AssemblyError.message : AssemblyError → Text
  | unclosedLabel n => "invalid label on line " ++ Text.ofNat n
  | invalidLabel name n => aboutField "invalid label" name n
  | missingOperand n => "missing operand on line " ++ Text.ofNat n
  | missingComp n => "missing comp on line " ++ Text.ofNat n
  | duplicateLabel name n => aboutField "duplicate label" name n
  | tooLarge n => "program too large near line " ++ Text.ofNat n
  | constantRange t n => "constant out of range on line " ++ Text.ofNat n ++ ": " ++ t
  | invalidSymbol t n => aboutField "invalid symbol" t n
  | invalidComp t n => aboutField "invalid comp" t n
  | invalidDest t n => aboutField "invalid dest" t n
  | invalidJump t n => aboutField "invalid jump" t n

/-- A statement, split into its fields. -/
inductive Statement where
  | label (name : Text)
  | load (operand : Text)
  | compute (dest comp jump : Text)
  deriving DecidableEq, Repr

def Statement.occupiesRom : Statement → Bool
  | label _ => false
  | _ => true

/-- The fields of a computing instruction without white space: what stands before the first `=`,
then what stands before the first `;`, then the rest. -/
def splitFields (t : Text) : Text × Text × Text :=
  let (dest, rest) := (t.cut? 0x3D).getD ([], t)
  let (comp, jump) := (rest.cut? 0x3B).getD (rest, [])
  (dest, comp, jump)

/-- The statement on the line with number `n`, `none` if the line is blank or a comment. -/
def parseStatement (raw : Text) (n : Nat) : Except AssemblyError (Option Statement) :=
  match raw.dropComment.trim with
  | [] => .ok none
  | 0x28 :: rest =>
    if rest.getLast? = some 0x29 then
      let name := Text.trim rest.dropLast
      if isSymbolName name then .ok (some (.label name)) else .error (.invalidLabel name n)
    else .error (.unclosedLabel n)
  | 0x40 :: rest =>
    match Text.trim rest with
    | [] => .error (.missingOperand n)
    | operand => .ok (some (.load operand))
  | line =>
    let (dest, comp, jump) := splitFields (Text.words line).flatten
    if comp.isEmpty then .error (.missingComp n) else .ok (some (.compute dest comp jump))

/-- Reads lines numbered from `n` on after the statements `found`, each with its line number. -/
def parseStatements (n : Nat) (found : Array (Nat × Statement)) :
    List Text → Except AssemblyError (Array (Nat × Statement))
  | [] => .ok found
  | line :: rest =>
    match parseStatement line n with
    | .error e => .error e
    | .ok none => parseStatements (n + 1) found rest
    | .ok (some s) => parseStatements (n + 1) (found.push (n, s)) rest

def statements (code : Text) : Except AssemblyError (List (Nat × Statement)) :=
  (parseStatements 1 #[] (code.splitOn Text.lineFeed)).map Array.toList

end HackStack.Assembly
