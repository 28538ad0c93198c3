import HackStack.Assembly.Mnemonic
import HackStack.Assembly.Statement

/-!
# The assembler

Assembly takes two passes over the statements: the first binds the labels to program addresses, the
second makes a word of each instruction and gives the next free memory address to each symbol that
is still unbound. An assembler keeps its bindings from one text to the next, those of a text that
failed included.
-/

namespace HackStack.Assembly

open HackStack.Machine

/-- The number of words that the program memory holds. -/
def programSize : Nat := 0x8000

def maxConstant : Nat := 0x7FFF

structure Assembler where
  symbols : Bindings
  /-- The memory address for the next variable. -/
  nextVariable : Word

/-- An assembled text: its words, and the source line of each word. -/
structure Program where
  words : Array Word
  lines : Array Nat

namespace Assembler

/-- An assembler that knows the predefined symbols only. Variables start at address 16. -/
def new : Assembler := ⟨Std.HashMap.ofList predefined, 16⟩

def address? (a : Assembler) (name : Text) : Option Word := a.symbols[name]?

/-- Binds the labels of statements, of which the first instruction gets the address `next`. -/
def bindLabels (symbols : Bindings) (next : Nat) :
    List (Nat × Statement) → Bindings × Option AssemblyError
  | [] => (symbols, none)
  | (n, .label name) :: rest =>
    if symbols.contains name then (symbols, some (.duplicateLabel name n))
    else bindLabels (symbols.insert name (BitVec.ofNat 16 next)) next rest
  | (n, _) :: rest =>
    if programSize < next + 1 then (symbols, some (.tooLarge n))
    else bindLabels symbols (next + 1) rest

/-- The word that loads an operand; an unbound symbol becomes a variable. -/
def loadWord (a : Assembler) (operand : Text) (n : Nat) :
    Assembler × Except AssemblyError Word :=
  if operand.head?.any Text.isDigit then
    match Text.natUpTo? maxConstant operand with
    | some v => (a, .ok (BitVec.ofNat 16 v))
    | none => (a, .error (.constantRange operand n))
  else if isSymbolName operand then
    match a.symbols[operand]? with
    | some v => (a, .ok v)
    | none =>
      let ⟨symbols, v⟩ := a
      (⟨symbols.insert operand v, v + 1⟩, .ok v)
  else (a, .error (.invalidSymbol operand n))

end Assembler

def computeWord (dest comp jump : Text) (n : Nat) : Except AssemblyError Word :=
  match Comp.ofText? comp with
  | none => .error (.invalidComp comp n)
  | some c =>
    match Dest.ofText? dest with
    | none => .error (.invalidDest dest n)
    | some d =>
      match Jump.ofText? jump with
      | none => .error (.invalidJump jump n)
      | some j => .ok (encodeCompute c.code d.code j.code)

namespace Assembler

/-- Makes words of statements after the program `p`. -/
def makeWords (a : Assembler) (p : Program) :
    List (Nat × Statement) → Assembler × Except AssemblyError Program
  | [] => (a, .ok p)
  | (_, .label _) :: rest => a.makeWords p rest
  | (n, .load operand) :: rest =>
    match a.loadWord operand n with
    | (a, .ok w) => a.makeWords ⟨p.words.push w, p.lines.push n⟩ rest
    | (a, .error e) => (a, .error e)
  | (n, .compute dest comp jump) :: rest =>
    match computeWord dest comp jump n with
    | .ok w => a.makeWords ⟨p.words.push w, p.lines.push n⟩ rest
    | .error e => (a, .error e)

def assemble (a : Assembler) (code : Text) : Assembler × Except AssemblyError Program :=
  match statements code with
  | .error e => (a, .error e)
  | .ok ss =>
    let ⟨symbols, nextVariable⟩ := a
    match bindLabels symbols 0 ss with
    | (symbols, some e) => (⟨symbols, nextVariable⟩, .error e)
    | (symbols, none) => makeWords ⟨symbols, nextVariable⟩ ⟨#[], #[]⟩ ss

end Assembler

end HackStack.Assembly
