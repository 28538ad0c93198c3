import HackStack.Machine.Word
import HackStack.Text.Basic

/-!
# Mnemonics of computing instructions

A computing instruction says what to compute (`Comp`), where to store it (`Dest`) and when to jump
(`Jump`). Each field has a spelling and a bit pattern.
-/

namespace HackStack.Assembly

open HackStack.Machine

/-- What an instruction computes from the registers `D` and `A` and the memory word `M`. -/
inductive Comp where
  | zero
  | one
  | minusOne
  | d
  | a
  | notD
  | notA
  | negD
  | negA
  | dPlusOne
  | aPlusOne
  | dMinusOne
  | aMinusOne
  | dPlusA
  | dMinusA
  | aMinusD
  | dAndA
  | dOrA
  | m
  | notM
  | negM
  | mPlusOne
  | mMinusOne
  | dPlusM
  | dMinusM
  | mMinusD
  | dAndM
  | dOrM
  deriving DecidableEq, Repr

namespace Comp

def all : List Comp :=
  [.zero, .one, .minusOne, .d, .a, .notD, .notA, .negD, .negA, .dPlusOne, .aPlusOne, .dMinusOne,
    .aMinusOne, .dPlusA, .dMinusA, .aMinusD, .dAndA, .dOrA, .m, .notM, .negM, .mPlusOne,
    .mMinusOne, .dPlusM, .dMinusM, .mMinusD, .dAndM, .dOrM]

def text : Comp → Text
  | .zero => "0"
  | .one => "1"
  | .minusOne => "-1"
  | .d => "D"
  | .a => "A"
  | .notD => "!D"
  | .notA => "!A"
  | .negD => "-D"
  | .negA => "-A"
  | .dPlusOne => "D+1"
  | .aPlusOne => "A+1"
  | .dMinusOne => "D-1"
  | .aMinusOne => "A-1"
  | .dPlusA => "D+A"
  | .dMinusA => "D-A"
  | .aMinusD => "A-D"
  | .dAndA => "D&A"
  | .dOrA => "D|A"
  | .m => "M"
  | .notM => "!M"
  | .negM => "-M"
  | .mPlusOne => "M+1"
  | .mMinusOne => "M-1"
  | .dPlusM => "D+M"
  | .dMinusM => "D-M"
  | .mMinusD => "M-D"
  | .dAndM => "D&M"
  | .dOrM => "D|M"

/-- The spelling with the operands exchanged, where that computes the same. -/
def swapped? : Comp → Option Text
  | .dPlusA => some "A+D"
  | .dAndA => some "A&D"
  | .dOrA => some "A|D"
  | .dPlusM => some "M+D"
  | .dAndM => some "M&D"
  | .dOrM => some "M|D"
  | _ => none

def ofText? (t : Text) : Option Comp := all.find? fun c => c.text = t ∨ c.swapped? = some t

/-- The bit that chooses between `A` and `M`, and the six control bits of the arithmetic unit. -/
def code : Comp → Word
  | .zero => 0b0101010
  | .one => 0b0111111
  | .minusOne => 0b0111010
  | .d => 0b0001100
  | .a => 0b0110000
  | .notD => 0b0001101
  | .notA => 0b0110001
  | .negD => 0b0001111
  | .negA => 0b0110011
  | .dPlusOne => 0b0011111
  | .aPlusOne => 0b0110111
  | .dMinusOne => 0b0001110
  | .aMinusOne => 0b0110010
  | .dPlusA => 0b0000010
  | .dMinusA => 0b0010011
  | .aMinusD => 0b0000111
  | .dAndA => 0b0000000
  | .dOrA => 0b0010101
  | .m => 0b1110000
  | .notM => 0b1110001
  | .negM => 0b1110011
  | .mPlusOne => 0b1110111
  | .mMinusOne => 0b1110010
  | .dPlusM => 0b1000010
  | .dMinusM => 0b1010011
  | .mMinusD => 0b1000111
  | .dAndM => 0b1000000
  | .dOrM => 0b1010101

end Comp

/-- The set of cells that receive the result. -/
structure Dest where
  a : Bool
  d : Bool
  m : Bool
  deriving DecidableEq, Repr

namespace Dest

def nowhere : Dest := ⟨false, false, false⟩

/-- The letters of the cells in the order `A`, `M`, `D`. -/
def text (dest : Dest) : Text :=
  (if dest.a then [0x41] else []) ++ (if dest.m then [0x4D] else []) ++
    (if dest.d then [0x44] else [])

def clause (dest : Dest) : Text :=
  match dest.text with
  | [] => []
  | letters => letters ++ "="

/-- `dest` with the cell that a letter names, unless it is there already. -/
def add? (dest : Dest) (letter : UInt8) : Option Dest :=
  match letter with
  | 0x41 => if dest.a then none else some { dest with a := true }
  | 0x44 => if dest.d then none else some { dest with d := true }
  | 0x4D => if dest.m then none else some { dest with m := true }
  | _ => none

/-- The set that a text spells: its letters in any order, none of them twice. -/
def ofText? (t : Text) : Option Dest := t.foldlM add? nowhere

/-- One bit for each cell. -/
def code (dest : Dest) : Word :=
  (if dest.a then 4 else 0) ||| (if dest.d then 2 else 0) ||| (if dest.m then 1 else 0)

end Dest

/-- The sign of the result for which an instruction jumps. -/
inductive Jump where
  | never
  | jgt
  | jeq
  | jge
  | jlt
  | jne
  | jle
  | jmp
  deriving DecidableEq, Repr

namespace Jump

/-- All conditions in the order of their codes. -/
def all : List Jump := [.never, .jgt, .jeq, .jge, .jlt, .jne, .jle, .jmp]

/-- The spelling; never to jump is spelled by nothing. -/
def text : Jump → Text
  | .never => ""
  | .jgt => "JGT"
  | .jeq => "JEQ"
  | .jge => "JGE"
  | .jlt => "JLT"
  | .jne => "JNE"
  | .jle => "JLE"
  | .jmp => "JMP"

def clause : Jump → Text
  | .never => []
  | j => ";" ++ j.text

def ofText? (t : Text) : Option Jump := all.find? fun j => j.text = t

/-- One bit for each sign: 4 for negative, 2 for zero, 1 for positive. -/
def code : Jump → Word
  | .never => 0
  | .jgt => 1
  | .jeq => 2
  | .jge => 3
  | .jlt => 4
  | .jne => 5
  | .jle => 6
  | .jmp => 7

end Jump

end HackStack.Assembly
