import HackStack.Assembly.Code
import HackStack.Lowering.Symbol
import HackStack.Vm.Command

/-!
# Blocks of generated code

The pieces that the code of commands is made of. Addresses 0 to 4 hold the registers `SP`, `LCL`,
`ARG`, `THIS` and `THAT`, addresses 5 to 12 the temp segment, and `R13` to `R15` are scratch. The
stack grows upwards from `stackStart`; `SP` holds the first free address. Statics are allocated by
the assembler.
-/

namespace HackStack.Lowering

open HackStack.Assembly
open HackStack.Vm

def stackStart : Nat := 256

def tempStart : Int := 5

/-- The address of the register `THIS`, with which the pointer segment begins. -/
def pointerStart : Int := 3

/-- How many words of the caller a call saves: the return address and four registers. -/
def frameSize : Nat := 5

def pushFromD : List Instruction :=
  [.symbol "SP", .setA .m, .setM .d, .symbol "SP", .setM .mPlusOne]

/-- Pops a word into `D` and clears the cell that it leaves. -/
def popToD : List Instruction := [.symbol "SP", .setAM .mMinusOne, .setD .m, .setM .zero]

def topCell : List Instruction := [.symbol "SP", .setA .mMinusOne]

/-- Makes `D` -1 if its sign satisfies `jump` and 0 otherwise. The block stands at the program
address `start`, and its two jumps lead to places in it by number. -/
def truthBlock (start : Nat) (jump : Jump) : List Instruction :=
  [.number (start + 5 : Nat), .jumpOn .d jump, .setD .zero, .number (start + 6 : Nat), .jump,
    .setD .minusOne]

/-- How many instructions the jumps of `truthBlock` take it to have. -/
def truthLength : Nat := 6

/-- Replaces the topmost word. -/
def unaryBlock (comp : Comp) : List Instruction := topCell ++ [.setM comp]

/-- Replaces the two topmost words by a word computed from `D`, which holds the topmost, and `M`,
which is the other one. -/
def binaryBlock (comp : Comp) : List Instruction := popToD ++ topCell ++ [.setM comp]

/-- Why a command has no code. -/
inductive Fault where
  | unknownOp (code : Int)
  | popConstant
  | tempIndex (index : Int)
  | pointerIndex (index : Int)
  | unknownSegment (code : Int)
  /-- The code of a truth value has not got the length that its jumps take it to have. -/
  | truthDrifted
  /-- There was no command at all; `described` tells whether its comment was asked for. -/
  | noCommand (described : Bool)
  deriving DecidableEq, Repr

def Fault.message : Fault → Text
  | unknownOp n => "codegen: unknown arithmetic op " ++ Op.nameOfCode n
  | popConstant => "codegen: pop constant has no destination"
  | tempIndex i => "codegen: temp index " ++ Text.ofInt i ++ " out of range"
  | pointerIndex i => "codegen: pointer index " ++ Text.ofInt i ++ " out of range"
  | unknownSegment n => "codegen: unknown segment " ++ Segment.nameOfCode n
  | truthDrifted => "codegen: branch block length drifted"
  | noCommand true => "runtime error: invalid memory address or nil pointer dereference"
  | noCommand false => "codegen: unsupported command <nil>"

def gotoBlock (target : Text) : List Instruction := [.symbol target, .jump]

/-- Pops a word and jumps to a symbol unless it is zero. -/
def ifGotoBlock (target : Text) : List Instruction := popToD ++ [.symbol target, .jumpOn .d .jne]

def saveRegister (register : Text) : List Instruction := [.symbol register, .setD .m] ++ pushFromD

/-- Saves the caller's frame, moves `ARG` and `LCL` to those of the callee and jumps to it. -/
def callCode (back function : Text) (args : Int) : List Instruction :=
  [.symbol back, .setD .a] ++ pushFromD ++
    saveRegister "LCL" ++ saveRegister "ARG" ++ saveRegister "THIS" ++ saveRegister "THAT" ++
    [.symbol "SP", .setD .m, .number args, .setD .dMinusA, .number frameSize, .setD .dMinusA,
      .symbol "ARG", .setM .d] ++
    [.symbol "SP", .setD .m, .symbol "LCL", .setM .d] ++
    [.symbol function, .jump]

/-- Restores a register from the saved frame, whose end `R14` holds. -/
def restoreRegister (register : Text) (depth : Nat) : List Instruction :=
  [.symbol "R14", .setD .m, .number depth, .setA .dMinusA, .setD .m, .symbol register, .setM .d]

/-- Unwinds the frame of a call. The return address is read first, because the value of the call
takes its place if there are no arguments. -/
def returnBlock : List Instruction :=
  [.symbol "LCL", .setD .m, .symbol "R14", .setM .d] ++
  [.number frameSize, .setA .dMinusA, .setD .m, .symbol "R15", .setM .d] ++
  popToD ++ [.symbol "ARG", .setA .m, .setM .d] ++
  [.symbol "ARG", .setD .mPlusOne, .symbol "SP", .setM .d] ++
  restoreRegister "THAT" 1 ++ restoreRegister "THIS" 2 ++ restoreRegister "ARG" 3 ++
  restoreRegister "LCL" 4 ++
  [.symbol "R15", .setA .m, .jump]

def clearLocal (k : Nat) : List Instruction :=
  [.symbol "LCL", .setD .m, .number k, .setA .dPlusA, .setM .zero]

/-- Moves `SP` past the local words. -/
def skipLocals (locals : Int) : List Instruction :=
  [.symbol "LCL", .setD .m, .number locals, .setD .dPlusA, .symbol "SP", .setM .d]

/-- Clears the local words of a function that has any. -/
def functionCode (locals : Int) : List Instruction :=
  (List.range locals.toNat).flatMap clearLocal ++ if 0 < locals then skipLocals locals else []

def startBlock : List Instruction := [.number stackStart, .setD .a, .symbol "SP", .setM .d]

end HackStack.Lowering
