import HackStack.Assembly.Mnemonic

/-!
# Assembly code

Assembly code as data: instructions, labels and comments, each on a line of its own, and the text
of such lines.
-/

namespace HackStack.Assembly

/-- What an instruction loads into the address register. -/
inductive Operand where
  | number (n : Int)
  | symbol (name : Text)
  deriving DecidableEq, Repr

def Operand.text : Operand → Text
  | number n => Text.ofInt n
  | symbol name => name

inductive Instruction where
  /-- Loads a number or the address that a symbol names. -/
  | load (operand : Operand)
  /-- Computes, stores and jumps. -/
  | compute (dest : Dest) (comp : Comp) (jump : Jump)
  deriving DecidableEq, Repr

namespace Instruction

def symbol (name : Text) : Instruction := load (.symbol name)

def number (n : Int) : Instruction := load (.number n)

def setA (comp : Comp) : Instruction := compute ⟨true, false, false⟩ comp .never

def setD (comp : Comp) : Instruction := compute ⟨false, true, false⟩ comp .never

def setM (comp : Comp) : Instruction := compute ⟨false, false, true⟩ comp .never

def setAM (comp : Comp) : Instruction := compute ⟨true, false, true⟩ comp .never

/-- Jumps to the loaded address if the computed word has the right sign. -/
def jumpOn (comp : Comp) (jump : Jump) : Instruction := compute .nowhere comp jump

def jump : Instruction := jumpOn .zero .jmp

def text : Instruction → Text
  | load operand => "@" ++ operand.text
  | compute dest comp jump => dest.clause ++ comp.text ++ jump.clause

end Instruction

inductive Line where
  | comment (text : Text)
  | label (name : Text)
  | instruction (i : Instruction)
  deriving DecidableEq, Repr

namespace Line

def occupiesRom : Line → Bool
  | instruction _ => true
  | _ => false

def text : Line → Text
  | comment t => "// " ++ t ++ "\n"
  | label name => "(" ++ name ++ ")\n"
  | instruction i => "\t" ++ i.text ++ "\n"

end Line

def render (lines : List Line) : Text := lines.flatMap Line.text

end HackStack.Assembly
