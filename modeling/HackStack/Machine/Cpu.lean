import HackStack.Machine.Ram
import HackStack.Text.Basic

/-!
# The processor

The processor has an address register `A`, a data register `D` and a program counter. It halts when
the counter leaves the program, or at an unconditional jump to the instruction just before it, the
idiom for a program that has finished. `run` steps until the processor halts or the step limit is
reached; it ends because every step halts or is counted.
-/

namespace HackStack.Machine

def standardStepBound : Nat := 1000000

/-- The state of the processor with its memories. -/
structure Cpu where
  a : Word
  d : Word
  pc : Word
  ram : Ram
  rom : Array Word
  halted : Bool
  /-- The count of executed instructions, which goes on from wherever it stands. -/
  steps : Int
  /-- After how many steps `run` gives up; a number below one means the default. -/
  stepBound : Int

/-- The arithmetic unit. The control bits say, from the highest to the lowest: zero `x`, complement
`x`, zero `y`, complement `y`, add instead of and, complement the result. -/
def alu (x y control : Word) : Word :=
  let x := if control.getLsbD 5 then 0 else x
  let x := if control.getLsbD 4 then ~~~x else x
  let y := if control.getLsbD 3 then 0 else y
  let y := if control.getLsbD 2 then ~~~y else y
  let out := if control.getLsbD 1 then x + y else x &&& y
  if control.getLsbD 0 then ~~~out else out

/-- Whether the sign of a result satisfies the jump bits of an instruction: 4 for negative, 2 for
zero, 1 for positive. -/
def jumps (out instruction : Word) : Bool :=
  (instruction.getLsbD 2 && out.msb) ||
    (instruction.getLsbD 1 && out == 0) ||
    (instruction.getLsbD 0 && !out.msb && out != 0)

namespace Cpu

/-- A processor at the start of a program, its memory full of zeros. -/
def load (rom : Array Word) : Cpu :=
  { a := 0, d := 0, pc := 0, ram := .zero, rom, halted := false, steps := 0,
    stepBound := standardStepBound }

/-- Executes a computing instruction. Memory is addressed, and a jump made, by the `A` of before. -/
def compute (c : Cpu) (instruction : Word) : Cpu :=
  let address := c.a
  let y := if instruction.getLsbD 12 then c.ram.read address else address
  let out := alu c.d y (instruction >>> 6)
  let taken := jumps out instruction
  { c with
    ram := if instruction.getLsbD 3 then c.ram.write address out else c.ram
    d := if instruction.getLsbD 4 then out else c.d
    a := if instruction.getLsbD 5 then out else address
    pc := if taken then address else c.pc + 1
    halted := taken && (instruction &&& 7) == 7 && address + 1 == c.pc }

/-- Executes one instruction, unless the processor has halted. -/
def step (c : Cpu) : Cpu :=
  if c.halted then c
  else
    match c.rom[c.pc.toNat]? with
    | none => { c with halted := true }
    | some instruction =>
      let c := { c with steps := c.steps + 1 }
      if instruction.getLsbD 15 then c.compute instruction
      else { c with a := instruction, pc := c.pc + 1 }

/-- The step limit that holds. -/
def limit (c : Cpu) : Nat := if 0 < c.stepBound then c.stepBound.toNat else standardStepBound

theorem step_limit (c : Cpu) : c.step.limit = c.limit := by
  unfold step
  split
  · rfl
  · split
    · rfl
    · dsimp only
      split <;> rfl

theorem step_halts_or_counts (c : Cpu) (h : c.halted = false) :
    (c.step.halted = true ∧ c.step.steps = c.steps) ∨ c.step.steps = c.steps + 1 := by
  unfold step
  rw [h]
  simp only [Bool.false_eq_true, if_false]
  split
  · exact Or.inl ⟨rfl, rfl⟩
  · right
    split <;> rfl

/-- A run that was cut off: where, and after how many steps. -/
structure Unfinished where
  pc : Word
  steps : Int
  deriving DecidableEq

def Unfinished.message (u : Unfinished) : Text :=
  "step limit reached: PC=" ++ Text.ofNat u.pc.toNat ++ " after " ++ Text.ofInt u.steps ++ " steps"

/-- Steps until the processor halts or has executed `limit` instructions. -/
def run (c : Cpu) : Cpu × Option Unfinished :=
  if c.halted then (c, none)
  else if c.limit ≤ c.steps then
    let u := ⟨c.pc, c.steps⟩
    (c, some u)
  else c.step.run
termination_by (c.limit - c.steps).toNat + (if c.halted then 0 else 1)
decreasing_by
  rename_i hh hl
  have hh' : c.halted = false := by simpa using hh
  rw [step_limit, hh']
  rcases step_halts_or_counts c hh' with ⟨h, hs⟩ | hs
  · rw [h, hs]
    simp
  · rw [hs]
    split <;> simp <;> omega

/-- The words of the stack from address `base` up to `SP`, which is word 0 of memory; `none` if
`SP` lies below `base`. -/
def stack? (c : Cpu) (base : Word) : Option (List Int) :=
  let sp := c.ram.read 0
  if sp < base then none
  else
    some ((List.range (sp.toNat - base.toNat)).map fun i =>
      (c.ram.read (base + BitVec.ofNat 16 i)).toInt)

end Cpu

end HackStack.Machine
