import HackStack.Lowering.Generator

/-!
# Shapes of blocks

What a generator puts into its code for a command, as a whole: instructions, with a label before
them for a function and behind them for a call. `Generator.block` is this code, `Generator.emit`
appends it, and `Generator.follow` is what else becomes of the state.

Only `push` and `pop` can fail, at the place of their word; `block_push` and `block_pop` say what a
success tells about that place, and `exists_block_iff` when they succeed. The number of instructions
depends on the command alone (`countP_block`), though their text does not.
-/

namespace HackStack.Vm

/-- The number of instructions that load a word of a segment. -/
def Segment.loadSize (s : Segment) : Nat := if s.hasBase then 5 else 2

/-- The number of instructions that load the address of a word of a segment. -/
def Segment.addressSize (s : Segment) : Nat := if s.hasBase then 4 else 2

/-- The number of instructions in the code of a command. -/
def Command.size : Command → Nat
  | arithmetic op => if op.isUnary then 3 else if op.isComparison then 16 else 7
  | push s _ => s.loadSize + 5
  | pop s _ => s.addressSize + 9
  | label _ => 0
  | goto _ => 2
  | ifGoto _ => 6
  | call _ _ => 49
  | function _ locals => 5 * locals.toNat + if 0 < locals then 6 else 0
  | ret => 51

/-- The segment is one of the two short ones, and the index lies outside of it. -/
def Segment.Lacks (s : Segment) (index : Int) : Prop :=
  s = .temp ∧ ¬(0 ≤ index ∧ index ≤ 7) ∨ s = .pointer ∧ ¬(0 ≤ index ∧ index ≤ 1)

/-- The command asks for a word that does not exist, or it stores to a constant. -/
def Command.Unplaced : Command → Prop
  | push s i => s.Lacks i
  | pop s i => s = .constant ∨ s.Lacks i
  | _ => False

end HackStack.Vm

namespace HackStack.Lowering

open HackStack.Assembly
open HackStack.Vm

/-! ## The code of a command -/

/-- Replaces the two topmost words by the truth value of a comparison. The block stands at the
program address `start`. -/
def comparisonBlock (start : Nat) (jump : Jump) : List Instruction :=
  popToD ++ topCell ++ [.setD .mMinusD] ++ truthBlock (start + 7) jump ++ topCell ++ [.setM .d]

/-- The code of an operation that stands at the program address `start`. -/
def arithmeticBlock (start : Nat) : Op → List Instruction
  | .neg => unaryBlock .negM
  | .not => unaryBlock .notM
  | .add => binaryBlock .dPlusM
  | .sub => binaryBlock .mMinusD
  | .and => binaryBlock .dAndM
  | .or => binaryBlock .dOrM
  | .eq => comparisonBlock start .jeq
  | .gt => comparisonBlock start .jgt
  | .lt => comparisonBlock start .jlt

/-- Where a word of a segment lies. -/
inductive Place where
  /-- The index itself is the word. -/
  | immediate (value : Int)
  /-- The register `base` holds the address of the segment's first word. -/
  | offset (base : Text) (index : Int)
  /-- The word has an address of its own. -/
  | fixed (address : Operand)
  deriving DecidableEq, Repr

/-- The place of the word at `index` of a segment, as a command of `unit` sees it. -/
def place (unit : Text) (segment : Segment) (index : Int) : Except Fault Place :=
  match segment with
  | .constant => .ok (.immediate index)
  | .local => .ok (.offset "LCL" index)
  | .argument => .ok (.offset "ARG" index)
  | .this => .ok (.offset "THIS" index)
  | .that => .ok (.offset "THAT" index)
  | .temp =>
    if 0 ≤ index ∧ index ≤ 7 then .ok (.fixed (.number (tempStart + index)))
    else .error (.tempIndex index)
  | .pointer =>
    if 0 ≤ index ∧ index ≤ 1 then .ok (.fixed (.number (pointerStart + index)))
    else .error (.pointerIndex index)
  | .static => .ok (.fixed (.symbol (cellSymbol unit index)))

/-- Loads the word at a place into `D`. -/
def Place.read : Place → List Instruction
  | immediate value => [.number value, .setD .a]
  | offset base index => [.symbol base, .setD .m, .number index, .setA .dPlusA, .setD .m]
  | fixed address => [.load address, .setD .m]

/-- Loads the address of a place into `D`. -/
def Place.address : Place → Except Fault (List Instruction)
  | immediate _ => .error .popConstant
  | offset base index => .ok [.symbol base, .setD .m, .number index, .setD .dPlusA]
  | fixed address => .ok [.load address, .setD .a]

def pushBlock (p : Place) : List Instruction := p.read ++ pushFromD

/-- Pops a word to the place whose address `address` loads. -/
def popCode (address : List Instruction) : List Instruction :=
  address ++ [.symbol "R13", .setM .d] ++ popToD ++ [.symbol "R13", .setA .m, .setM .d]

def popBlock (p : Place) : Except Fault (List Instruction) := p.address.map popCode

def callBlock (back function : Text) (args : Int) : List Line :=
  (callCode back function args).map .instruction ++ [.label back]

def functionBlock (name : Text) (locals : Int) : List Line :=
  .label name :: (functionCode locals).map .instruction

namespace Generator

def emit (e : Generator) (lines : List Line) : Generator :=
  { e with counter := e.counter + lines.countP Line.occupiesRom, code := e.code ++ lines }

/-- The code of a command in the present state. -/
def block (e : Generator) : Command → Except Fault (List Line)
  | .arithmetic op => .ok ((arithmeticBlock e.counter op).map .instruction)
  | .push s i => (place e.unit s i).map fun p => (pushBlock p).map .instruction
  | .pop s i => do
    let code ← popBlock (← place e.unit s i)
    pure (code.map .instruction)
  | .label name => .ok [.label (labelSymbol e.scope name)]
  | .goto name => .ok ((gotoBlock (labelSymbol e.scope name)).map .instruction)
  | .ifGoto name => .ok ((ifGotoBlock (labelSymbol e.scope name)).map .instruction)
  | .call name args => .ok (callBlock (returnSymbol e.scope e.calls) name args)
  | .function name locals => .ok (functionBlock name locals)
  | .ret => .ok (returnBlock.map .instruction)

/-- What a command does to the state apart from its code. -/
def follow (e : Generator) : Command → Generator
  | .call _ _ => { e with calls := e.calls + 1 }
  | .function name _ =>
    { e with openFunctions := name :: e.openFunctions, closedFunction := none }
  | .ret => e.closeFunction
  | _ => e

end Generator

/-! ## Commands that have code -/

theorem exists_place_iff {unit : Text} {s : Segment} {i : Int} :
    (∃ p, place unit s i = .ok p) ↔ ¬s.Lacks i := by
  have hchoice : ∀ (range : Prop) [Decidable range] (p : Place) (f : Fault),
      (∃ q, (if range then Except.ok p else .error f) = .ok q) ↔ range := by
    intro range _ p f
    by_cases h : range
    · simp [h]
    · simp [h]
  cases s with
  | temp => exact (hchoice _ _ _).trans (by simp [Segment.Lacks])
  | pointer => exact (hchoice _ _ _).trans (by simp [Segment.Lacks])
  | _ => simp [place, Segment.Lacks]

theorem exists_address_iff {unit : Text} {s : Segment} {i : Int} {p : Place}
    (h : place unit s i = .ok p) : (∃ code, p.address = .ok code) ↔ s ≠ .constant := by
  cases s with
  | temp =>
      simp only [place] at h
      split at h
      · cases h
        simp [Place.address]
      · cases h
  | pointer =>
      simp only [place] at h
      split at h
      · cases h
        simp [Place.address]
      · cases h
  | _ =>
      cases h
      simp [Place.address]

namespace Generator

theorem block_push {e : Generator} {s : Segment} {i : Int} {lines : List Line}
    (h : e.block (.push s i) = .ok lines) :
    ∃ p, place e.unit s i = .ok p ∧ lines = (pushBlock p).map .instruction := by
  simp only [block] at h
  cases hp : place e.unit s i with
  | error f =>
      rw [hp] at h
      cases h
  | ok p =>
      rw [hp] at h
      cases h
      exact ⟨p, rfl, rfl⟩

theorem block_pop {e : Generator} {s : Segment} {i : Int} {lines : List Line}
    (h : e.block (.pop s i) = .ok lines) :
    ∃ p address, place e.unit s i = .ok p ∧ p.address = .ok address ∧
      lines = (popCode address).map .instruction := by
  simp only [block] at h
  cases hp : place e.unit s i with
  | error f =>
      rw [hp] at h
      cases h
  | ok p =>
      rw [hp] at h
      change ((popBlock p) >>= fun code => pure (code.map Line.instruction)) = _ at h
      rw [popBlock] at h
      cases ha : p.address with
      | error f =>
          rw [ha] at h
          cases h
      | ok address =>
          rw [ha] at h
          cases h
          exact ⟨p, address, rfl, ha, rfl⟩

theorem block_push_of_place {e : Generator} {s : Segment} {i : Int} {p : Place}
    (hp : place e.unit s i = .ok p) :
    e.block (.push s i) = .ok ((pushBlock p).map .instruction) := by
  rw [block, hp]
  rfl

theorem block_pop_of_place {e : Generator} {s : Segment} {i : Int} {p : Place}
    {address : List Instruction} (hp : place e.unit s i = .ok p) (ha : p.address = .ok address) :
    e.block (.pop s i) = .ok ((popCode address).map .instruction) := by
  rw [block, hp]
  show (popBlock p >>= fun code => pure (code.map Line.instruction)) = _
  rw [popBlock, ha]
  rfl

/-- **The commands that have code.** -/
theorem exists_block_iff {e : Generator} {c : Command} :
    (∃ lines, e.block c = .ok lines) ↔ ¬c.Unplaced := by
  cases c with
  | push s i =>
      constructor
      · rintro ⟨lines, h⟩
        obtain ⟨p, hp, -⟩ := block_push h
        exact exists_place_iff.mp ⟨p, hp⟩
      · intro h
        obtain ⟨p, hp⟩ := exists_place_iff.mpr h
        exact ⟨_, block_push_of_place hp⟩
  | pop s i =>
      rw [Command.Unplaced, not_or]
      constructor
      · rintro ⟨lines, h⟩
        obtain ⟨p, address, hp, haddress, -⟩ := block_pop h
        exact ⟨(exists_address_iff hp).mp ⟨address, haddress⟩, exists_place_iff.mp ⟨p, hp⟩⟩
      · rintro ⟨hs, h⟩
        obtain ⟨p, hp⟩ := exists_place_iff.mpr h
        obtain ⟨address, haddress⟩ := (exists_address_iff hp).mpr hs
        exact ⟨_, block_pop_of_place hp haddress⟩
  | _ => simp [block, Command.Unplaced]

end Generator

/-! ## Sizes -/

theorem countP_instructions (code : List Instruction) :
    (code.map Line.instruction).countP Line.occupiesRom = code.length := by
  rw [List.countP_map]
  exact List.countP_eq_length.mpr fun _ _ => rfl

theorem length_arithmeticBlock (start : Nat) (op : Op) :
    (arithmeticBlock start op).length = (Command.arithmetic op).size := by
  cases op <;> rfl

theorem length_read_of_place {unit : Text} {s : Segment} {i : Int} {p : Place}
    (h : place unit s i = .ok p) : p.read.length = s.loadSize := by
  cases s with
  | temp =>
      simp only [place] at h
      split at h <;> cases h
      rfl
  | pointer =>
      simp only [place] at h
      split at h <;> cases h
      rfl
  | _ =>
      cases h
      rfl

theorem length_address_of_place {unit : Text} {s : Segment} {i : Int} {p : Place}
    {address : List Instruction} (h : place unit s i = .ok p) (ha : p.address = .ok address) :
    address.length = s.addressSize := by
  cases s with
  | temp =>
      simp only [place] at h
      split at h <;> cases h
      cases ha
      rfl
  | pointer =>
      simp only [place] at h
      split at h <;> cases h
      cases ha
      rfl
  | constant =>
      cases h
      cases ha
  | _ =>
      cases h
      cases ha
      rfl

theorem length_pushBlock {unit : Text} {s : Segment} {i : Int} {p : Place}
    (h : place unit s i = .ok p) : (pushBlock p).length = (Command.push s i).size := by
  rw [pushBlock, List.length_append, length_read_of_place h]
  rfl

theorem length_popCode {unit : Text} {s : Segment} {i : Int} {p : Place}
    {address : List Instruction} (h : place unit s i = .ok p) (ha : p.address = .ok address) :
    (popCode address).length = (Command.pop s i).size := by
  simp only [popCode, List.length_append, length_address_of_place h ha]
  rfl

theorem length_clearLocals (n : Nat) : ((List.range n).flatMap clearLocal).length = 5 * n := by
  induction n with
  | zero => rfl
  | succ n ih =>
      rw [List.range_succ, List.flatMap_append, List.length_append, ih]
      show 5 * n + 5 = 5 * (n + 1)
      omega

theorem length_functionCode (name : Text) (locals : Int) :
    (functionCode locals).length = (Command.function name locals).size := by
  rw [functionCode, List.length_append, length_clearLocals, Command.size]
  split <;> rfl

/-- The length of a block does not depend on the state of the generator. -/
theorem countP_block {e : Generator} {c : Command} {lines : List Line}
    (h : e.block c = .ok lines) : lines.countP Line.occupiesRom = c.size := by
  cases c with
  | arithmetic op =>
      cases h
      rw [countP_instructions, length_arithmeticBlock]
  | push s i =>
      obtain ⟨p, hp, rfl⟩ := Generator.block_push h
      rw [countP_instructions, length_pushBlock hp]
  | pop s i =>
      obtain ⟨p, address, hp, ha, rfl⟩ := Generator.block_pop h
      rw [countP_instructions, length_popCode hp ha]
  | function name locals =>
      cases h
      rw [functionBlock, ← length_functionCode name locals, ← countP_instructions]
      rfl
  | _ =>
      cases h
      rfl

end HackStack.Lowering
