import HackStack.Proofs.Assembly.Computation
import HackStack.Proofs.Lowering.Control
import HackStack.Proofs.Lowering.Fragment
import HackStack.Proofs.Lowering.FreeOperands

/-!
# Comparisons

`eq`, `gt` and `lt` are meant to compare signed numbers (`Op.compares`). Their code subtracts and
looks at the sign of the difference, which wraps. So `eq` is always right, and `gt` and `lt` are
right if the difference of the operands is itself a signed 16-bit number (`DifferenceFits`); if it
is not, they give the opposite answer.
-/

namespace HackStack.Vm

open HackStack.Assembly

/-- The comparison of signed numbers that an operation stands for. -/
def Op.compares (x y : Int) : Op → Bool
  | .eq => x = y
  | .gt => y < x
  | .lt => x < y
  | _ => false

/-- The sign of the difference by which a comparison is decided. -/
def Op.decision : Op → Jump
  | .eq => .jeq
  | .gt => .jgt
  | .lt => .jlt
  | _ => .never

end HackStack.Vm

namespace HackStack.Lowering

open HackStack.Assembly
open HackStack.Machine
open HackStack.Vm

/-! ## The sign of a difference -/

/-- The difference of two words is a signed 16-bit number. -/
def DifferenceFits (x y : Word) : Prop :=
  -0x8000 ≤ x.toInt - y.toInt ∧ x.toInt - y.toInt < 0x8000
  deriving Decidable

section

variable {x y : Word}

/-- A difference that does not fit is off by the number of all words. -/
theorem toInt_sub_cases (x y : Word) :
    DifferenceFits x y ∧ (x - y).toInt = x.toInt - y.toInt ∨
    (0x8000 ≤ x.toInt - y.toInt ∧ x.toInt - y.toInt < 0x10000 ∧
      (x - y).toInt = x.toInt - y.toInt - 0x10000) ∨
    (x.toInt - y.toInt < -0x8000 ∧ -0x10000 < x.toInt - y.toInt ∧
      (x - y).toInt = x.toInt - y.toInt + 0x10000) := by
  have hx := x.toInt_lt
  have hx' := x.le_toInt
  have hy := y.toInt_lt
  have hy' := y.le_toInt
  rw [BitVec.toInt_sub, Int.bmod_def, DifferenceFits]
  omega

theorem holds_decision {op : Op} (hop : op.isComparison = true)
    (h : op = .eq ∨ DifferenceFits x y) :
    op.decision.holds (x - y) = op.compares x.toInt y.toInt := by
  have hsign := toInt_sub_cases x y
  rw [DifferenceFits] at hsign h
  rw [Jump.holds_eq_condition]
  cases op with
  | eq => exact decide_eq_decide.mpr (by omega)
  | gt =>
      have hfits := h.resolve_left (by decide)
      exact decide_eq_decide.mpr (by omega)
  | lt =>
      have hfits := h.resolve_left (by decide)
      exact decide_eq_decide.mpr (by omega)
  | _ => cases hop

/-- If the difference does not fit, its sign is the wrong one. -/
theorem holds_decision_of_overflow {op : Op} (hop : op.isComparison = true) (hne : op ≠ .eq)
    (h : ¬DifferenceFits x y) : op.decision.holds (x - y) = !op.compares x.toInt y.toInt := by
  have hsign := toInt_sub_cases x y
  rw [DifferenceFits] at hsign h
  rw [Jump.holds_eq_condition]
  cases op with
  | eq => exact absurd rfl hne
  | gt =>
      rw [Op.decision, Jump.condition, Op.compares, ← decide_not]
      exact decide_eq_decide.mpr (by omega)
  | lt =>
      rw [Op.decision, Jump.condition, Op.compares, ← decide_not]
      exact decide_eq_decide.mpr (by omega)
  | _ => cases hop

end

/-! ## The block of a comparison -/

theorem arithmeticBlock_of_comparison {op : Op} (hop : op.isComparison = true) (start : Nat) :
    arithmeticBlock start op = comparisonBlock start op.decision := by
  cases op with
  | eq => rfl
  | gt => rfl
  | lt => rfl
  | _ => cases hop

theorem fixed_arithmeticBlock (op : Op) {start : Nat}
    (hfits : start + (Command.arithmetic op).size ≤ programSize) :
    Fixed (arithmeticBlock start op) :=
  fixed_of_loads fun _ hregs => loads_arithmeticBlock hregs op hfits

/-- What a comparison leaves in memory: the stack is one word shorter, the word that is now on top
is the answer, and the cell above it is clear. -/
structure Decided (op : Op) (sp : Nat) (before after : Ram) : Prop where
  pointer : after.peek 0 = BitVec.ofNat 16 (sp - 1)
  right : op = .eq ∨ DifferenceFits (before.peek (sp - 2)) (before.peek (sp - 1)) →
    after.peek (sp - 2) =
      truth (op.compares (before.peek (sp - 2)).toInt (before.peek (sp - 1)).toInt)
  wrong : op ≠ .eq → ¬DifferenceFits (before.peek (sp - 2)) (before.peek (sp - 1)) →
    after.peek (sp - 2) =
      truth (!op.compares (before.peek (sp - 2)).toInt (before.peek (sp - 1)).toInt)
  cleared : after.peek (sp - 1) = 0
  others : ∀ m < ramCells, m ≠ 0 → m ≠ sp - 2 → m ≠ sp - 1 → after.peek m = before.peek m

theorem decided_poke {op : Op} (hop : op.isComparison = true) {ram : Ram} {sp : Nat} (hpos : 0 < sp)
    (hlt : sp + 1 < ramCells) :
    Decided op (sp + 2) ram
      (((ram.poke 0 (BitVec.ofNat 16 (sp + 1))).poke (sp + 1) 0).poke sp
        (truth (op.decision.holds (ram.peek sp - ram.peek (sp + 1))))) := by
  have hcells : ramCells = 0x8000 := rfl
  have hx : sp + 2 - 2 = sp := by omega
  have hy : sp + 2 - 1 = sp + 1 := by omega
  refine ⟨?_, ?_, ?_, ?_, ?_⟩
  · rw [Ram.peek_poke_of_ne _ _ (by omega) (by omega) (by omega),
      Ram.peek_poke_of_ne _ _ hlt (by omega) (by omega), Ram.peek_poke_self, hy]
  · rw [hx, hy, Ram.peek_poke_self]
    intro h
    rw [holds_decision hop h]
  · rw [hx, hy, Ram.peek_poke_self]
    intro hne h
    rw [holds_decision_of_overflow hop hne h]
  · rw [hy, Ram.peek_poke_of_ne _ _ (by omega) hlt (by omega), Ram.peek_poke_self]
  · intro m hm hzero hbelow habove
    rw [Ram.peek_poke_of_ne _ _ (by omega) hm (by omega),
      Ram.peek_poke_of_ne _ _ hlt hm (by omega), Ram.peek_poke_of_ne _ _ (by omega) hm (by omega)]

/-- A comparison from the first instruction of its block to the one behind it. -/
theorem decided_of_installed {symbols : Bindings} (hregs : BindsRegisters symbols) {op : Op}
    (hop : op.isComparison = true) {c : Cpu} {start sp : Nat}
    (hcode : Installed symbols c.rom start (arithmeticBlock start op))
    (hpc : c.pc = BitVec.ofNat 16 start) (hrun : c.halted = false)
    (hsp : c.ram.peek 0 = BitVec.ofNat 16 sp) (hlow : 18 ≤ sp) (hhigh : sp ≤ ramCells) :
    ∃ n, (Cpu.step^[n] c).pc = BitVec.ofNat 16 (start + 16) ∧
      (Cpu.step^[n] c).halted = false ∧ (Cpu.step^[n] c).rom = c.rom ∧
      Decided op sp c.ram (Cpu.step^[n] c).ram := by
  obtain ⟨low, rfl⟩ : ∃ low, sp = low + 2 := ⟨sp - 2, by omega⟩
  rw [arithmeticBlock_of_comparison hop] at hcode
  have hjump : op.decision ≠ .jmp := by cases op <;> decide
  have hat : At c.rom start c.core c := ⟨rfl, hpc, rfl, hrun⟩
  obtain ⟨n, -, hend, -⟩ :=
    at_comparisonBlock hregs hat hjump hcode hsp (by omega) (by omega)
  refine ⟨n, hend.pc, hend.running, hend.rom, ?_⟩
  rw [show (Cpu.step^[n] c).ram = _ from congrArg Core.ram hend.core]
  exact decided_poke hop (by omega) (by omega)

/-- **Comparisons decide by the sign of a difference that wraps.** Wherever the block of a
comparison is emitted, running it ends behind it with the answer in place of the operands: the one
that the comparison of signed numbers has, unless `gt` or `lt` is asked about numbers whose
difference does not fit. -/
theorem comparison_decides (e : Generator) (op : Op) (hop : op.isComparison = true)
    (hfits : e.counter + 16 ≤ programSize) :
    ∃ lines a p, e.block (.arithmetic op) = .ok lines ∧
      Assembler.new.assemble (render lines) = (a, .ok p) ∧
      (e.generate (.arithmetic op)).1.counter = e.counter + p.words.size ∧
      ∀ (c : Cpu) (sp : Nat), p.words.toList <+: c.rom.toList.drop e.counter →
        c.pc = BitVec.ofNat 16 e.counter → c.halted = false →
        c.ram.peek 0 = BitVec.ofNat 16 sp → 18 ≤ sp → sp ≤ ramCells →
          ∃ n, (Cpu.step^[n] c).pc = BitVec.ofNat 16 (e.counter + p.words.size) ∧
            (Cpu.step^[n] c).halted = false ∧ (Cpu.step^[n] c).rom = c.rom ∧
            Decided op sp c.ram (Cpu.step^[n] c).ram := by
  have hsize : (Command.arithmetic op).size = 16 := by
    cases op with
    | eq => rfl
    | gt => rfl
    | lt => rfl
    | _ => cases hop
  have hlength := length_arithmeticBlock e.counter op
  have hfixed := fixed_arithmeticBlock op (hsize ▸ hfits)
  obtain ⟨a, p, haccepted, hwords, hregs, hcode⟩ := hfixed.assemble (by omega)
  rw [hlength, hsize] at hwords
  refine ⟨_, a, p, rfl, haccepted, ?_, ?_⟩
  · rw [hwords, ← hsize, ← hlength, ← countP_instructions, Generator.generate_of_block rfl]
    rfl
  · intro c sp hplaced hpc hrun hsp hlow hhigh
    rw [hwords]
    exact decided_of_installed hregs hop
      (hfixed.installed hregs hcode hplaced (by rwa [hlength, hsize])) hpc hrun hsp hlow hhigh

/-- A program that contains the block of an operation holds the words that the block has by
itself. -/
theorem arithmetic_placed {options : Options} {before after : List Action} {act : Action} {op : Op}
    {symbols : Bindings} {rom : Array Word}
    (himage : Image (Generator.run options (before ++ act :: after)).code.toList symbols rom.toList)
    (hvalid : act.Valid) (hcommand : act.command? = some (.arithmetic op))
    (hfits : (Generator.run options before).counter + (Command.arithmetic op).size ≤ programSize)
    {lines : List Line} (hblock : (Generator.run options before).block (.arithmetic op) = .ok lines)
    {a : Assembler} {p : Program} (h : Assembler.new.assemble (render lines) = (a, .ok p)) :
    p.words.toList <+: rom.toList.drop (Generator.run options before).counter := by
  have hfixed := fixed_arithmeticBlock op hfits
  have hlength := length_arithmeticBlock (Generator.run options before).counter op
  obtain ⟨lines', hblock', hcode, -⟩ := (Generator.laidOut_action himage hvalid).code _ hcommand
  cases hblock
  cases hblock'
  rw [codeInstructions_instructions] at hcode
  obtain ⟨a', p', haccepted, hsize, hregs, hwords⟩ := hfixed.assemble (by omega)
  cases h.symm.trans haccepted
  exact hfixed.isPrefix hregs himage.predefined hwords hsize hcode

/-! ## The largest number and its neighbours -/

/-- Compares the largest number with -1. -/
def comparing : List Action :=
  [.unit "Main", .write (.push 7 32767), .write (.push 7 1), .write (.arithmetic 2),
    .write (.arithmetic 4)]

/-- A processor with two words on the stack. -/
def atOperands (rom : Array Word) (start : Nat) (x y : Word) : Cpu :=
  arriving rom start (((Ram.zero.poke 0 258).poke 256 x).poke 257 y)

theorem peek_atOperands (rom : Array Word) (start : Nat) (x y : Word) :
    (atOperands rom start x y).ram.peek 0 = BitVec.ofNat 16 258 ∧
      (atOperands rom start x y).ram.peek 256 = x ∧
      (atOperands rom start x y).ram.peek 257 = y := by
  refine ⟨?_, ?_, Ram.peek_poke_self _ _ _⟩
  · show (((Ram.zero.poke 0 258).poke 256 x).poke 257 y).peek 0 = _
    rw [Ram.peek_poke_of_ne _ _ (by decide) (by decide) (by decide),
      Ram.peek_poke_of_ne _ _ (by decide) (by decide) (by decide), Ram.peek_poke_self]
    rfl
  · show (((Ram.zero.poke 0 258).poke 256 x).poke 257 y).peek 256 = _
    rw [Ram.peek_poke_of_ne _ _ (by decide) (by decide) (by decide), Ram.peek_poke_self]

theorem counter_comparing :
    (Generator.run ⟨false, "", true⟩ (comparing.take 4)).counter = 17 := by
  decide +kernel

theorem assemble_comparing :
    ∃ a p, Assembler.new.assemble (Generator.run ⟨false, "", true⟩ comparing).text = (a, .ok p) ∧
      Image (Generator.run ⟨false, "", true⟩ comparing).code.toList a.symbols p.words.toList := by
  have hvalid : ∀ a ∈ comparing, a.Valid := by
    simp only [comparing, List.forall_mem_cons]
    exact ⟨show isIdentifier "Main" = true by decide, ⟨_, rfl, rfl⟩, ⟨_, rfl, rfl⟩, ⟨_, rfl, rfl⟩,
      ⟨_, rfl, rfl⟩, by simp⟩
  have hlowerable : Generator.Lowerable ⟨false, "", true⟩ comparing :=
    ⟨by decide, hvalid, by decide +kernel, by decide +kernel, by decide +kernel⟩
  exact hlowerable.assemble (by decide +kernel)

theorem comparing_eq : comparing = comparing.take 4 ++ .write (.arithmetic 4) :: [] := rfl

/-- The largest number is found to be greater than 0. -/
theorem comparison_decides_zero :
    ∃ a p, Assembler.new.assemble (Generator.run ⟨false, "", true⟩ comparing).text = (a, .ok p) ∧
      ∃ n, (Cpu.step^[n] (atOperands p.words 17 0x7FFF 0)).pc = 33 ∧
        (Cpu.step^[n] (atOperands p.words 17 0x7FFF 0)).ram.peek 256 = -1 := by
  obtain ⟨a, p, haccepted, himage⟩ := assemble_comparing
  refine ⟨a, p, haccepted, ?_⟩
  have hcounter := counter_comparing
  obtain ⟨lines, a', p', hblock, hassemble, hsize, hrun⟩ := comparison_decides
    (Generator.run ⟨false, "", true⟩ (comparing.take 4)) .gt rfl (by rw [hcounter]; decide)
  rw [comparing_eq] at himage
  have hplaced := arithmetic_placed himage ⟨_, rfl, rfl⟩ rfl (by rw [hcounter]; decide) hblock
    hassemble
  rw [hcounter] at hsize hrun hplaced
  have hwords : p'.words.size = 16 := by
    have hemitted : ∀ e : Generator,
        (e.generate (.arithmetic .gt)).1.counter = e.counter + 16 := by
      intro e
      rw [Generator.generate_of_block rfl]
      rfl
    rw [hemitted, hcounter] at hsize
    omega
  obtain ⟨hsp, hx, hy⟩ := peek_atOperands p.words 17 0x7FFF 0
  obtain ⟨n, hpc, -, -, hdecided⟩ := hrun (atOperands p.words 17 0x7FFF 0) 258 hplaced rfl rfl hsp
    (by decide) (by decide)
  refine ⟨n, by rw [hpc, hwords]; rfl, ?_⟩
  have hright := hdecided.right
  rw [hx, hy] at hright
  rw [hright (Or.inr (by decide))]
  decide

/-- The largest number is not found to be greater than -1. -/
theorem gt_wrong_on_overflow :
    Op.gt.compares (0x7FFF#16).toInt (-1#16).toInt = true ∧
    ∃ a p, Assembler.new.assemble (Generator.run ⟨false, "", true⟩ comparing).text = (a, .ok p) ∧
      ∃ n, (Cpu.step^[n] (atOperands p.words 17 0x7FFF (-1))).pc = 33 ∧
        (Cpu.step^[n] (atOperands p.words 17 0x7FFF (-1))).ram.peek 256 = 0 := by
  refine ⟨by decide, ?_⟩
  obtain ⟨a, p, haccepted, himage⟩ := assemble_comparing
  refine ⟨a, p, haccepted, ?_⟩
  have hcounter := counter_comparing
  have hregs : BindsRegisters a.symbols := himage.predefined
  rw [comparing_eq] at himage
  obtain ⟨lines, hblock, hcode, -⟩ :=
    (Generator.laidOut_action himage ⟨_, rfl, rfl⟩).code (.arithmetic .gt) rfl
  cases hblock
  rw [codeInstructions_instructions, hcounter] at hcode
  have hinstalled : Installed a.symbols p.words 17 (arithmeticBlock 17 .gt) :=
    ⟨hcode, (fixed_arithmeticBlock .gt (by decide)).loadsSmall hregs, by decide⟩
  obtain ⟨hsp, hx, hy⟩ := peek_atOperands p.words 17 0x7FFF (-1)
  obtain ⟨n, hpc, -, -, hdecided⟩ := decided_of_installed
    (c := atOperands p.words 17 0x7FFF (-1)) hregs rfl hinstalled rfl rfl hsp (by decide)
    (by decide)
  refine ⟨n, hpc, ?_⟩
  have hwrong := hdecided.wrong (by decide)
  rw [hx, hy] at hwrong
  rw [hwrong (by decide)]
  decide

end HackStack.Lowering
