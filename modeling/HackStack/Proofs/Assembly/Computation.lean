import Mathlib.Data.List.Induction
import HackStack.Proofs.Assembly.Translation
import HackStack.Proofs.Machine.Memory
import HackStack.Proofs.Machine.Step

/-!
# What a written computation does

A computing instruction is written `dest=comp;jump`. `expressionValue?` gives the text `comp` a
value of its own, by its letters and operators and with no table of mnemonics, and
`Jump.condition` gives a jump its meaning for signed numbers. The main statement says that the word
that is assembled for such a line makes one step of the processor out of these two.
-/

namespace HackStack.Assembly

open HackStack.Machine

/-! ## Expressions -/

/-- The value of an operand: a digit, a register, or the memory word that `A` addresses. -/
def operandValue? (k : Core) : UInt8 → Option Word
  | 0x30 => some 0
  | 0x31 => some 1
  | 0x41 => some k.a
  | 0x44 => some k.d
  | 0x4D => some (k.ram.peek (k.a.toNat % ramCells))
  | _ => none

/-- What an operator between two operands does to words. -/
def operator? : UInt8 → Option (Word → Word → Word)
  | 0x2B => some (· + ·)
  | 0x2D => some (· - ·)
  | 0x26 => some (· &&& ·)
  | 0x7C => some (· ||| ·)
  | _ => none

/-- The value of an expression: an operand, the complement or the negative of one, or two operands
with an operator between them. -/
def expressionValue? (k : Core) : Text → Option Word
  | [x] => operandValue? k x
  | [0x21, x] => (operandValue? k x).map (~~~ ·)
  | [0x2D, x] => (operandValue? k x).map (- ·)
  | [x, o, y] => do
    let f ← operator? o
    return f (← operandValue? k x) (← operandValue? k y)
  | _ => none

namespace Comp

def spellings (c : Comp) : List Text := c.text :: c.swapped?.toList

theorem ofText?_spelling (c : Comp) : ∀ t ∈ c.spellings, ofText? t = some c := by
  cases c <;> decide

theorem expressionValue?_text (k : Core) (c : Comp) :
    expressionValue? k c.text = some (c.value k) := by
  have hm : k.m = k.ram.peek (k.a.toNat % ramCells) := k.ram.read_eq_peek k.a
  cases c <;> simp only [value, hm] <;> rfl

/-- The operators with a second spelling are commutative. -/
theorem expressionValue?_swapped (k : Core) {c : Comp} {t : Text} (h : c.swapped? = some t) :
    expressionValue? k t = some (c.value k) := by
  have hm : k.m = k.ram.peek (k.a.toNat % ramCells) := k.ram.read_eq_peek k.a
  cases c <;> cases h <;> simp only [value, hm]
  · exact congrArg some (BitVec.add_comm k.a k.d)
  · exact congrArg some (BitVec.and_comm k.a k.d)
  · exact congrArg some (BitVec.or_comm k.a k.d)
  · exact congrArg some (BitVec.add_comm _ k.d)
  · exact congrArg some (BitVec.and_comm _ k.d)
  · exact congrArg some (BitVec.or_comm _ k.d)

/-- Each spelling of a computation is an expression with its value. -/
theorem expressionValue?_spelling (k : Core) {c : Comp} {t : Text} (h : t ∈ c.spellings) :
    expressionValue? k t = some (c.value k) := by
  rcases List.mem_cons.mp h with rfl | h
  · exact expressionValue?_text k c
  · exact expressionValue?_swapped k (Option.mem_toList.mp h)

theorem spelling_facts (c : Comp) : ∀ t ∈ c.spellings,
    t ≠ [] ∧ (∀ b ∈ t, isFieldByte b = true) ∧ 0x3D ∉ t ∧ 0x3B ∉ t := by
  cases c <;> decide +kernel

end Comp

/-! ## Destinations and jumps -/

namespace Dest

def ofLetters (letters : Text) : Dest :=
  ⟨letters.contains 0x41, letters.contains 0x44, letters.contains 0x4D⟩

theorem add?_ofLetters {letters : Text} {b : UInt8} (hb : b = 0x41 ∨ b = 0x44 ∨ b = 0x4D)
    (hfresh : b ∉ letters) : (ofLetters letters).add? b = some (ofLetters (letters ++ [b])) := by
  rcases hb with rfl | rfl | rfl <;> simp [add?, ofLetters, hfresh]

/-- Letters that name different cells name the set of them, whatever their order. -/
theorem ofText?_letters {letters : Text}
    (hletters : ∀ b ∈ letters, b = 0x41 ∨ b = 0x44 ∨ b = 0x4D) (hnodup : letters.Nodup) :
    ofText? letters = some (ofLetters letters) := by
  induction letters using List.reverseRecOn with
  | nil => rfl
  | append_singleton letters b ih =>
      obtain ⟨hnodup, -, hdisjoint⟩ := List.nodup_append.mp hnodup
      have hfresh : b ∉ letters := fun hm => hdisjoint b hm b (List.mem_singleton_self b) rfl
      have hbefore := ih (fun c hc => hletters c (List.mem_append_left _ hc)) hnodup
      have hadd := add?_ofLetters (hletters b (by simp)) hfresh
      rw [ofText?] at hbefore ⊢
      rw [List.foldlM_append, hbefore]
      simpa using hadd

end Dest

namespace Jump

/-- The condition for a jump, on the result as a signed number. -/
def condition (v : Int) : Jump → Bool
  | .never => false
  | .jgt => 0 < v
  | .jeq => v = 0
  | .jge => 0 ≤ v
  | .jlt => v < 0
  | .jne => v ≠ 0
  | .jle => v ≤ 0
  | .jmp => true

theorem holds_eq_condition (out : Word) (j : Jump) : j.holds out = j.condition out.toInt := by
  have hsign : out.msb = decide (out.toInt < 0) := BitVec.msb_eq_toInt
  have hzero : (out == 0) = decide (out.toInt = 0) := by
    rw [Bool.eq_iff_iff, beq_iff_eq, decide_eq_true_iff, ← BitVec.toInt_inj]
    rfl
  cases j <;> simp only [holds, condition, bne, hsign, hzero] <;> grind

end Jump

/-! ## Lines -/

/-- A computing instruction as it is written: a destination with its sign if there is one, and a
jump if there is one. -/
def computeLine (letters comp : Text) (jump : Jump) : Text :=
  (if letters.isEmpty then [] else letters ++ [0x3D]) ++ comp ++ jump.clause

section

variable {letters comp : Text} {c : Comp}
  (hletters : ∀ b ∈ letters, b = 0x41 ∨ b = 0x44 ∨ b = 0x4D) (hcomp : comp ∈ c.spellings)
include hletters hcomp

theorem isFieldByte_computeLine (jump : Jump) :
    ∀ b ∈ computeLine letters comp jump, isFieldByte b = true := by
  have hletter : ∀ b ∈ letters, isFieldByte b = true := by
    intro b hb
    rcases hletters b hb with rfl | rfl | rfl <;> decide
  have hjump := List.all_eq_true.mp (jump_clause_facts jump).1
  intro b hb
  rcases List.mem_append.mp hb with hb | hb
  · rcases List.mem_append.mp hb with hb | hb
    · split at hb
      · cases hb
      · rcases List.mem_append.mp hb with hb | hb
        · exact hletter b hb
        · rw [List.mem_singleton.mp hb]
          decide
    · exact (c.spelling_facts comp hcomp).2.1 b hb
  · exact hjump b hb

theorem parseStatement_computeLine (jump : Jump) (n : Nat) :
    parseStatement (computeLine letters comp jump) n =
      .ok (some (.compute letters comp jump.text)) := by
  have hbytes := isFieldByte_computeLine hletters hcomp jump
  obtain ⟨hne, -, hcompEq, hcompSemi⟩ := c.spelling_facts comp hcomp
  obtain ⟨-, hjumpEq, hjump⟩ := jump_clause_facts jump
  have htrim : (computeLine letters comp jump).trim = computeLine letters comp jump :=
    Text.trim_of_visible fun b hb => (isFieldByte_spec (hbytes b hb)).1
  apply parseStatement_fields
  · exact fun hm => (isFieldByte_spec (hbytes _ hm)).2.1 rfl
  · rwa [htrim]
  · rw [htrim]
    refine splitFields_append ?_ hcompEq hcompSemi hjumpEq ?_ hjump
    · intro hm
      rcases hletters _ hm with h | h | h <;> cases h
    · cases letters with
      | nil => exact Or.inl ⟨rfl, rfl⟩
      | cons b rest => exact Or.inr rfl
  · exact hne

end

theorem computeWord_letters {letters comp : Text} {c : Comp}
    (hletters : ∀ b ∈ letters, b = 0x41 ∨ b = 0x44 ∨ b = 0x4D) (hnodup : letters.Nodup)
    (hcomp : comp ∈ c.spellings) (jump : Jump) (n : Nat) :
    computeWord letters comp jump.text n =
      .ok (encodeCompute c.code (Dest.ofLetters letters).code jump.code) := by
  rw [computeWord, c.ofText?_spelling comp hcomp, Dest.ofText?_letters hletters hnodup,
    Jump.ofText?_text]

/-- A text that is a single line has the statement of that line. -/
theorem statements_of_line {line : Text} (hfeed : Text.lineFeed ∉ line) :
    statements line = (parseStatement line 1).map fun s => (s.map (1, ·)).toList := by
  have hsplit : line.splitOn Text.lineFeed = [line] := by
    have hline : ∀ other ∈ [line], Text.lineFeed ∉ other := by simpa using hfeed
    simpa [Text.joinWith] using Text.splitOn_joinWith hline (by simp)
  rw [statements, hsplit, parseStatements]
  rcases parseStatement line 1 with e | (_ | s) <;> rfl

/-- A computing instruction on a single line changes no binding. -/
theorem assemble_of_compute {line dest comp jump : Text} (hfeed : Text.lineFeed ∉ line)
    (hline : parseStatement line 1 = .ok (some (.compute dest comp jump))) (a : Assembler) :
    a.assemble line = (a, (computeWord dest comp jump 1).map fun w => ⟨#[w], #[1]⟩) := by
  have hstatements : statements line = .ok [(1, .compute dest comp jump)] := by
    rw [statements_of_line hfeed, hline]
    rfl
  have hlabels : Assembler.bindLabels a.symbols 0 [(1, .compute dest comp jump)] =
      (a.symbols, none) := rfl
  rw [Assembler.assemble_of_none hstatements (by rw [hlabels]), hlabels, Assembler.makeWords]
  cases computeWord dest comp jump 1 with
  | error e => rfl
  | ok w => rfl

theorem assemble_computeLine {letters comp : Text} {c : Comp}
    (hletters : ∀ b ∈ letters, b = 0x41 ∨ b = 0x44 ∨ b = 0x4D) (hnodup : letters.Nodup)
    (hcomp : comp ∈ c.spellings) (jump : Jump) (a : Assembler) :
    a.assemble (computeLine letters comp jump) =
      (a, .ok ⟨#[encodeCompute c.code (Dest.ofLetters letters).code jump.code], #[1]⟩) := by
  have hfeed : Text.lineFeed ∉ computeLine letters comp jump := by
    intro hm
    have hbyte := isFieldByte_computeLine hletters hcomp jump _ hm
    exact absurd hbyte (by decide)
  rw [assemble_of_compute hfeed (parseStatement_computeLine hletters hcomp jump 1),
    computeWord_letters hletters hnodup hcomp]
  rfl

/-! ## Steps -/

/-- What a step does that computes `v`: the named cells receive it, the memory cell being the one
that `A` addressed before, and the program goes on where the jump says. -/
structure Performs (letters : Text) (v : Word) (jump : Jump) (c c' : Cpu) : Prop where
  a : c'.a = if letters.contains 0x41 then v else c.a
  d : c'.d = if letters.contains 0x44 then v else c.d
  ram : ∀ i < ramCells, c'.ram.peek i =
    if letters.contains 0x4D ∧ i = c.a.toNat % ramCells then v else c.ram.peek i
  pc : c'.pc = if jump.condition v.toInt then c.a else c.pc + 1
  rom : c'.rom = c.rom

theorem performs_step {c : Cpu} {comp : Comp} {letters : Text} {jump : Jump}
    (hrun : c.halted = false) (hw : c.rom[c.pc.toNat]? =
      some (encodeCompute comp.code (Dest.ofLetters letters).code jump.code)) :
    Performs letters (comp.value c.core) jump c c.step := by
  obtain ⟨hcore, hpc, hrom, -⟩ := Cpu.step_compute hrun hw
  have hram : c.step.ram = (c.core.store (Dest.ofLetters letters) (comp.value c.core)).ram :=
    congrArg Core.ram hcore
  refine ⟨congrArg Core.a hcore, congrArg Core.d hcore, ?_, ?_, hrom⟩
  · intro i hi
    rw [hram, Core.store]
    cases hm : letters.contains 0x4D with
    | false =>
        simp only [Dest.ofLetters, hm, Bool.false_eq_true, if_false, false_and]
        rfl
    | true =>
        simp only [Dest.ofLetters, hm, if_true, true_and, Ram.write_eq_poke]
        exact Ram.peek_poke _ _ (Nat.mod_lt _ (by decide)) hi
  · rw [hpc, Jump.holds_eq_condition]

/-- **A written computation does what it says.** -/
theorem computes_as_spelled (letters comp : Text)
    (hletters : ∀ b ∈ letters, b = 0x41 ∨ b = 0x44 ∨ b = 0x4D) (hnodup : letters.Nodup)
    (hcomp : comp ∈ Comp.all.flatMap Comp.spellings) (jump : Jump) :
    ∃ w : Word,
      (∀ a : Assembler, a.assemble (computeLine letters comp jump) = (a, .ok ⟨#[w], #[1]⟩)) ∧
      (∀ (code : Text) (a : Assembler) (p : Program) (i n : Nat),
        Assembler.new.assemble code = (a, .ok p) →
        (instructionLines code)[i]? = some (n, .compute letters comp jump.text) →
          p.words[i]? = some w) ∧
      ∀ c : Cpu, c.halted = false → c.rom[c.pc.toNat]? = some w →
        ∃ v, expressionValue? c.core comp = some v ∧ Performs letters v jump c c.step := by
  obtain ⟨c, -, hcomp⟩ := List.mem_flatMap.mp hcomp
  refine ⟨encodeCompute c.code (Dest.ofLetters letters).code jump.code,
    assemble_computeLine hletters hnodup hcomp jump, ?_, ?_⟩
  · intro code a p i n haccepted hi
    obtain ⟨-, w, hword, hw⟩ := word_of_instructionLine haccepted hi
    rw [Statement.word?, computeWord_letters hletters hnodup hcomp] at hw
    cases hw
    exact hword
  · intro cpu hrun hw
    exact ⟨c.value cpu.core, Comp.expressionValue?_spelling cpu.core hcomp,
      performs_step hrun hw⟩

/-- A processor at a word, with an address that has its top bit set. -/
def atAddend (w : Word) : Cpu :=
  { Cpu.load #[w] with a := 0x8003, d := 5, ram := Ram.zero.poke 3 (-6) }

theorem computes_addend :
    ∃ w, Assembler.new.assemble "DMA=M+D;JLE" = (Assembler.new, .ok ⟨#[w], #[1]⟩) ∧
      (atAddend w).step.a = -1 ∧ (atAddend w).step.d = -1 ∧
      (atAddend w).step.ram.peek 3 = -1 ∧ (atAddend w).step.pc = 0x8003 := by
  obtain ⟨w, hword, -, hstep⟩ := computes_as_spelled "DMA" "M+D" (by decide +kernel)
    (by decide) (by decide +kernel) .jle
  obtain ⟨v, hv, hperforms⟩ := hstep (atAddend w) rfl rfl
  have hsum : ∀ k : Core, expressionValue? k ("M+D" : Text) =
      some (k.ram.peek (k.a.toNat % ramCells) + k.d) := fun k => rfl
  have haddress : (0x8003 : Word).toNat % ramCells = 3 := by decide
  have hpeek : (atAddend w).core.ram.peek 3 = -6 := Ram.peek_poke_self _ _ _
  rw [hsum, show (atAddend w).core.a = 0x8003 from rfl, haddress, hpeek] at hv
  obtain rfl : v = -1 := (Option.some.inj hv).symm
  refine ⟨w, hword Assembler.new, hperforms.a, hperforms.d, ?_, hperforms.pc⟩
  rw [hperforms.ram 3 (by decide)]
  exact if_pos ⟨rfl, haddress.symm⟩

end HackStack.Assembly
