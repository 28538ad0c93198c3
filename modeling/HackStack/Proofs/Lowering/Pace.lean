import HackStack.Proofs.Lowering.Written

/-!
# Loads and variables

In generated code every load has a computation behind it, so at most half of the instructions are
loads (`Generator.paced_run`). A program that fits into the program memory therefore has too few
variables to fill the data memory, and the address of each can be loaded
(`Generator.loads_variable`).
-/

namespace HackStack.Assembly

def Instruction.isLoad : Instruction → Bool
  | load _ => true
  | compute _ _ _ => false

/-- At most half of the instructions are loads. -/
def Paced (code : List Instruction) : Prop := 2 * code.countP Instruction.isLoad ≤ code.length
  deriving Decidable

theorem Paced.append {first second : List Instruction} (h : Paced first) (h' : Paced second) :
    Paced (first ++ second) := by
  unfold Paced at h h' ⊢
  rw [List.countP_append, List.length_append]
  omega

theorem Paced.flatMap {α : Type} {l : List α} {f : α → List Instruction}
    (h : ∀ x ∈ l, Paced (f x)) : Paced (l.flatMap f) := by
  induction l with
  | nil => exact Nat.le_refl 0
  | cons x l ih =>
      obtain ⟨hx, hl⟩ := List.forall_mem_cons.mp h
      exact hx.append (ih hl)

/-- Free operands are loaded, so code that is paced has few of them. -/
theorem Paced.freeOperands_le {lines : List Line} (h : Paced (codeInstructions lines)) :
    2 * (freeOperands lines).length ≤ lines.countP Line.occupiesRom := by
  have hfree : (freeOperands lines).length ≤ (codeInstructions lines).countP Instruction.isLoad :=
    calc (freeOperands lines).length
        ≤ ((loadedSymbols lines).filter _).length := (List.dedup_sublist _).length_le
      _ ≤ (loadedSymbols lines).length := List.length_filter_le _ _
      _ = _ := List.length_filterMap_eq_countP
      _ ≤ (codeInstructions lines).countP Instruction.isLoad := by
        refine List.countP_mono_left fun i _ hi => ?_
        cases i with
        | load o => rfl
        | compute dest comp jump => cases hi
  rw [← length_codeInstructions]
  exact (Nat.mul_le_mul_left 2 hfree).trans h

end HackStack.Assembly

namespace HackStack.Lowering

open HackStack.Assembly
open HackStack.Machine
open HackStack.Vm

/-! ## Blocks -/

theorem paced_pushFromD : Paced pushFromD := by decide

theorem paced_popToD : Paced popToD := by decide

theorem paced_unaryBlock (comp : Comp) : Paced (unaryBlock comp) := show 2 * 1 ≤ 3 by decide

theorem paced_binaryBlock (comp : Comp) : Paced (binaryBlock comp) := show 2 * 2 ≤ 7 by decide

theorem paced_arithmeticBlock (start : Nat) (op : Op) : Paced (arithmeticBlock start op) := by
  have hcomparison : ∀ jump, Paced (comparisonBlock start jump) := fun _ =>
    show 2 * 5 ≤ 16 by decide
  cases op with
  | neg => exact paced_unaryBlock _
  | not => exact paced_unaryBlock _
  | add => exact paced_binaryBlock _
  | sub => exact paced_binaryBlock _
  | and => exact paced_binaryBlock _
  | or => exact paced_binaryBlock _
  | eq => exact hcomparison _
  | gt => exact hcomparison _
  | lt => exact hcomparison _

theorem paced_read (p : Place) : Paced p.read := by
  cases p with
  | immediate value => exact show 2 * 1 ≤ 2 by decide
  | offset base index => exact show 2 * 2 ≤ 5 by decide
  | fixed address => exact show 2 * 1 ≤ 2 by decide

theorem paced_address {p : Place} {code : List Instruction} (h : p.address = .ok code) :
    Paced code := by
  cases p with
  | immediate value => cases h
  | offset base index =>
      cases h
      exact show 2 * 2 ≤ 4 by decide
  | fixed address =>
      cases h
      exact show 2 * 1 ≤ 2 by decide

theorem paced_callCode (back function : Text) (args : Int) :
    Paced (callCode back function args) := by
  have hback : Paced [.symbol back, .setD .a] := show 2 * 1 ≤ 2 by decide
  have hsave : ∀ register, Paced (saveRegister register) := fun register => show 2 * 3 ≤ 7 by decide
  have hsaved := ((((hback.append paced_pushFromD).append (hsave "LCL")).append
    (hsave "ARG")).append (hsave "THIS")).append (hsave "THAT")
  have hargument : Paced [.symbol "SP", .setD .m, .number args, .setD .dMinusA,
      .number frameSize, .setD .dMinusA, .symbol "ARG", .setM .d] := show 2 * 4 ≤ 8 by decide
  have hlocal : Paced [.symbol "SP", .setD .m, .symbol "LCL", .setM .d] := by decide
  have hjump : Paced [.symbol function, .jump] := show 2 * 1 ≤ 2 by decide
  exact ((hsaved.append hargument).append hlocal).append hjump

theorem paced_functionCode (locals : Int) : Paced (functionCode locals) := by
  have hclear : ∀ k, Paced (clearLocal k) := fun k => show 2 * 2 ≤ 5 by decide
  have hskip : Paced (skipLocals locals) := show 2 * 3 ≤ 6 by decide
  refine (Paced.flatMap fun k _ => hclear k).append ?_
  split
  · exact hskip
  · exact Nat.le_refl 0

namespace Generator

/-- A comment and a label are no instructions, and what is left of a block is paced. -/
theorem paced_block {e : Generator} {c : Command} {lines : List Line} (h : e.block c = .ok lines) :
    Paced (codeInstructions lines) := by
  cases c with
  | arithmetic op =>
      cases h
      rw [codeInstructions_instructions]
      exact paced_arithmeticBlock _ op
  | push s i =>
      obtain ⟨p, -, rfl⟩ := block_push h
      rw [codeInstructions_instructions]
      exact (paced_read p).append paced_pushFromD
  | pop s i =>
      obtain ⟨p, address, -, haddress, rfl⟩ := block_pop h
      rw [codeInstructions_instructions]
      have hkeep : Paced [.symbol "R13", .setM .d] := by decide
      have hstore : Paced [.symbol "R13", .setA .m, .setM .d] := by decide
      exact (((paced_address haddress).append hkeep).append paced_popToD).append hstore
  | label name =>
      cases h
      exact Nat.le_refl 0
  | goto name =>
      cases h
      exact show 2 * 1 ≤ 2 by decide
  | ifGoto name =>
      cases h
      exact show 2 * 2 ≤ 6 by decide
  | call name args =>
      cases h
      rw [callBlock, codeInstructions_append, codeInstructions_instructions]
      exact (paced_callCode _ name args).append (Nat.le_refl 0)
  | function name locals =>
      cases h
      have hcode : codeInstructions (functionBlock name locals) = functionCode locals :=
        codeInstructions_instructions _
      rw [hcode]
      exact paced_functionCode locals
  | ret =>
      cases h
      exact show 2 * 21 ≤ 51 by decide

theorem paced_lines (e : Generator) (a : Action) : Paced (codeInstructions (e.lines a)) := by
  rw [lines, codeInstructions_append, codeInstructions_remarkLines, List.nil_append]
  cases hc : a.command? with
  | none =>
      rw [blockLines_of_none hc]
      exact Nat.le_refl 0
  | some c =>
      rw [blockLines_of_command hc]
      cases hblock : e.block c with
      | ok lines => exact paced_block hblock
      | error f => exact Nat.le_refl 0

/-- **At most half of the instructions of a run are loads.** -/
theorem paced_run (options : Options) (actions : List Action) :
    Paced (codeInstructions (run options actions).code.toList) := by
  induction actions using List.reverseRecOn with
  | nil =>
      show Paced (codeInstructions (new options).code.toList)
      cases hb : options.bootstrap with
      | false =>
          rw [new_of_not_bootstrap hb]
          exact Nat.le_refl 0
      | true =>
          have hstart : codeInstructions (startLines options) = startBlock := by
            rw [startLines, codeInstructions_append, codeInstructions_instructions]
            split <;> rfl
          rw [new_of_bootstrap hb, perform_code, codeInstructions_append, code_emit]
          refine Paced.append ?_ (paced_lines _ _)
          rw [codeInstructions_append, hstart]
          exact show Paced startBlock by decide
  | append_singleton actions a ih =>
      rw [run_snoc, perform_code, codeInstructions_append]
      exact ih.append (paced_lines _ a)

/-- **The address of a variable can be loaded.** -/
theorem loads_variable {options : Options} {actions : List Action} {symbols : Bindings}
    {words : List Word} (h : Assembled (run options actions).code.toList symbols words) {t : Text}
    {w : Word} (ht : t ∈ freeOperands (run options actions).code.toList)
    (hw : symbols[t]? = some w) : w.msb = false := by
  have hsize : programSize = 0x8000 := rfl
  have hfits := h.fits
  have hfew := (paced_run options actions).freeOperands_le
  obtain ⟨k, w', -, hw', hk, hlt⟩ := h.free_address ht
  rw [hw] at hw'
  cases hw'
  rw [BitVec.msb_eq_false_iff_two_mul_lt]
  omega

end Generator

end HackStack.Lowering
