import HackStack.Proofs.Simulation.Execute
import Mathlib.Order.Monotone.Basic

/-!
# Whole runs

The start-up code sets up the stack and calls the entry function, and from there on the processor
follows the stack machine command by command. `WellFormed.simulates` puts the lowering of a program,
its assembly and its execution together: the text that is generated for a well-formed program can be
assembled, and a processor that runs the result comes, in order, to represent every state that the
stack machine goes through. There is no bound on the length of a run or on the depth of its calls
other than the faults of the stack machine.
-/

namespace HackStack.Lowering

open HackStack.Assembly
open HackStack.Machine
open HackStack.Vm

namespace Target

variable {t : Target} {entry : Text}

/-! ## The start -/

def startRam : Ram := Ram.zero.poke 0 (BitVec.ofNat 16 stackBegin)

theorem peek_startRam {m : Nat} (hpos : 0 < m) (hm : m < ramCells) : startRam.peek m = 0 := by
  rw [startRam, Ram.peek_poke_of_ne _ _ (by decide) hm (by omega), Ram.peek_zero]

theorem holds_startRam {base n : Nat} (hpos : 0 < base) (hlt : base + n ≤ ramCells) :
    startRam.Holds base (List.replicate n 0) := by
  intro k v hk
  rw [List.getElem?_replicate] at hk
  split at hk
  · cases hk
    exact peek_startRam (by omega) (by omega)
  · cases hk

theorem holdsStack_startRam : HoldsStack startRam [0, 0, 0, 0] [] :=
  ⟨Ram.peek_poke_self _ _ _, holds_startRam (n := 4) (by decide) (by decide), Ram.Holds.nil _ _,
    rfl, by decide⟩

theorem globals_startRam (hload : t.Loaded entry) :
    t.Globals startRam (Vector.replicate 8 0) (fun _ _ => 0) fun _ => 0 := by
  have hmap := memory_map
  refine ⟨?_, ?_, ?_⟩
  · rw [Vector.toList_replicate]
    exact holds_startRam (by decide) (by decide)
  · intro p hp
    obtain ⟨-, hlow, hhigh⟩ := hload.statics p hp
    exact peek_startRam (by omega) (by omega)
  · intro m hlow hm
    exact peek_startRam (by omega) (by omega)

/-- The start-up code calls the entry function. -/
theorem represents_start (hload : t.Loaded entry) {s : State}
    (hstart : State.start t.program entry = some s) :
    ∃ n, t.Represents (Cpu.step^[n] (Cpu.load t.rom)) s := by
  obtain ⟨hinit, hcall⟩ := Installed.append_iff.mp hload.start
  have hzero : At t.rom 0 ⟨0, 0, Ram.zero⟩ (Cpu.load t.rom) := ⟨rfl, rfl, rfl, rfl⟩
  have hat := hzero.straight hinit (by decide)
  have hexec : (execAll t.symbols startBlock ⟨0, 0, Ram.zero⟩).ram = startRam := by
    simp only [startBlock, execAll_cons, execAll_nil, Instruction.exec_symbol hload.registers.sp]
    rfl
  have hback : t.address none = 4 + 49 := addressOf_of_lookup (by decide) hload.back
  obtain ⟨ram, ⟨n, -, harrived⟩, hrel⟩ := continues_enter hload hat hcall hback hload.back rfl rfl
    (by rw [hexec]; exact holdsStack_startRam) (by rw [hexec]; exact globals_startRam hload)
    (List.forall_mem_nil _) hstart
  rw [← Function.iterate_add_apply] at harrived
  exact ⟨_, represents_of_arrived harrived hrel⟩

end Target

/-! ## The run -/

/-- If every stage is followed by the next at a later time, there are times for all of them, in
order. -/
theorem exists_monotone_times {P : Nat → Nat → Prop} (hfirst : ∃ k, P 0 k)
    (hnext : ∀ n k, P n k → ∃ l, k ≤ l ∧ P (n + 1) l) :
    ∃ time : Nat → Nat, Monotone time ∧ ∀ n, P n (time n) := by
  obtain ⟨first, hfirst⟩ := hfirst
  choose next hle hnext using hnext
  let times : ∀ n, { k // P n k } := fun n =>
    Nat.rec ⟨first, hfirst⟩ (fun m k => ⟨next m k.1 k.2, hnext m k.1 k.2⟩) n
  refine ⟨fun n => (times n).1, monotone_nat_of_le_succ fun n => ?_, fun n => (times n).2⟩
  exact hle n (times n).1 (times n).2

/-- The states of a run are represented one after the other. -/
theorem Target.Loaded.represents_after {t : Target} {entry : Text} (hload : t.Loaded entry) :
    ∃ time : Nat → Nat, Monotone time ∧ ∀ n s, State.after t.program entry n = some s →
      t.Represents (Cpu.step^[time n] (Cpu.load t.rom)) s := by
  refine exists_monotone_times (P := fun n k => ∀ s, State.after t.program entry n = some s →
    t.Represents (Cpu.step^[k] (Cpu.load t.rom)) s) ?_ ?_
  · cases hstart : State.start t.program entry with
    | none => exact ⟨0, fun s hs => nomatch hstart.symm.trans hs⟩
    | some s =>
        obtain ⟨n, hrepresents⟩ := Target.represents_start hload hstart
        refine ⟨n, fun s' hs' => ?_⟩
        cases hstart.symm.trans hs'
        exact hrepresents
  · intro n k hk
    cases hafter : State.after t.program entry (n + 1) with
    | none =>
        -- the machine has faulted, and there is nothing more to represent
        exact ⟨k, Nat.le_refl k, fun s hs => nomatch hs⟩
    | some s' =>
        obtain ⟨s, hs, hstep⟩ := Option.bind_eq_some_iff.mp hafter
        obtain ⟨l, hrepresents⟩ := (hk s hs).step hload hstep
        rw [← Function.iterate_add_apply] at hrepresents
        refine ⟨l + k, Nat.le_add_left k l, fun s'' hs'' => ?_⟩
        cases hs''
        exact hrepresents

/-- **Whole-program simulation.** The text generated for a well-formed program with its start-up
code can be assembled. A processor that is loaded with the result comes, in order, to represent every
state that the stack machine goes through before it faults. -/
theorem WellFormed.simulates {options : Options} {units : List (Text × List Command)}
    (hb : options.bootstrap = true) (h : WellFormed options units) :
    ∃ a p, Assembler.new.assemble (lower options units).text = (a, .ok p) ∧
      ∃ time : Nat → Nat, Monotone time ∧
        ∀ n s, State.after (routines units) options.entryName n = some s →
          (Target.mk (routines units) (staticPairs units) a.symbols p.words).Represents
            (Cpu.step^[time n] (Cpu.load p.words)) s := by
  obtain ⟨a, p, hassemble, hload⟩ := h.loaded hb
  exact ⟨a, p, hassemble, hload.represents_after⟩

/-- A recursive sum, kept on the heap by the entry function and in a static variable by another. Two
functions have a label of the same name, and one has no arguments. -/
def recursiveSum : List (Text × List Command) :=
  [("Main", [.function "Main.sum" 1, .push .argument 0, .ifGoto "more", .push .constant 0, .ret,
      .label "more", .push .argument 0, .push .argument 0, .push .constant 1, .arithmetic .sub,
      .call "Main.sum" 1, .arithmetic .add, .pop .local 0, .push .local 0, .ret]),
    ("Sys", [.function "Sys.init" 0, .push .constant 3000, .pop .pointer 1, .push .constant 3,
      .call "Main.sum" 1, .pop .that 5, .call "Sys.more" 0, .ret,
      .function "Sys.more" 0, .push .that 5, .pop .static 0, .goto "more", .label "more",
      .push .static 0, .ret])]

theorem recursiveSum_accepted : ∀ u ∈ recursiveSum, ∀ c ∈ u.2, c.Accepted := by
  refine List.forall_mem_cons.mpr ⟨?_, List.forall_mem_singleton.mpr ?_⟩
  · exact accepted_of_lines ["function Main.sum 1", "push argument 0", "if-goto more",
      "push constant 0", "return", "label more", "push argument 0", "push argument 0",
      "push constant 1", "sub", "call Main.sum 1", "add", "pop local 0", "push local 0",
      "return"] rfl
  · exact accepted_of_lines ["function Sys.init 0", "push constant 3000", "pop pointer 1",
      "push constant 3", "call Main.sum 1", "pop that 5", "call Sys.more 0", "return",
      "function Sys.more 0", "push that 5", "pop static 0", "goto more", "label more",
      "push static 0", "return"] rfl

theorem recursiveSum_wellFormed : WellFormed ⟨true, "", false⟩ recursiveSum where
  accepted := recursiveSum_accepted
  unitNames := by decide +kernel
  heads := by decide +kernel
  names := by decide +kernel
  free := by decide +kernel
  labels := by decide +kernel
  targets := by simp [recursiveSum, routines, splitRoutines]
  callees := by
    have hcalls : ∀ r ∈ routines recursiveSum, ∀ c ∈ r.body,
        (match c with
        | .call name _ => decide (name ∈ (routines recursiveSum).map Routine.name)
        | _ => true) = true := by decide +kernel
    intro r hr name args hc
    exact of_decide_eq_true (hcalls r hr _ hc)
  entry := by decide +kernel
  statics := by decide +kernel
  fits := by decide +kernel

theorem WellFormed.simulates_recursiveSum :
    ∃ a p n, Assembler.new.assemble (lower ⟨true, "", false⟩ recursiveSum).text = (a, .ok p) ∧
      (Cpu.step^[n] (Cpu.load p.words)).ram.peek stackBegin = 6 := by
  obtain ⟨a, p, hassemble, time, -, hrun⟩ := WellFormed.simulates rfl recursiveSum_wellFormed
  have hresult : (State.after (routines recursiveSum) (Options.entryName ⟨true, "", false⟩) 53).map
      (fun s => (s.frames, s.results)) = some ([], [6]) := by decide +kernel
  obtain ⟨s, hs, heq⟩ := Option.map_eq_some_iff.mp hresult
  obtain ⟨hframes, hresults⟩ := Prod.mk.inj heq
  have hcells := (hrun 53 s hs).related.stack.cells
  rw [hframes, hresults] at hcells
  exact ⟨a, p, time 53, hassemble, hcells 0 6 rfl⟩

end HackStack.Lowering
