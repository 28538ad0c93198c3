import HackStack.Proofs.Machine.Straight

/-!
# Jumps and the end of a run

An unconditional jump to the instruction that loads its target is a loop of two instructions, and
the processor halts there instead of running through it again. Its memory and its program address
are then those that it would have at the end of every round: `Cpu.Idle`. So it makes no difference
to what a program computes whether the processor has halted, and `Arrived`, which says where a run
has come to, leaves it open.
-/

namespace HackStack.Machine

open HackStack.Assembly

namespace Cpu

theorem step_of_halted {c : Cpu} (h : c.halted = true) : c.step = c := by
  rw [step, if_pos h]

theorem iterate_step_of_halted {c : Cpu} (h : c.halted = true) (n : Nat) : step^[n] c = c :=
  Function.iterate_fixed (step_of_halted h) n

def resume (c : Cpu) : Cpu := { c with halted := false }

/-- If the processor ran again it would get nowhere. The step in the middle of the loop is left
out. -/
def Idle (c : Cpu) : Prop :=
  ∀ n, n ≠ 1 → (step^[n] c.resume).pc = c.pc ∧ (step^[n] c.resume).ram = c.ram

end Cpu

/-- A processor that has come to a program address, with given memory. -/
structure Arrived (rom : Array Word) (pc : Nat) (ram : Ram) (c : Cpu) : Prop where
  rom : c.rom = rom
  pc : c.pc = BitVec.ofNat 16 pc
  ram : c.ram = ram
  idle : c.halted = true → c.Idle

/-- A processor comes to a program address in some number of steps, but not in one. -/
def Reaches (rom : Array Word) (pc : Nat) (ram : Ram) (c : Cpu) : Prop :=
  ∃ n, n ≠ 1 ∧ Arrived rom pc ram (Cpu.step^[n] c)

theorem At.arrived {rom : Array Word} {p : Nat} {k : Core} {c : Cpu} (h : At rom p k c) :
    Arrived rom p k.ram c := by
  refine ⟨h.rom, h.pc, congrArg Core.ram h.core, ?_⟩
  intro hhalted
  rw [h.running] at hhalted
  cases hhalted

theorem Arrived.at {rom : Array Word} {p : Nat} {ram : Ram} {c : Cpu} (h : Arrived rom p ram c)
    (hrun : c.halted = false) : At rom p ⟨c.a, c.d, ram⟩ c :=
  ⟨h.rom, h.pc, by rw [← h.ram]; rfl, hrun⟩

/-- A halted processor is where it would be if it ran again. -/
theorem Arrived.resume {rom : Array Word} {p : Nat} {ram : Ram} {c : Cpu}
    (h : Arrived rom p ram c) : At rom p ⟨c.a, c.d, ram⟩ c.resume :=
  ⟨h.rom, h.pc, by rw [← h.ram]; rfl, rfl⟩

/-- What a processor would reach if it ran again has been reached when it halted. -/
theorem Arrived.of_resume {rom : Array Word} {p q : Nat} {ram ram' : Ram} {c : Cpu}
    (h : Arrived rom p ram c) (hhalted : c.halted = true) (hnext : Reaches rom q ram' c.resume) :
    Arrived rom q ram' c := by
  obtain ⟨n, hn, harrived⟩ := hnext
  obtain ⟨hpc, hram⟩ := h.idle hhalted n hn
  exact ⟨h.rom, hpc.symm.trans harrived.pc, hram.symm.trans harrived.ram, h.idle⟩

section

variable {symbols : Bindings} {rom : Array Word} {p q : Nat} {k : Core} {c : Cpu} {target : Text}
  (htarget : symbols[target]? = some (BitVec.ofNat 16 q))
  (hcode : Installed symbols rom p [.symbol target, .jump])
include htarget hcode

/-- The two instructions that jump to a symbol. -/
theorem At.load_jump (h : At rom p k c) :
    (Cpu.step^[2] c).rom = rom ∧ (Cpu.step^[2] c).pc = BitVec.ofNat 16 q ∧
      (Cpu.step^[2] c).ram = k.ram ∧
      (Cpu.step^[2] c).halted = (BitVec.ofNat 16 q == BitVec.ofNat 16 p) := by
  obtain ⟨hload, hjump⟩ := Installed.cons_iff.mp hcode
  have hloaded := h.exec hload rfl
  rw [Instruction.exec_symbol htarget] at hloaded
  obtain ⟨hrom, hcore, hpc, hhalted⟩ := hloaded.jump hjump
  refine ⟨hrom, hpc, congrArg Core.ram hcore, hhalted.trans ?_⟩
  have hsucc : BitVec.ofNat 16 (p + 1) = BitVec.ofNat 16 p + 1 := BitVec.ofNat_add p 1
  have hcancel : (BitVec.ofNat 16 q + 1 = BitVec.ofNat 16 p + 1) ↔
      BitVec.ofNat 16 q = BitVec.ofNat 16 p := BitVec.add_left_inj _
  rw [hsucc]
  show (true && (BitVec.ofNat 16 q + 1 == BitVec.ofNat 16 p + 1)) = _
  rw [Bool.true_and, Bool.eq_iff_iff, beq_iff_eq, beq_iff_eq, hcancel]

/-- A processor at a jump to itself is idle. -/
theorem idle_of_load_jump (hrom : c.rom = rom) (hpc : c.pc = BitVec.ofNat 16 p)
    (hself : BitVec.ofNat 16 q = BitVec.ofNat 16 p) : c.Idle := by
  have hat : At rom p c.core c.resume := ⟨hrom, hpc, rfl, rfl⟩
  obtain ⟨-, hpc', hram', hhalted'⟩ := hat.load_jump htarget hcode
  rw [hself, beq_self_eq_true] at hhalted'
  intro n hn
  match n with
  | 0 => exact ⟨rfl, rfl⟩
  | 1 => exact absurd rfl hn
  | n + 2 =>
      rw [Function.iterate_add_apply, Cpu.iterate_step_of_halted hhalted']
      exact ⟨hpc'.trans (hself.trans hpc.symm), hram'⟩

theorem At.arrived_load_jump (h : At rom p k c) : Arrived rom q k.ram (Cpu.step^[2] c) := by
  obtain ⟨hrom, hpc, hram, hhalted⟩ := h.load_jump htarget hcode
  refine ⟨hrom, hpc, hram, ?_⟩
  intro hstop
  have hself := beq_iff_eq.mp (hhalted.symm.trans hstop)
  exact idle_of_load_jump htarget hcode hrom (hpc.trans hself) hself

end

end HackStack.Machine
