import HackStack.Proofs.Machine.Jump

/-!
# Traces

What a processor does on its way, and not only where it ends: the memory cells that it writes, in
order (`Cpu.writes`), and whether it stays in a part of the program (`Stays`) and leaves it at its
end (`Passes`). The writes account for all that happens to memory (`Cpu.ram_iterate_step`). For
straight-line code they can be read off the instructions (`At.passes_straight`).
-/

namespace HackStack.Machine

def Ram.pokeAll (ram : Ram) (writes : List (Nat × Word)) : Ram :=
  writes.foldl (fun ram w => ram.poke w.1 w.2) ram

theorem Ram.pokeAll_append (ram : Ram) (first second : List (Nat × Word)) :
    ram.pokeAll (first ++ second) = (ram.pokeAll first).pokeAll second :=
  List.foldl_append

namespace Cpu

/-- The cell that the next step writes, and the word that it puts there. -/
def write? (c : Cpu) : Option (Nat × Word) :=
  if c.halted then none
  else
    match c.rom[c.pc.toNat]? with
    | none => none
    | some instruction =>
      if instruction.getLsbD 15 && instruction.getLsbD 3 then
        some ((Ram.cell c.a).1, c.step.ram.read c.a)
      else none

/-- The cells that the next steps write, in order, and the words that they put there. -/
def writes (c : Cpu) : Nat → List (Nat × Word)
  | 0 => []
  | n + 1 => c.write?.toList ++ c.step.writes n

theorem writes_add (c : Cpu) (n m : Nat) :
    c.writes (n + m) = c.writes n ++ (step^[n] c).writes m := by
  induction n generalizing c with
  | zero => rw [Nat.zero_add, writes, List.nil_append, Function.iterate_zero_apply]
  | succ n ih =>
      rw [Nat.add_right_comm, writes, ih, writes, List.append_assoc, Function.iterate_succ_apply]

/-- A step changes memory by its write alone. -/
theorem ram_step (c : Cpu) : c.step.ram = c.ram.pokeAll c.write?.toList := by
  by_cases hhalted : c.halted = true
  · simp [write?, step, hhalted, Ram.pokeAll]
  · cases hw : c.rom[c.pc.toNat]? with
    | none => simp [write?, step, hhalted, hw, Ram.pokeAll]
    | some w =>
        have hstep : c.step = if w.getLsbD 15 then ({ c with steps := c.steps + 1 } : Cpu).compute w
            else { c with steps := c.steps + 1, a := w, pc := c.pc + 1 } := by
          simp only [step, hhalted, hw, Bool.false_eq_true, if_false]
        simp only [write?, hhalted, hw, Bool.false_eq_true, if_false, Bool.and_eq_true]
        by_cases hstore : w.getLsbD 15 = true ∧ w.getLsbD 3 = true
        · -- what the step leaves at the address is what it has written there
          have hwrite : ∃ out, c.step.ram = c.ram.write c.a out := by
            rw [hstep, if_pos hstore.1, compute]
            simp only [hstore.2, if_true]
            exact ⟨_, rfl⟩
          obtain ⟨out, hout⟩ := hwrite
          rw [if_pos hstore, hout, Ram.read_write_self, Ram.write_eq_poke]
          rfl
        · rw [if_neg hstore, hstep]
          by_cases hcompute : w.getLsbD 15 = true
          · have hkeep : ¬w.getLsbD 3 = true := fun h => hstore ⟨hcompute, h⟩
            rw [if_pos hcompute, compute]
            exact if_neg hkeep
          · rw [if_neg hcompute]
            rfl

/-- **The writes account for all that happens to memory.** -/
theorem ram_iterate_step (c : Cpu) (n : Nat) :
    (step^[n] c).ram = c.ram.pokeAll (c.writes n) := by
  induction n generalizing c with
  | zero => rfl
  | succ n ih => rw [Function.iterate_succ_apply, ih, ram_step, writes, Ram.pokeAll_append]

end Cpu

end HackStack.Machine

namespace HackStack.Assembly

open HackStack.Machine

def Instruction.write? (k : Core) : Instruction → Option (Nat × Word)
  | load _ => none
  | compute dest comp _ => if dest.m then some ((Ram.cell k.a).1, comp.value k) else none

namespace Instruction

variable {k : Core}

@[simp] theorem write?_symbol {name : Text} : (symbol name).write? k = none := rfl

@[simp] theorem write?_number {n : Int} : (number n).write? k = none := rfl

@[simp] theorem write?_setA {c : Comp} : (setA c).write? k = none := rfl

@[simp] theorem write?_setD {c : Comp} : (setD c).write? k = none := rfl

@[simp] theorem write?_setM {c : Comp} :
    (setM c).write? k = some ((Ram.cell k.a).1, c.value k) := rfl

@[simp] theorem write?_setAM {c : Comp} :
    (setAM c).write? k = some ((Ram.cell k.a).1, c.value k) := rfl

end Instruction

def writesAll (symbols : Bindings) : List Instruction → Core → List (Nat × Word)
  | [], _ => []
  | i :: code, k => (i.write? k).toList ++ writesAll symbols code (i.exec symbols k)

theorem writesAll_append (symbols : Bindings) (first second : List Instruction) (k : Core) :
    writesAll symbols (first ++ second) k =
      writesAll symbols first k ++ writesAll symbols second (execAll symbols first k) := by
  induction first generalizing k with
  | nil => rfl
  | cons i first ih =>
      rw [List.cons_append, writesAll, ih, writesAll, List.append_assoc, execAll_cons]

end HackStack.Assembly

namespace HackStack.Machine

open HackStack.Assembly

/-- For some steps the processor runs and stays between two program addresses, and these are its
writes. -/
structure Stays (first last : Nat) (n : Nat) (log : List (Nat × Word)) (c : Cpu) : Prop where
  inside : ∀ m < n, (Cpu.step^[m] c).halted = false ∧ first ≤ (Cpu.step^[m] c).pc.toNat ∧
    (Cpu.step^[m] c).pc.toNat < last
  writes : c.writes n = log

theorem Stays.add {first last n m : Nat} {ws ws' : List (Nat × Word)} {c : Cpu}
    (h : Stays first last n ws c) (h' : Stays first last m ws' (Cpu.step^[n] c)) :
    Stays first last (n + m) (ws ++ ws') c := by
  refine ⟨?_, by rw [Cpu.writes_add, h.writes, h'.writes]⟩
  intro k hk
  by_cases hkn : k < n
  · exact h.inside k hkn
  · obtain ⟨j, rfl⟩ := Nat.exists_eq_add_of_le (Nat.not_lt.mp hkn)
    rw [Nat.add_comm n j, Function.iterate_add_apply]
    exact h'.inside j (by omega)

theorem Stays.widen {first last first' last' n : Nat} {ws : List (Nat × Word)} {c : Cpu}
    (h : Stays first last n ws c) (hfirst : first' ≤ first) (hlast : last ≤ last') :
    Stays first' last' n ws c := by
  refine ⟨?_, h.writes⟩
  intro m hm
  obtain ⟨hrun, hlow, hhigh⟩ := h.inside m hm
  exact ⟨hrun, hfirst.trans hlow, hhigh.trans_le hlast⟩

/-- In some steps the processor runs through the part of the program between two addresses and
leaves it at its end, and the writes are all that happens to memory. -/
structure Passes (first last : Nat) (n : Nat) (log : List (Nat × Word)) (c : Cpu) : Prop
    extends Stays first last n log c where
  leaves : (Cpu.step^[n] c).pc = BitVec.ofNat 16 last
  running : (Cpu.step^[n] c).halted = false
  rom : (Cpu.step^[n] c).rom = c.rom
  ram : (Cpu.step^[n] c).ram = c.ram.pokeAll log

section

variable {symbols : Bindings} {rom : Array Word} {p : Nat} {k : Core} {c : Cpu}

theorem Stays.passes {first last n : Nat} {ws : List (Nat × Word)} (h : Stays first last n ws c)
    (hstart : At rom p k c) {k' : Core} (hend : At rom last k' (Cpu.step^[n] c)) :
    Passes first last n ws c :=
  ⟨h, hend.pc, hend.running, hend.rom.trans hstart.rom.symm,
    by rw [Cpu.ram_iterate_step, h.writes]⟩

theorem Passes.reaches {first last n : Nat} {ws : List (Nat × Word)} (h : Passes first last n ws c)
    (hstart : At rom p k c) (hn : n ≠ 1) : Reaches rom last (k.ram.pokeAll ws) c := by
  have hram : c.ram = k.ram := congrArg Core.ram hstart.core
  have hend : At rom last (Cpu.step^[n] c).core (Cpu.step^[n] c) :=
    ⟨h.rom.trans hstart.rom, h.leaves, rfl, h.running⟩
  rw [← hram, ← h.ram]
  exact ⟨n, hn, hend.arrived⟩

/-- The first time that the end is reached ends the passage, so its writes are determined. -/
theorem Passes.unique {first last n n' : Nat} {ws ws' : List (Nat × Word)}
    (h : Passes first last n ws c) (hlast : last < 2 ^ 16) (h' : Passes first last n' ws' c) :
    ws = ws' := by
  have hleft : (BitVec.ofNat 16 last).toNat = last := by
    rw [BitVec.toNat_ofNat, Nat.mod_eq_of_lt hlast]
  rcases Nat.lt_trichotomy n n' with hlt | rfl | hlt
  · have hinside := (h'.inside n hlt).2.2
    rw [h.leaves, hleft] at hinside
    omega
  · exact h.writes.symm.trans h'.writes
  · have hinside := (h.inside n' hlt).2.2
    rw [h'.leaves, hleft] at hinside
    omega

/-- The next write is that of the instruction, also if it is a jump. -/
theorem At.write? {i : Instruction} (h : At rom p k c) (hi : Installed symbols rom p [i]) :
    c.write? = i.write? k := by
  obtain ⟨w, hw, hrom⟩ := hi.head
  have hfits : p < programSize := hi.fits
  rw [← h.fetch hfits] at hrom
  have hrun := h.running
  cases i with
  | load o =>
      have hbit : w.getLsbD 15 = false := by
        have hmsb := hi.small o w List.mem_cons_self hw
        rwa [BitVec.msb_eq_getLsbD_last] at hmsb
      simp only [Cpu.write?, hrun, hrom, hbit, Bool.false_and, Bool.false_eq_true, if_false,
        Instruction.write?]
  | compute dest comp jump =>
      cases Option.some.inj hw
      obtain ⟨hcore, -⟩ := Cpu.step_compute hrun hrom
      have hbit : (encodeCompute comp.code dest.code jump.code).getLsbD 3 = dest.m :=
        (encodeCompute_dest _ _ _ (show 0 < 3 by decide)).trans (dest_code_bits dest).2.2
      have ha : c.a = k.a := congrArg Core.a h.core
      have hram : c.step.ram = if dest.m then c.ram.write c.a (comp.value c.core) else c.ram :=
        congrArg Core.ram hcore
      simp only [Cpu.write?, hrun, hrom, encodeCompute_bit_fifteen, hbit, Bool.false_eq_true,
        if_false, Bool.true_and, Instruction.write?]
      by_cases hm : dest.m = true
      · rw [if_pos hm, if_pos hm, hram, if_pos hm, Ram.read_write_self, h.core, ha]
      · rw [if_neg hm, if_neg hm]

/-- One step in a part of the program. -/
theorem At.stays {i : Instruction} {first last : Nat} (h : At rom p k c)
    (hi : Installed symbols rom p [i]) (hfirst : first ≤ p) (hlast : p < last) :
    Stays first last 1 (i.write? k).toList c := by
  have hsize : programSize = 0x8000 := rfl
  have hfits : p < programSize := hi.fits
  refine ⟨?_, by rw [Cpu.writes, h.write? hi, Cpu.writes, List.append_nil]⟩
  intro m hm
  obtain rfl := Nat.lt_one_iff.mp hm
  have hpc : c.pc.toNat = p := by
    rw [h.pc, BitVec.toNat_ofNat, Nat.mod_eq_of_lt (by omega)]
  exact ⟨h.running, hfirst.trans hpc.ge, hpc.trans_lt hlast⟩

/-- **The writes of straight-line code.** -/
theorem At.stays_straight {code : List Instruction} {first last : Nat} (h : At rom p k c)
    (hcode : Installed symbols rom p code) (hstraight : ∀ i ∈ code, i.isStraight = true)
    (hfirst : first ≤ p) (hlast : p + code.length ≤ last) :
    Stays first last code.length (writesAll symbols code k) c := by
  induction code generalizing p k c with
  | nil => exact ⟨fun m hm => absurd hm (Nat.not_lt_zero m), rfl⟩
  | cons i code ih =>
      obtain ⟨hi, hrest⟩ := Installed.cons_iff.mp hcode
      obtain ⟨hstraightI, hstraightRest⟩ := List.forall_mem_cons.mp hstraight
      rw [List.length_cons] at hlast
      have hone := h.stays hi hfirst (show p < last by omega)
      have hothers := ih (h.exec hi hstraightI) hrest hstraightRest (by omega) (by omega)
      rw [List.length_cons, Nat.add_comm code.length 1]
      exact hone.add hothers

theorem At.passes_straight {code : List Instruction} (h : At rom p k c)
    (hcode : Installed symbols rom p code) (hstraight : ∀ i ∈ code, i.isStraight = true) :
    Passes p (p + code.length) code.length (writesAll symbols code k) c :=
  (h.stays_straight hcode hstraight (Nat.le_refl _) (Nat.le_refl _)).passes h
    (h.straight hcode hstraight)

end

end HackStack.Machine
