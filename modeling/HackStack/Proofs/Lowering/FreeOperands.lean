import Mathlib.Data.List.Dedup
import HackStack.Proofs.Assembly.Variables
import HackStack.Proofs.Lowering.Sources
import HackStack.Proofs.Simulation.Program
import HackStack.Proofs.Vm.RoundTrip

/-!
# Free operands

The operands of code that are neither labels nor predefined symbols are its variables. In code that
the assembler has accepted they fill an interval of addresses from 16 on
(`Assembled.free_interval`). A run of a generator that was accepted, and so the code of any sources,
is code of this kind (`Generator.assembled_run`).
-/

namespace HackStack.Assembly

open HackStack.Machine

/-! ## Operands without a definition -/

def loadedSymbols (lines : List Line) : List Text :=
  (codeInstructions lines).filterMap fun
    | .load (.symbol t) => some t
    | _ => none

/-- The symbols that code loads and that are neither labels nor predefined, each once. -/
def freeOperands (lines : List Line) : List Text :=
  ((loadedSymbols lines).filter fun t =>
    !(codeLabels lines).contains t && !(predefined.map Prod.fst).contains t).dedup

theorem mem_loadedSymbols {lines : List Line} {t : Text} :
    t ∈ loadedSymbols lines ↔ Instruction.symbol t ∈ codeInstructions lines := by
  rw [loadedSymbols, List.mem_filterMap]
  constructor
  · rintro ⟨i, hi, heq⟩
    cases i with
    | load o =>
        cases o with
        | symbol name =>
            cases heq
            exact hi
        | number n => cases heq
    | compute dest comp jump => cases heq
  · intro h
    exact ⟨_, h, rfl⟩

theorem mem_freeOperands {lines : List Line} {t : Text} :
    t ∈ freeOperands lines ↔ Instruction.symbol t ∈ codeInstructions lines ∧
      t ∉ codeLabels lines ∧ t ∉ predefined.map Prod.fst := by
  rw [freeOperands, List.mem_dedup, List.mem_filter, mem_loadedSymbols]
  simp only [Bool.and_eq_true, Bool.not_eq_true', List.contains_eq_mem, decide_eq_false_iff_not]

/-- Code has no more free operands than instructions. -/
theorem length_freeOperands_le (lines : List Line) :
    (freeOperands lines).length ≤ lines.countP Line.occupiesRom := by
  calc (freeOperands lines).length
      ≤ ((loadedSymbols lines).filter _).length := (List.dedup_sublist _).length_le
    _ ≤ (loadedSymbols lines).length := List.length_filter_le _ _
    _ ≤ (codeInstructions lines).length := List.length_filterMap_le _ _
    _ = lines.countP Line.occupiesRom := length_codeInstructions lines

/-- Code that was accepted, and what came out of it. -/
structure Assembled (lines : List Line) (symbols : Bindings) (words : List Word) : Prop where
  readable : ∀ l ∈ lines, l.Readable
  labels_nodup : (codeLabels lines).Nodup
  labels_free : ∀ name ∈ codeLabels lines, name ∉ predefined.map Prod.fst
  fits : lines.countP Line.occupiesRom ≤ programSize
  image : Image lines symbols words

namespace Assembled

variable {lines : List Line} {symbols : Bindings} {words : List Word}
  (h : Assembled lines symbols words)
include h

theorem mem_variables {t : Text} : t ∈ codeVariables lines ↔ t ∈ freeOperands lines := by
  rw [mem_freeOperands, mem_codeVariables h.readable h.labels_nodup h.labels_free h.fits]

theorem length_variables : (codeVariables lines).length = (freeOperands lines).length := by
  have hperm : (codeVariables lines).Perm (freeOperands lines) :=
    (List.perm_ext_iff_of_nodup (codeVariables_nodup lines) (List.nodup_dedup _)).mpr
      fun t => h.mem_variables
  exact hperm.length_eq

theorem length_lt : 16 + (freeOperands lines).length < 2 ^ 16 := by
  have hle := length_freeOperands_le lines
  have hfits := h.fits
  have hsize : programSize = 0x8000 := rfl
  omega

/-- The address of a free operand tells which one it is. -/
theorem free_address {t : Text} (ht : t ∈ freeOperands lines) :
    ∃ k w, (codeVariables lines)[k]? = some t ∧ symbols[t]? = some w ∧ w.toNat = 16 + k ∧
      k < (freeOperands lines).length := by
  obtain ⟨k, hk, hvalue⟩ := h.image.variable_address (h.mem_variables.mpr ht)
  have hlt := (List.getElem?_eq_some_iff.mp hk).1
  rw [h.length_variables] at hlt
  have hbound := h.length_lt
  refine ⟨k, _, hk, hvalue, ?_, hlt⟩
  rw [BitVec.toNat_ofNat, Nat.mod_eq_of_lt (by omega)]

theorem free_injective {t u : Text} (ht : t ∈ freeOperands lines) (hu : u ∈ freeOperands lines)
    (heq : symbols[t]? = symbols[u]?) : t = u := by
  obtain ⟨k, w, hk, hw, hwk, -⟩ := h.free_address ht
  obtain ⟨k', w', hk', hw', hwk', -⟩ := h.free_address hu
  rw [hw, hw'] at heq
  cases heq
  have hsame : k = k' := by omega
  rw [hsame, hk'] at hk
  exact (Option.some.inj hk).symm

/-- **Free operands fill an interval** of addresses. -/
theorem free_interval (w : Word) :
    (∃ t ∈ freeOperands lines, symbols[t]? = some w) ↔
      16 ≤ w.toNat ∧ w.toNat < 16 + (freeOperands lines).length := by
  constructor
  · rintro ⟨t, ht, hw⟩
    obtain ⟨k, w', -, hw', hk, hlt⟩ := h.free_address ht
    rw [hw] at hw'
    cases hw'
    omega
  · rintro ⟨hlow, hhigh⟩
    have hlt : w.toNat - 16 < (codeVariables lines).length := by
      rw [h.length_variables]
      omega
    -- the variable at that place of the list is the one with this address
    have ht := h.mem_variables.mp (List.getElem_mem hlt)
    obtain ⟨k, w', hk, hw', hwk, -⟩ := h.free_address ht
    refine ⟨_, ht, ?_⟩
    rw [← List.getElem?_eq_getElem hlt] at hk
    have hsame := (List.getElem?_inj hlt (codeVariables_nodup lines)).mp hk.symm
    rw [hw', BitVec.eq_of_toNat_eq (show w'.toNat = w.toNat by omega)]

theorem free_reaches (n : Nat) :
    (∃ t ∈ freeOperands lines, ∃ w, symbols[t]? = some w ∧ 16 + n ≤ w.toNat) ↔
      n < (freeOperands lines).length := by
  have hbound := h.length_lt
  constructor
  · rintro ⟨t, ht, w, hw, hle⟩
    have hhigh := ((h.free_interval w).mp ⟨t, ht, hw⟩).2
    omega
  · intro hn
    have hvalue : (BitVec.ofNat 16 (16 + n)).toNat = 16 + n := by
      rw [BitVec.toNat_ofNat, Nat.mod_eq_of_lt (by omega)]
    obtain ⟨t, ht, hw⟩ := (h.free_interval (BitVec.ofNat 16 (16 + n))).mpr (by omega)
    exact ⟨t, ht, _, hw, Nat.le_of_eq hvalue.symm⟩

end Assembled

end HackStack.Assembly

namespace HackStack.Lowering

open HackStack.Assembly
open HackStack.Machine
open HackStack.Vm

/-! ## Sources as runs -/

namespace Generator

/-- A run that the assembler has accepted. -/
theorem assembled_run {options : Options} {actions : List Action}
    (hentry : isFunctionName options.entryName = true) (hvalid : ∀ a ∈ actions, a.Valid)
    {a : Assembler} {p : Program}
    (h : Assembler.new.assemble (run options actions).text = (a, .ok p)) :
    Assembled (run options actions).code.toList a.symbols p.words.toList := by
  have hread := readable_run hentry hvalid
  obtain ⟨hnodup, hfree, hfits⟩ := labels_of_assemble hread h
  obtain ⟨a', p', hassemble, himage⟩ := assemble_render hread hnodup hfree
    (loadsBelow_run hentry hvalid hfits) hfits
  cases h.symm.trans hassemble
  exact ⟨hread, hnodup, hfree, hfits, himage⟩

/-- Writing sources is a run of valid actions. -/
theorem actions_of_writeSources {e e' : Generator} {counts : Array Nat} {counts' : List Nat}
    {units : List (Text × Text)} (hunits : ∀ u ∈ units, isIdentifier u.1 = true)
    (h : e.writeSources counts units = .ok (e', counts')) :
    ∃ actions, (∀ a ∈ actions, a.Valid) ∧ e' = e.performAll actions := by
  induction units generalizing e counts with
  | nil =>
      cases h
      exact ⟨[], fun a ha => absurd ha List.not_mem_nil, rfl⟩
  | cons u units ih =>
      obtain ⟨name, src⟩ := u
      obtain ⟨hname, hunits⟩ := List.forall_mem_cons.mp hunits
      cases hparse : parse src with
      | error err =>
          rw [writeSources, hparse] at h
          cases h
      | ok cs =>
          rw [writeSources_cons hparse] at h
          obtain ⟨actions, hvalid, he⟩ := ih hunits h
          have hunit := valid_unitActions (u := (name, cs)) hname
            fun c hc => (fits_of_parse hparse c hc).1
          refine ⟨unitActions (name, cs) ++ actions, List.forall_mem_append.mpr ⟨hunit, hvalid⟩, ?_⟩
          rw [he, performAll_append, performAll_unitActions]

end Generator

end HackStack.Lowering
