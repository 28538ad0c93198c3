import HackStack.Proofs.Assembly.Variables
import HackStack.Proofs.Simulation.Program

/-!
# Static variables

In a well-formed program every symbol is defined, the static variables apart (`mentioned_cases`). So
the variables that the assembler allocates are just these (`mem_variables`), and each of them has a
word of its own between the registers and the stack (`static_address`, `static_injective`).
-/

namespace HackStack.Vm

theorem mem_staticPairs {units : List (Text × List Command)} {p : Text × Nat} :
    p ∈ staticPairs units ↔
      ∃ u ∈ units, ∃ c ∈ u.2, c.static? = some p.2 ∧ u.1 = p.1 := by
  rw [staticPairs, List.mem_flatMap]
  refine exists_congr fun u => and_congr_right fun _ => ?_
  rw [List.mem_map]
  constructor
  · rintro ⟨i, hi, rfl⟩
    obtain ⟨c, hc, hstatic⟩ := List.mem_filterMap.mp hi
    exact ⟨c, hc, hstatic, rfl⟩
  · rintro ⟨c, hc, hstatic, hunit⟩
    exact ⟨p.2, List.mem_filterMap.mpr ⟨c, hc, hstatic⟩, Prod.ext hunit rfl⟩

theorem mem_unit_of_mem_body {units : List (Text × List Command)} {r : Routine}
    (hr : r ∈ routines units) {c : Command} (hc : c ∈ r.body) :
    ∃ u ∈ units, u.1 = r.unit ∧ c ∈ u.2 := by
  obtain ⟨u, hu, hr⟩ := mem_routines.mp hr
  obtain ⟨hunit, -, pre, locals, post, hcs, -⟩ := mem_splitRoutines hr
  refine ⟨u, hu, hunit.symm, ?_⟩
  rw [hcs]
  simp [hc]

theorem eq_of_static? {c : Command} {n : Nat} (h : c.static? = some n) :
    ∃ i : Int, (c = .push .static i ∨ c = .pop .static i) ∧ i.toNat = n := by
  cases c with
  | push segment i =>
      cases segment with
      | static => exact ⟨i, Or.inl rfl, Option.some.inj h⟩
      | _ => cases h
  | pop segment i =>
      cases segment with
      | static => exact ⟨i, Or.inr rfl, Option.some.inj h⟩
      | _ => cases h
  | _ => cases h

end HackStack.Vm

namespace HackStack.Lowering

open HackStack.Assembly
open HackStack.Machine
open HackStack.Vm

/-- The symbols that a command mentions in a unit and a scope, that of its call apart. -/
def references (unit scope : Text) : Command → List CodeSymbol
  | .push .static index | .pop .static index => [.cell unit index.toNat]
  | .label name | .goto name | .ifGoto name => [.label scope name]
  | .call name _ | .function name _ => [.function name]
  | _ => []

/-- The symbols that a function mentions, those of its calls apart. -/
def routineReferences (r : Routine) : List CodeSymbol :=
  .function r.name :: r.body.flatMap (references r.unit r.name)

namespace Generator

theorem mentions_filter (e : Generator) (c : Command) :
    (e.mentions (.ofCommand c)).filter (!·.isBack) = references e.unit e.scope c := by
  rw [mentions, Action.command?_ofCommand]
  cases c with
  | push s i => cases s <;> rfl
  | pop s i => cases s <;> rfl
  | _ => rfl

theorem mentions_filter_back (e : Generator) (a : Action) :
    (e.mentions a).filter CodeSymbol.isBack = (e.defines a).filter CodeSymbol.isBack := by
  rw [mentions, defines]
  cases a.command? with
  | none => rfl
  | some c =>
      cases c with
      | push s i => cases s <;> rfl
      | pop s i => cases s <;> rfl
      | _ => rfl

theorem mentionsAll_filter_back (e : Generator) (actions : List Action) :
    (e.mentionsAll actions).filter CodeSymbol.isBack =
      (e.definesAll actions).filter CodeSymbol.isBack := by
  induction actions generalizing e with
  | nil => rfl
  | cons a actions ih =>
      rw [mentionsAll, definesAll, List.filter_append, List.filter_append, mentions_filter_back, ih]

theorem mentionsAll_commands {e : Generator} (he : e.Named) {unit : Text} (hunit : e.unit = unit)
    {cs : List Command} (hvalid : ∀ c ∈ cs, c.isValid = true) :
    (e.mentionsAll (cs.map .ofCommand)).filter (!·.isBack) =
      (splitRoutines unit cs).1.flatMap (references unit e.scope) ++
        (splitRoutines unit cs).2.flatMap routineReferences := by
  induction cs generalizing e with
  | nil => rfl
  | cons c cs ih =>
      obtain ⟨hvalidC, hvalid⟩ := List.forall_mem_cons.mp hvalid
      have hnamed := he.perform (Action.valid_ofCommand hvalidC).isNamed
      have hrest := ih hnamed ((unit_perform_ofCommand e c).trans hunit) hvalid
      rw [List.map_cons, mentionsAll, List.filter_append, hrest, mentions_filter, hunit]
      cases hc : c.isFunction with
      | false =>
          rw [scope_perform_ofCommand he hc, splitRoutines_cons hc, List.flatMap_cons,
            List.append_assoc]
      | true =>
          cases c with
          | function name locals =>
              rw [scope_perform_function]
              rfl
          | _ => cases hc

/-- What a program mentions, apart from its calls: what its functions mention. -/
theorem mentionsAll_programActions {units : List (Text × List Command)} {e : Generator}
    (he : e.Named) (hunits : ∀ u ∈ units, isIdentifier u.1 = true)
    (hvalid : ∀ u ∈ units, ∀ c ∈ u.2, c.isValid = true)
    (hheads : ∀ u ∈ units, (splitRoutines u.1 u.2).1 = []) :
    (e.mentionsAll (programActions units)).filter (!·.isBack) =
      (routines units).flatMap routineReferences := by
  induction units generalizing e with
  | nil => rfl
  | cons u units ih =>
      obtain ⟨hunit, hunits⟩ := List.forall_mem_cons.mp hunits
      obtain ⟨hvalidU, hvalid⟩ := List.forall_mem_cons.mp hvalid
      obtain ⟨hhead, hheads⟩ := List.forall_mem_cons.mp hheads
      have hentered : (e.perform (.unit u.1)).Named := he.perform hunit
      have hfirst : (e.mentionsAll (unitActions u)).filter (!·.isBack) =
          (splitRoutines u.1 u.2).2.flatMap routineReferences := by
        show ((e.perform (.unit u.1)).mentionsAll (u.2.map .ofCommand)).filter _ = _
        rw [@mentionsAll_commands _ hentered u.1 rfl _ hvalidU, hhead]
        rfl
      have hactions : programActions (u :: units) = unitActions u ++ programActions units :=
        List.flatMap_cons
      have hroutines : routines (u :: units) = (splitRoutines u.1 u.2).2 ++ routines units :=
        List.flatMap_cons
      rw [hactions, hroutines, mentionsAll_append, List.filter_append, List.flatMap_append, hfirst,
        ih (named_unitActions he hunit hvalidU) hunits hvalid hheads]

end Generator

def addressOf (symbols : Bindings) (t : Text) : Nat := ((symbols[t]?).getD 0).toNat

theorem addressOf_of_lookup {symbols : Bindings} {t : Text} {n : Nat} (hn : n < 2 ^ 16)
    (h : symbols[t]? = some (BitVec.ofNat 16 n)) : addressOf symbols t = n := by
  rw [addressOf, h, Option.getD_some, BitVec.toNat_ofNat, Nat.mod_eq_of_lt hn]

def cellAddress (symbols : Bindings) (p : Text × Nat) : Nat :=
  addressOf symbols (cellSymbol p.1 p.2)

namespace WellFormed

variable {options : Options} {units : List (Text × List Command)} (h : WellFormed options units)
include h

theorem function_mem_definitions {name : Text} (hname : name ∈ (routines units).map Routine.name) :
    .function name ∈ Generator.definitions options (programActions units) := by
  obtain ⟨r, hr, rfl⟩ := List.mem_map.mp hname
  exact (h.mem_definitions rfl).mpr ⟨r, hr, List.mem_cons_self⟩

theorem label_mem_definitions {r : Routine} (hr : r ∈ routines units) {name : Text}
    (hname : .label name ∈ r.body) :
    .label r.name name ∈ Generator.definitions options (programActions units) := by
  refine (h.mem_definitions rfl).mpr ⟨r, hr, List.mem_cons_of_mem _ ?_⟩
  exact List.mem_map_of_mem (List.mem_filterMap.mpr ⟨_, hname, rfl⟩)

theorem references_cases {r : Routine} (hr : r ∈ routines units) {c : Command} (hc : c ∈ r.body)
    {s : CodeSymbol} (hs : s ∈ references r.unit r.name c) :
    s ∈ Generator.definitions options (programActions units) ∨
      ∃ p ∈ staticPairs units, s = .cell p.1 p.2 := by
  have hstatic : ∀ i : Int, c.static? = some i.toNat → s ∈ [CodeSymbol.cell r.unit i.toNat] →
      ∃ p ∈ staticPairs units, s = .cell p.1 p.2 := by
    intro i hi hs
    obtain ⟨u, hu, hunit, hcu⟩ := mem_unit_of_mem_body hr hc
    refine ⟨(r.unit, i.toNat), mem_staticPairs.mpr ⟨u, hu, c, hcu, hi, hunit⟩, ?_⟩
    exact List.mem_singleton.mp hs
  cases c with
  | push segment i =>
      cases segment with
      | static => exact Or.inr (hstatic i rfl hs)
      | _ => cases hs
  | pop segment i =>
      cases segment with
      | static => exact Or.inr (hstatic i rfl hs)
      | _ => cases hs
  | label name =>
      rw [List.mem_singleton.mp hs]
      exact Or.inl (h.label_mem_definitions hr hc)
  | goto name =>
      rw [List.mem_singleton.mp hs]
      exact Or.inl (h.label_mem_definitions hr (h.targets r hr name (Or.inl hc)))
  | ifGoto name =>
      rw [List.mem_singleton.mp hs]
      exact Or.inl (h.label_mem_definitions hr (h.targets r hr name (Or.inr hc)))
  | call name args =>
      rw [List.mem_singleton.mp hs]
      exact Or.inl (h.function_mem_definitions (h.callees r hr name args hc))
  | function name locals =>
      have hfunction := ((h.routine_commands hr).1 _ hc).2
      cases hfunction
  | arithmetic op => cases hs
  | ret => cases hs

/-- **Symbols of a well-formed program** are defined, or stand for static variables. -/
theorem mentioned_cases {s : CodeSymbol}
    (hs : s ∈ Generator.mentioned options (programActions units)) :
    s ∈ Generator.definitions options (programActions units) ∨
      ∃ p ∈ staticPairs units, s = .cell p.1 p.2 := by
  rw [Generator.mentioned, List.mem_append] at hs
  rcases hs with hs | hs
  · -- the start-up code
    split at hs
    · next hb =>
        rcases List.mem_cons.mp hs with rfl | hs
        · refine Or.inl (List.mem_append_left _ ?_)
          rw [if_pos hb]
          exact List.mem_cons_self
        · rw [List.mem_singleton.mp hs]
          exact Or.inl (h.function_mem_definitions h.entry)
    · cases hs
  · -- every place to return to is defined by the call that mentions it
    cases hback : s.isBack with
    | true =>
        have hmem := List.mem_filter.mpr ⟨hs, hback⟩
        rw [Generator.mentionsAll_filter_back] at hmem
        exact Or.inl (List.mem_append_right _ (List.mem_filter.mp hmem).1)
    | false =>
        have hmem : s ∈ ((Generator.new options).mentionsAll (programActions units)).filter
            (!·.isBack) := List.mem_filter.mpr ⟨hs, by rw [hback]; rfl⟩
        rw [Generator.mentionsAll_programActions (Generator.named_new options) h.unitNames h.isValid
          fun u hu => splitRoutines_of_head (h.heads u hu)] at hmem
        obtain ⟨r, hr, hmem⟩ := List.mem_flatMap.mp hmem
        rcases List.mem_cons.mp hmem with rfl | hmem
        · exact Or.inl (h.function_mem_definitions (List.mem_map_of_mem hr))
        · obtain ⟨c, hc, hmem⟩ := List.mem_flatMap.mp hmem
          exact h.references_cases hr hc hmem

/-! ## Addresses -/

/-- A static variable that is used is loaded somewhere. -/
theorem static_loaded {p : Text × Nat} (hp : p ∈ staticPairs units) :
    Instruction.symbol (cellSymbol p.1 p.2) ∈
      codeInstructions (Generator.run options (programActions units)).code.toList := by
  obtain ⟨u, hu, c, hc, hstatic, hunit⟩ := mem_staticPairs.mp hp
  obtain ⟨pre, post, hcs⟩ := List.append_of_mem hc
  obtain ⟨before, after, hactions, hbefore⟩ := @command_split options units u hu _ _ hcs
  obtain ⟨i, hcase, hi⟩ := eq_of_static? hstatic
  have hindex : (p.2 : Int) = i := by
    have hnonneg := Command.index_nonneg (h.isValid u hu c hc) hcase
    omega
  have hload := Generator.static_loaded options before (post.map .ofCommand ++ after)
    (hindex ▸ hcase)
  rwa [hbefore, hunit, ← List.cons_append, ← List.map_cons, ← hactions] at hload

theorem isIdentifier_of_static {p : Text × Nat} (hp : p ∈ staticPairs units) :
    isIdentifier p.1 = true := by
  obtain ⟨u, hu, -, -, -, hunit⟩ := mem_staticPairs.mp hp
  rw [← hunit]
  exact h.unitNames u hu

/-- **The variables of a well-formed program** are its static variables. -/
theorem mem_variables {t : Text} :
    t ∈ codeVariables (Generator.run options (programActions units)).code.toList ↔
      ∃ p ∈ staticPairs units, t = cellSymbol p.1 p.2 := by
  have hlower := h.lowerable
  have hfit : (Generator.run options (programActions units)).counter < programSize := by
    rw [← lower_eq_run]
    exact h.fits
  have hcount := Nat.le_of_lt hfit
  rw [Generator.counter_run] at hcount
  rw [mem_codeVariables hlower.readable hlower.labels_nodup hlower.labels_free hcount,
    Generator.codeLabels_run]
  constructor
  · -- what is loaded is predefined, defined by the run or a static variable
    rintro ⟨hload, hlabel, hpre⟩
    have hloads : (Instruction.symbol t).Loads (fun t => t ∈ predefined.map Prod.fst ∨
        ∃ s ∈ Generator.mentioned options (programActions units), s.text = t) programSize :=
      Generator.loads_run hlower.entry (fun r hr => Or.inl (List.mem_map_of_mem hr))
        (Nat.le_refl programSize) (programActions units) h.valid (fun s hs => Or.inr ⟨s, hs, rfl⟩)
        (Nat.le_of_lt hfit) _ hload
    rcases hloads with hmem | ⟨s, hs, rfl⟩
    · exact absurd hmem hpre
    · rcases h.mentioned_cases hs with hdef | ⟨p, hp, rfl⟩
      · exact absurd (List.mem_map_of_mem hdef) hlabel
      · exact ⟨p, hp, rfl⟩
  · -- no label and no predefined symbol is spelled like a static variable
    rintro ⟨p, hp, rfl⟩
    refine ⟨h.static_loaded hp, ?_, @CodeSymbol.text_notMem_predefined (.cell p.1 p.2) rfl⟩
    rw [← Generator.codeLabels_run]
    exact Generator.cellSymbol_notMem_codeLabels hlower.entry h.valid
      (h.isIdentifier_of_static hp) p.2

theorem length_variables :
    (codeVariables (Generator.run options (programActions units)).code.toList).length ≤ 240 := by
  have hsub : (codeVariables (Generator.run options (programActions units)).code.toList).toFinset ⊆
      (staticPairs units).toFinset.image fun p => cellSymbol p.1 p.2 := by
    intro t ht
    obtain ⟨p, hp, rfl⟩ := h.mem_variables.mp (List.mem_toFinset.mp ht)
    exact Finset.mem_image_of_mem _ (List.mem_toFinset.mpr hp)
  calc _ = (codeVariables
        (Generator.run options (programActions units)).code.toList).toFinset.card :=
        (List.toFinset_card_of_nodup (codeVariables_nodup _)).symm
    _ ≤ _ := Finset.card_le_card hsub
    _ ≤ (staticPairs units).toFinset.card := Finset.card_image_le
    _ ≤ 240 := h.statics

section

variable {symbols : Bindings} {words : List Word}
  (himage : Image (Generator.run options (programActions units)).code.toList symbols words)
include himage

theorem static_lookup {p : Text × Nat} (hp : p ∈ staticPairs units) :
    ∃ k < 240, symbols[cellSymbol p.1 p.2]? = some (BitVec.ofNat 16 (16 + k)) ∧
      cellAddress symbols p = 16 + k ∧
      (codeVariables (Generator.run options (programActions units)).code.toList)[k]? =
        some (cellSymbol p.1 p.2) := by
  obtain ⟨k, hk, hvalue⟩ := himage.variable_address (h.mem_variables.mpr ⟨p, hp, rfl⟩)
  have hlt := (List.getElem?_eq_some_iff.mp hk).1
  have hlength := h.length_variables
  exact ⟨k, by omega, hvalue, addressOf_of_lookup (by omega) hvalue, hk⟩

/-- **Static variables lie between the registers and the stack.** -/
theorem static_address {p : Text × Nat} (hp : p ∈ staticPairs units) :
    symbols[cellSymbol p.1 p.2]? = some (BitVec.ofNat 16 (cellAddress symbols p)) ∧
      16 ≤ cellAddress symbols p ∧ cellAddress symbols p < 256 := by
  obtain ⟨k, hlt, hvalue, haddress, -⟩ := h.static_lookup himage hp
  rw [haddress]
  exact ⟨hvalue, by omega, by omega⟩

/-- **Different static variables have different addresses.** -/
theorem static_injective {p q : Text × Nat} (hp : p ∈ staticPairs units)
    (hq : q ∈ staticPairs units) (heq : cellAddress symbols p = cellAddress symbols q) : p = q := by
  obtain ⟨k, -, -, hk, hvariable⟩ := h.static_lookup himage hp
  obtain ⟨k', -, -, hk', hvariable'⟩ := h.static_lookup himage hq
  rw [show k = k' by omega, hvariable'] at hvariable
  have hsame : CodeSymbol.cell q.1 q.2 = .cell p.1 p.2 := CodeSymbol.text_injective
    (h.isIdentifier_of_static hq) (h.isIdentifier_of_static hp) (Option.some.inj hvariable)
  obtain ⟨hunit, hindex⟩ := CodeSymbol.cell.inj hsame
  exact Prod.ext hunit.symm hindex.symm

end

end WellFormed

end HackStack.Lowering
