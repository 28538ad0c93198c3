import HackStack.Proofs.Assembly.Image
import HackStack.Proofs.Machine.Straight

/-!
# Variables of assembled code

A symbol that code loads is a label, a predefined symbol or a variable (`mem_codeVariables`), and a
variable gets an address of its own from 16 on (`Image.variable_address`). If the code and its variables are
few enough, every word that the code loads has bit 15 clear (`Image.loadsSmall`).
-/

namespace HackStack.Assembly

open HackStack.Machine

theorem reference_instruction {i : Instruction} (hread : (Line.instruction i).Readable) :
    ∃ s, (Line.instruction i).statement? = some s ∧
      ∀ t, s.reference? = some t ↔ i = .symbol t := by
  cases i with
  | load o =>
      refine ⟨.load o.text, rfl, fun t => ?_⟩
      cases o with
      | symbol name =>
          rw [Statement.reference?, Operand.text, head_symbol hread]
          constructor
          · intro h
            cases h
            rfl
          · intro h
            cases h
            rfl
      | number n =>
          obtain ⟨k, rfl⟩ := Int.eq_ofNat_of_zero_le hread
          have htext : (Operand.number (k : Int)).text = Text.ofNat k := Text.ofInt_natCast k
          rw [Statement.reference?, htext, head_ofNat]
          constructor
          · intro h
            cases h
          · intro h
            cases h
  | compute dest comp jump =>
      refine ⟨_, rfl, fun t => ?_⟩
      constructor
      · intro h
        cases h
      · intro h
        cases h

/-- The symbols that statements refer to are those that their lines load. -/
theorem reference_numbered {lines : List Line} (hread : ∀ l ∈ lines, l.Readable) (n : Nat)
    (t : Text) :
    (∃ s ∈ numbered n lines, s.2.reference? = some t) ↔
      Instruction.symbol t ∈ codeInstructions lines := by
  induction lines generalizing n with
  | nil => simp [numbered, codeInstructions]
  | cons l lines ih =>
      obtain ⟨hreadL, hread⟩ := List.forall_mem_cons.mp hread
      have ih := ih hread (n + 1)
      cases l with
      | comment text => exact ih
      | label name =>
          have hcons : numbered n (.label name :: lines) =
              (n, .label name) :: numbered (n + 1) lines := rfl
          have hcode : codeInstructions (.label name :: lines) = codeInstructions lines := rfl
          rw [hcons, hcode, ← ih]
          simp [Statement.reference?]
      | instruction i =>
          obtain ⟨s, hs, hreference⟩ := reference_instruction hreadL
          have hcons : numbered n (.instruction i :: lines) = (n, s) :: numbered (n + 1) lines := by
            rw [numbered, hs]
            rfl
          have hcode : codeInstructions (.instruction i :: lines) = i :: codeInstructions lines :=
            rfl
          rw [hcons, hcode, List.exists_mem_cons_iff, hreference, ih, List.mem_cons]
          exact or_congr_left eq_comm

section

variable {lines : List Line} (hread : ∀ l ∈ lines, l.Readable)
  (hnodup : (codeLabels lines).Nodup)
  (hnew : ∀ name ∈ codeLabels lines, name ∉ predefined.map Prod.fst)
  (hfit : lines.countP Line.occupiesRom ≤ programSize)

include hnodup hnew hfit in
theorem contains_labelBindings (t : Text) :
    (labelBindings lines).contains t = false ↔
      t ∉ codeLabels lines ∧ t ∉ predefined.map Prod.fst := by
  have hpass := (bindLabels_lines hnodup hnew).mpr hfit
  rw [Bool.eq_false_iff, Ne, labelBindings,
    Assembler.contains_bindLabels hpass (Nat.zero_le _), labelAddresses_numbered,
    map_fst_lineLabels, contains_new, List.contains_iff_mem, not_or]
  exact and_comm

include hread hnodup hnew hfit in
/-- **Variables** are the symbols that code loads and that are neither labels nor predefined. -/
theorem mem_codeVariables {t : Text} :
    t ∈ codeVariables lines ↔
      Instruction.symbol t ∈ codeInstructions lines ∧ t ∉ codeLabels lines ∧
        t ∉ predefined.map Prod.fst := by
  rw [codeVariables, Assembler.mem_newVariables, reference_numbered hread,
    contains_labelBindings hnodup hnew hfit]

end

theorem codeVariables_nodup (lines : List Line) : (codeVariables lines).Nodup :=
  (Assembler.allocated_useAll (labelBindings lines) (numbered 1 lines)).nodup

section

variable {lines : List Line} {symbols : Bindings} {words : List Word}
  (h : Image lines symbols words)
include h

/-- The address of a variable tells which one it is. -/
theorem Image.variable_address {t : Text} (ht : t ∈ codeVariables lines) :
    ∃ k, (codeVariables lines)[k]? = some t ∧ symbols[t]? = some (BitVec.ofNat 16 (16 + k)) := by
  obtain ⟨k, hk⟩ := Option.isSome_iff_exists.mp (List.isSome_idxOf?.mpr ht)
  refine ⟨k, ?_, h.allocated t k hk⟩
  obtain ⟨hlt, heq, -⟩ := List.idxOf?_eq_some_iff.mp hk
  rw [List.getElem?_eq_getElem hlt]
  exact congrArg some heq

/-- **Small words.** -/
theorem Image.loadsSmall (hread : ∀ l ∈ lines, l.Readable) (hnodup : (codeLabels lines).Nodup)
    (hnew : ∀ name ∈ codeLabels lines, name ∉ Assembly.predefined.map Prod.fst)
    (hsmall : ∀ l ∈ lines, l.LoadsBelow programSize)
    (hfit : lines.countP Line.occupiesRom < programSize)
    (hvariables : 16 + (codeVariables lines).length ≤ programSize) :
    LoadsSmall symbols (codeInstructions lines) := by
  have hsize : programSize = 0x8000 := rfl
  intro o w ho hw
  cases o with
  | number n =>
      cases Option.some.inj hw
      have hlt : n < (programSize : Int) := hsmall _ (mem_codeInstructions.mp ho)
      exact msb_ofNat_of_lt (by omega)
  | symbol t =>
      change symbols[t]? = some w at hw
      -- a symbol is a label, predefined or a variable, and all three have small addresses
      by_cases hlabel : t ∈ codeLabels lines
      · obtain ⟨before, after, hlines⟩ := List.append_of_mem (mem_codeLabels.mp hlabel)
        rw [h.label before t after hlines] at hw
        cases hw
        rw [hlines, List.countP_append] at hfit
        exact msb_ofNat_of_lt (by omega)
      · by_cases hpre : t ∈ Assembly.predefined.map Prod.fst
        · obtain ⟨r, hr, rfl⟩ := List.mem_map.mp hpre
          rw [h.predefined r hr] at hw
          cases hw
          have htable : ∀ r ∈ Assembly.predefined, r.2.msb = false := by decide
          exact htable r hr
        · obtain ⟨k, hk, hvalue⟩ := h.variable_address
            ((mem_codeVariables hread hnodup hnew (Nat.le_of_lt hfit)).mpr ⟨ho, hlabel, hpre⟩)
          rw [hvalue] at hw
          cases hw
          have hlt := (List.getElem?_eq_some_iff.mp hk).1
          exact msb_ofNat_of_lt (by omega)

end

end HackStack.Assembly
