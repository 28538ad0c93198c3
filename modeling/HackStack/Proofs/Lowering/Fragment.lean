import HackStack.Proofs.Assembly.Operand
import HackStack.Proofs.Lowering.Effect
import HackStack.Proofs.Lowering.Legible

/-!
# Code by itself

Code that loads only registers and small numbers has the same words in every program, so it can be
assembled by itself (`Fixed.assemble`). Wherever a program memory holds these words, the code is
installed (`Fixed.installed`), and a program that contains the code holds them (`Fixed.isPrefix`).
-/

namespace HackStack.Lowering

open HackStack.Assembly
open HackStack.Machine

/-- Code that loads only predefined symbols and small numbers. -/
def Fixed (code : List Instruction) : Prop :=
  ∀ i ∈ code, i.Loads (· ∈ predefined.map Prod.fst) programSize

/-- Code that is legible wherever the predefined symbols are. -/
theorem fixed_of_loads {code : List Instruction}
    (h : ∀ ok : Text → Prop, (∀ r ∈ predefined, ok r.1) → ∀ i ∈ code, i.Loads ok programSize) :
    Fixed code :=
  h _ fun _ hr => List.mem_map_of_mem hr

/-- A load of a register or a small number has one word, and its bit 15 is clear. -/
theorem word?_of_loads {o : Operand}
    (h : (Instruction.load o).Loads (· ∈ predefined.map Prod.fst) programSize) :
    ∃ w : Word, w.msb = false ∧
      ∀ symbols, BindsRegisters symbols → (Instruction.load o).word? symbols = some w := by
  have hsize : programSize = 0x8000 := rfl
  cases o with
  | symbol name =>
      obtain ⟨r, hr, rfl⟩ := List.mem_map.mp h
      have hsmall := predefined_small r hr
      refine ⟨r.2, ?_, fun symbols hregs => hregs r hr⟩
      rw [BitVec.msb_eq_false_iff_two_mul_lt]
      omega
  | number n =>
      obtain ⟨hpos, hlt⟩ := h
      exact ⟨BitVec.ofNat 16 n.toNat, msb_ofNat_of_lt (by omega), fun symbols _ => rfl⟩

namespace Fixed

variable {code : List Instruction} (h : Fixed code)
include h

theorem loadsSmall {symbols : Bindings} (hregs : BindsRegisters symbols) :
    LoadsSmall symbols code := by
  intro o w ho hw
  obtain ⟨w', hsmall, hword⟩ := word?_of_loads (h _ ho)
  rw [hword symbols hregs] at hw
  cases hw
  exact hsmall

theorem word?_eq {symbols symbols' : Bindings} (hregs : BindsRegisters symbols)
    (hregs' : BindsRegisters symbols') {i : Instruction} (hi : i ∈ code) :
    i.word? symbols = i.word? symbols' := by
  cases i with
  | load o =>
      obtain ⟨w, -, hword⟩ := word?_of_loads (h _ hi)
      rw [hword symbols hregs, hword symbols' hregs']
  | compute dest comp jump => rfl

theorem legible : ∀ l ∈ code.map Line.instruction, l.Legible programSize := by
  intro l hl
  obtain ⟨i, hi, rfl⟩ := List.mem_map.mp hl
  apply Instruction.legible_of_loads
  have hloads := h i hi
  match i, hloads with
  | .load (.symbol name), hname =>
      obtain ⟨r, hr, rfl⟩ := List.mem_map.mp hname
      exact isPlainSymbol_predefined r hr
  | .load (.number n), hn => exact hn
  | .compute _ _ _, _ => trivial

/-- The code is accepted by itself. -/
theorem assemble (hfits : code.length ≤ programSize) :
    ∃ a p, Assembler.new.assemble (render (code.map .instruction)) = (a, .ok p) ∧
      p.words.size = code.length ∧ BindsRegisters a.symbols ∧
      CodeAt a.symbols p.words.toList 0 code := by
  have hlabels : codeLabels (code.map .instruction) = [] := codeLabels_instructions code
  obtain ⟨a, p, haccepted, himage⟩ := assemble_render (fun l hl => (h.legible l hl).1)
    (by rw [hlabels]; exact List.nodup_nil) (by rw [hlabels]; exact fun _ hm => nomatch hm)
    (fun l hl => (h.legible l hl).2) (by rwa [countP_instructions])
  have hcode := himage.codeAt_zero
  have hlength := himage.length
  rw [codeInstructions_instructions] at hcode
  rw [countP_instructions, Array.length_toList] at hlength
  exact ⟨a, p, haccepted, hlength, himage.predefined, hcode⟩

/-- A program memory that holds the words of the code holds the code. -/
theorem installed {symbols : Bindings} {words rom : Array Word} {start : Nat}
    (hregs : BindsRegisters symbols) (hcode : CodeAt symbols words.toList 0 code)
    (hplaced : words.toList <+: rom.toList.drop start) (hfits : start + code.length ≤ programSize) :
    Installed symbols rom start code := by
  refine ⟨?_, h.loadsSmall hregs, hfits⟩
  intro j i hj
  obtain ⟨w, hw, hword⟩ := hcode j i hj
  rw [Nat.zero_add] at hword
  refine ⟨w, hw, ?_⟩
  obtain ⟨rest, hrest⟩ := hplaced
  rw [← List.getElem?_drop, ← hrest,
    List.getElem?_append_left (List.getElem?_eq_some_iff.mp hword).1, hword]

/-- A program that contains the code holds the words that the code has by itself. -/
theorem isPrefix {symbols symbols' : Bindings} {words rom : Array Word} {start : Nat}
    (hregs : BindsRegisters symbols) (hregs' : BindsRegisters symbols')
    (hwords : CodeAt symbols words.toList 0 code) (hsize : words.size = code.length)
    (hcode : CodeAt symbols' rom.toList start code) :
    words.toList <+: rom.toList.drop start := by
  rw [List.prefix_iff_getElem?]
  intro j hj
  have hlt : j < code.length := by rwa [← hsize, ← Array.length_toList]
  have hi := List.getElem?_eq_getElem hlt
  obtain ⟨w, hw, hword⟩ := hwords j _ hi
  obtain ⟨w', hw', hword'⟩ := hcode j _ hi
  rw [h.word?_eq hregs hregs' (List.getElem_mem hlt), hw'] at hw
  cases hw
  rw [Nat.zero_add, List.getElem?_eq_getElem hj] at hword
  rw [List.getElem?_drop, hword', hword]

end Fixed

end HackStack.Lowering
