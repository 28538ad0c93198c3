import HackStack.Proofs.Assembly.Passes
import HackStack.Proofs.Assembly.Reading

/-!
# The image of generated code

What a new assembler makes of lines of code. If the lines are readable, their labels are distinct
and new, and the numbers that they load are small enough, then the text of the lines is accepted
exactly if the instructions fit into the program memory (`assemble_render`, `assemble_too_large`).
The words and the bindings are then an `Image` of the lines: each instruction has its word, in order;
each label is bound to the number of instructions before it; the remaining symbols are variables
with addresses from 16 on.
-/

namespace HackStack.Assembly

open HackStack.Machine

/-! ## Parts of code -/

def codeLabels (lines : List Line) : List Text :=
  lines.filterMap fun
    | .label name => some name
    | _ => none

def codeInstructions (lines : List Line) : List Instruction :=
  lines.filterMap fun
    | .instruction i => some i
    | _ => none

theorem codeLabels_append (first second : List Line) :
    codeLabels (first ++ second) = codeLabels first ++ codeLabels second :=
  List.filterMap_append ..

theorem codeInstructions_append (first second : List Line) :
    codeInstructions (first ++ second) = codeInstructions first ++ codeInstructions second :=
  List.filterMap_append ..

theorem codeLabels_instructions (code : List Instruction) :
    codeLabels (code.map .instruction) = [] := by
  simp [codeLabels]

theorem codeInstructions_instructions (code : List Instruction) :
    codeInstructions (code.map .instruction) = code := by
  rw [codeInstructions, List.filterMap_map]
  exact List.filterMap_some

theorem mem_codeLabels {lines : List Line} {t : Text} :
    t ∈ codeLabels lines ↔ .label t ∈ lines := by
  rw [codeLabels, List.mem_filterMap]
  constructor
  · rintro ⟨l, hl, heq⟩
    cases l with
    | label name =>
        cases heq
        exact hl
    | _ => cases heq
  · intro hl
    exact ⟨_, hl, rfl⟩

theorem mem_codeInstructions {lines : List Line} {i : Instruction} :
    i ∈ codeInstructions lines ↔ .instruction i ∈ lines := by
  rw [codeInstructions, List.mem_filterMap]
  constructor
  · rintro ⟨l, hl, heq⟩
    cases l with
    | instruction j =>
        cases heq
        exact hl
    | _ => cases heq
  · intro hl
    exact ⟨_, hl, rfl⟩

theorem countP_instruction_cons (i : Instruction) (lines : List Line) :
    (Line.instruction i :: lines).countP Line.occupiesRom = lines.countP Line.occupiesRom + 1 :=
  List.countP_cons_of_pos rfl

theorem length_codeInstructions (lines : List Line) :
    (codeInstructions lines).length = lines.countP Line.occupiesRom := by
  induction lines with
  | nil => rfl
  | cons l lines ih =>
      cases l with
      | instruction i =>
          rw [countP_instruction_cons]
          exact congrArg (· + 1) ih
      | _ => exact ih

/-- The word of an instruction under given bindings. -/
def Instruction.word? (symbols : Bindings) : Instruction → Option Word
  | load (.number n) => some (BitVec.ofNat 16 n.toNat)
  | load (.symbol name) => symbols[name]?
  | compute dest comp jump => some (encodeCompute comp.code dest.code jump.code)

/-- The number that a line loads, if it loads one, is below `limit`. -/
def Line.LoadsBelow (limit : Nat) : Line → Prop
  | instruction (.load (.number n)) => n < limit
  | _ => True

/-! ## Lines as statements -/

theorem Comp.ofText?_text (c : Comp) : Comp.ofText? c.text = some c := by
  cases c <;> decide

theorem Dest.ofText?_text (d : Dest) : Dest.ofText? d.text = some d := by
  obtain ⟨a, d, m⟩ := d
  cases a <;> cases d <;> cases m <;> decide

theorem Jump.ofText?_text (j : Jump) : Jump.ofText? j.text = some j := by
  cases j <;> decide

theorem head_ofNat (n : Nat) : (Text.ofNat n).head?.any Text.isDigit = true := by
  cases h : Text.ofNat n with
  | nil => exact absurd h (Text.ofNat_ne_nil n)
  | cons b t =>
      have hall := Text.all_isDigit_ofNat n
      rw [h, List.all_cons, Bool.and_eq_true] at hall
      exact hall.1

theorem head_symbol {t : Text} (h : isPlainSymbol t = true) :
    t.head?.any Text.isDigit = false := by
  obtain ⟨b, rest, rfl, hb, -⟩ := isPlainSymbol_iff.mp h
  exact hb

theorem statement_instruction {i : Instruction} (hread : (Line.instruction i).Readable)
    (hsmall : (Line.instruction i).LoadsBelow programSize) (symbols : Bindings) :
    ∃ s, (Line.instruction i).statement? = some s ∧ s.occupiesRom = true ∧ s.isLegal = true ∧
      s.word? symbols = i.word? symbols := by
  cases i with
  | load o =>
      refine ⟨.load o.text, rfl, rfl, ?_⟩
      cases o with
      | symbol name =>
          have hhead := head_symbol hread
          rw [Statement.isLegal, Statement.word?, Operand.text, hhead]
          exact ⟨isSymbolName_of_plain hread, rfl⟩
      | number n =>
          obtain ⟨k, rfl⟩ := Int.eq_ofNat_of_zero_le hread
          have hk : k ≤ maxConstant := by
            have hlt : (k : Int) < (programSize : Nat) := hsmall
            have hsize : programSize = maxConstant + 1 := rfl
            omega
          have htext : (Operand.number (k : Int)).text = Text.ofNat k := Text.ofInt_natCast k
          rw [Statement.isLegal, Statement.word?, htext, if_pos (head_ofNat k),
            if_pos (head_ofNat k), Text.natUpTo?_ofNat hk]
          exact ⟨rfl, rfl⟩
  | compute dest comp jump =>
      have hword : computeWord dest.text comp.text jump.text 0 =
          .ok (encodeCompute comp.code dest.code jump.code) := by
        rw [computeWord, Comp.ofText?_text, Dest.ofText?_text, Jump.ofText?_text]
      refine ⟨.compute dest.text comp.text jump.text, rfl, rfl, ?_, ?_⟩
      · rw [Statement.isLegal, hword]
        rfl
      · rw [Statement.word?, hword]
        rfl

theorem instructionsOf_numbered (lines : List Line) (hread : ∀ l ∈ lines, l.Readable)
    (hsmall : ∀ l ∈ lines, l.LoadsBelow programSize) (n : Nat) (symbols : Bindings) :
    (∀ s ∈ numbered n lines, s.2.isLegal = true) ∧
      (instructionsOf (numbered n lines)).map (fun s => s.2.word? symbols) =
        (codeInstructions lines).map (Instruction.word? symbols) := by
  induction lines generalizing n with
  | nil => exact ⟨fun s hs => (List.not_mem_nil hs).elim, rfl⟩
  | cons l lines ih =>
      obtain ⟨hreadL, hread⟩ := List.forall_mem_cons.mp hread
      obtain ⟨hsmallL, hsmall⟩ := List.forall_mem_cons.mp hsmall
      obtain ⟨hlegal, hwords⟩ := ih hread hsmall (n + 1)
      cases l with
      | comment t => exact ⟨hlegal, hwords⟩
      | label name => exact ⟨List.forall_mem_cons.mpr ⟨rfl, hlegal⟩, hwords⟩
      | instruction i =>
          obtain ⟨s, hs, hrom, hok, hword⟩ := statement_instruction hreadL hsmallL symbols
          have hcons : numbered n (.instruction i :: lines) = (n, s) :: numbered (n + 1) lines := by
            rw [numbered, hs]
            rfl
          rw [hcons, Assembler.instructionsOf_cons_of_pos hrom, List.map_cons, hword, hwords]
          exact ⟨List.forall_mem_cons.mpr ⟨hok, hlegal⟩, rfl⟩

/-- The number of instructions, which does not depend on whether their operands are legal. -/
theorem length_instructionsOf_numbered (lines : List Line) (n : Nat) :
    (instructionsOf (numbered n lines)).length = lines.countP Line.occupiesRom := by
  induction lines generalizing n with
  | nil => rfl
  | cons l lines ih =>
      cases l with
      | instruction i =>
          rw [countP_instruction_cons]
          cases i <;> exact congrArg (· + 1) (ih (n + 1))
      | _ => exact ih (n + 1)

/-- The labels in lines of code with their addresses, if the first instruction gets `next`. -/
def lineLabels (next : Nat) : List Line → List (Text × Nat)
  | [] => []
  | .comment _ :: lines => lineLabels next lines
  | .label name :: lines => (name, next) :: lineLabels next lines
  | .instruction _ :: lines => lineLabels (next + 1) lines

theorem labelAddresses_numbered (lines : List Line) (next n : Nat) :
    labelAddresses next (numbered n lines) = lineLabels next lines := by
  induction lines generalizing next n with
  | nil => rfl
  | cons l lines ih =>
      cases l with
      | comment t => exact ih next (n + 1)
      | label name => exact congrArg ((name, next) :: ·) (ih next (n + 1))
      | instruction i => cases i <;> exact ih (next + 1) (n + 1)

theorem map_fst_lineLabels (lines : List Line) (next : Nat) :
    (lineLabels next lines).map Prod.fst = codeLabels lines := by
  induction lines generalizing next with
  | nil => rfl
  | cons l lines ih =>
      cases l with
      | comment t => exact ih next
      | label name => exact congrArg (name :: ·) (ih next)
      | instruction i => exact ih (next + 1)

theorem mem_lineLabels (before after : List Line) (name : Text) (next : Nat) :
    (name, next + before.countP Line.occupiesRom) ∈
      lineLabels next (before ++ .label name :: after) := by
  induction before generalizing next with
  | nil => exact List.mem_cons_self
  | cons l before ih =>
      cases l with
      | comment t => exact ih next
      | label other => exact List.mem_cons_of_mem _ (ih next)
      | instruction i =>
          rw [countP_instruction_cons, Nat.add_comm _ 1, ← Nat.add_assoc]
          exact ih (next + 1)

/-! ## A new assembler -/

theorem contains_new (t : Text) :
    Assembler.new.symbols.contains t = (predefined.map Prod.fst).contains t :=
  Std.HashMap.contains_ofList

theorem lookup_new {r : Text × Word} (h : r ∈ predefined) :
    Assembler.new.symbols[r.1]? = some r.2 := by
  have hdistinct : predefined.Pairwise fun a b => (a.1 == b.1) = false := by decide
  exact Std.HashMap.getElem?_ofList_of_mem BEq.rfl hdistinct h

/-- What is bound after the first pass over lines of code. -/
def labelBindings (lines : List Line) : Bindings :=
  (Assembler.bindLabels Assembler.new.symbols 0 (numbered 1 lines)).1

/-- The symbols that become variables, in the order of their addresses. -/
def codeVariables (lines : List Line) : List Text :=
  Assembler.newVariables (labelBindings lines) (numbered 1 lines)

/-- Words and bindings that belong to lines of code. -/
structure Image (lines : List Line) (symbols : Bindings) (words : List Word) : Prop where
  words : words.map some = (codeInstructions lines).map (Instruction.word? symbols)
  label : ∀ before name after, lines = before ++ .label name :: after →
    symbols[name]? = some (BitVec.ofNat 16 (before.countP Line.occupiesRom))
  predefined : ∀ r ∈ predefined, symbols[r.1]? = some r.2
  allocated : ∀ t k, (codeVariables lines).idxOf? t = some k →
    symbols[t]? = some (BitVec.ofNat 16 (16 + k))

/-- The first pass succeeds if no label is bound twice or predefined and the code fits. -/
theorem bindLabels_numbered (lines : List Line) :
    (Assembler.bindLabels Assembler.new.symbols 0 (numbered 1 lines)).2 = none ↔
      (codeLabels lines).Nodup ∧ (∀ name ∈ codeLabels lines, name ∉ predefined.map Prod.fst) ∧
        lines.countP Line.occupiesRom ≤ programSize := by
  have hfree : ∀ name, Assembler.new.symbols.contains name = false ↔
      name ∉ predefined.map Prod.fst := by
    intro name
    rw [contains_new, Bool.eq_false_iff, Ne, List.contains_iff_mem]
  rw [Assembler.bindLabels_eq_none_iff _ _ _ (Nat.zero_le _), labelAddresses_numbered,
    map_fst_lineLabels, length_instructionsOf_numbered, Nat.zero_add]
  simp only [hfree]

section

variable {lines : List Line} (hread : ∀ l ∈ lines, l.Readable)
  (hnodup : (codeLabels lines).Nodup)
  (hnew : ∀ name ∈ codeLabels lines, name ∉ predefined.map Prod.fst)

include hnodup hnew in
theorem bindLabels_lines :
    (Assembler.bindLabels Assembler.new.symbols 0 (numbered 1 lines)).2 = none ↔
      lines.countP Line.occupiesRom ≤ programSize := by
  rw [bindLabels_numbered]
  exact ⟨fun h => h.2.2, fun h => ⟨hnodup, hnew, h⟩⟩

include hread in
/-- Code that is accepted has passed the first pass. -/
theorem labels_of_assemble {a : Assembler} {p : Program}
    (h : Assembler.new.assemble (render lines) = (a, .ok p)) :
    (codeLabels lines).Nodup ∧ (∀ name ∈ codeLabels lines, name ∉ predefined.map Prod.fst) ∧
      lines.countP Line.occupiesRom ≤ programSize := by
  rw [← bindLabels_numbered]
  by_contra hpass
  obtain ⟨e, he⟩ := Option.ne_none_iff_exists'.mp hpass
  have herror := Assembler.assemble_of_some (statements_render lines hread) he
  rw [h] at herror
  cases herror

include hread hnodup hnew

/-- Code that does not fit is refused. -/
theorem assemble_too_large (hlarge : programSize < lines.countP Line.occupiesRom) :
    ∃ e, (Assembler.new.assemble (render lines)).2 = .error e := by
  have hpass := mt (bindLabels_lines hnodup hnew).mp (by omega)
  obtain ⟨e, he⟩ := Option.ne_none_iff_exists'.mp hpass
  exact ⟨e, Assembler.assemble_of_some (statements_render lines hread) he⟩

/-- **Code that fits is accepted**, and the result is its image. -/
theorem assemble_render (hsmall : ∀ l ∈ lines, l.LoadsBelow programSize)
    (hfit : lines.countP Line.occupiesRom ≤ programSize) :
    ∃ a p, Assembler.new.assemble (render lines) = (a, .ok p) ∧
      Image lines a.symbols p.words.toList := by
  have hpass := (bindLabels_lines hnodup hnew).mpr hfit
  obtain ⟨hlegal, -⟩ := instructionsOf_numbered lines hread hsmall 1 ∅
  obtain ⟨p, hmake, hwords, -⟩ :=
    Assembler.makeWords_of_legal (a := ⟨labelBindings lines, 16⟩) hlegal ⟨#[], #[]⟩
  have halloc := Assembler.allocated_useAll (labelBindings lines) (numbered 1 lines)
  have hkeep := Assembler.extends_useAll ⟨labelBindings lines, 16⟩ (numbered 1 lines)
  refine ⟨Assembler.useAll ⟨labelBindings lines, 16⟩ (numbered 1 lines), p, ?_, ?_, ?_, ?_, ?_⟩
  · rw [Assembler.assemble_of_none (statements_render lines hread) hpass]
    exact hmake
  · rw [hwords, (instructionsOf_numbered lines hread hsmall 1 _).2]
    rfl
  · -- the second pass only adds to what the first has bound
    rintro before name after rfl
    apply hkeep
    apply Assembler.bindLabels_of_mem hpass (Nat.zero_le _)
    rw [labelAddresses_numbered]
    simpa using mem_lineLabels before after name 0
  · intro r hr
    apply hkeep
    show (labelBindings lines)[r.1]? = _
    rw [labelBindings, Assembler.bindLabels_of_notMem, lookup_new hr]
    rw [labelAddresses_numbered, map_fst_lineLabels]
    exact fun hm => hnew _ hm (List.mem_map_of_mem hr)
  · intro t k hk
    have hmem : t ∈ codeVariables lines := by
      rw [← List.isSome_idxOf?, hk]
      rfl
    rw [halloc.lookup, halloc.fresh t hmem]
    show ((codeVariables lines).idxOf? t).map _ = _
    rw [hk]
    rfl

end

/-! ## Code at an address -/

/-- The words from the address `start` on are those of `code`. -/
def CodeAt (symbols : Bindings) (words : List Word) (start : Nat) (code : List Instruction) :
    Prop :=
  ∀ j i, code[j]? = some i → ∃ w, i.word? symbols = some w ∧ words[start + j]? = some w

theorem CodeAt.append_iff {symbols : Bindings} {words : List Word} {start : Nat}
    {first second : List Instruction} :
    CodeAt symbols words start (first ++ second) ↔
      CodeAt symbols words start first ∧ CodeAt symbols words (start + first.length) second := by
  constructor
  · intro h
    refine ⟨fun j i hj => ?_, fun j i hj => ?_⟩
    · refine h j i ?_
      rw [List.getElem?_append_left (List.getElem?_eq_some_iff.mp hj).1, hj]
    · have hshift := h (first.length + j) i (by
        rw [List.getElem?_append_right (Nat.le_add_right _ _), Nat.add_sub_cancel_left, hj])
      rwa [← Nat.add_assoc] at hshift
  · rintro ⟨hfirst, hsecond⟩ j i hj
    by_cases hlt : j < first.length
    · rw [List.getElem?_append_left hlt] at hj
      exact hfirst j i hj
    · rw [List.getElem?_append_right (by omega)] at hj
      have hshift := hsecond _ i hj
      rwa [Nat.add_assoc, Nat.add_sub_cancel' (by omega)] at hshift

theorem Image.length {lines : List Line} {symbols : Bindings} {words : List Word}
    (h : Image lines symbols words) : words.length = lines.countP Line.occupiesRom := by
  have hlength := congrArg List.length h.words
  rwa [List.length_map, List.length_map, length_codeInstructions] at hlength

theorem Image.codeAt_zero {lines : List Line} {symbols : Bindings} {words : List Word}
    (h : Image lines symbols words) : CodeAt symbols words 0 (codeInstructions lines) := by
  intro j i hj
  have hword : (words.map some)[j]? = some (i.word? symbols) := by
    rw [h.words, List.getElem?_map, hj]
    rfl
  rw [List.getElem?_map, Option.map_eq_some_iff] at hword
  obtain ⟨w, hw, hsome⟩ := hword
  exact ⟨w, hsome.symm, by rwa [Nat.zero_add]⟩

/-- The instructions of a part of the lines lie behind those of the lines before it. -/
theorem Image.codeAt {before part after : List Line} {symbols : Bindings} {words : List Word}
    (h : Image (before ++ part ++ after) symbols words) :
    CodeAt symbols words (before.countP Line.occupiesRom) (codeInstructions part) := by
  have hall := h.codeAt_zero
  rw [codeInstructions_append, codeInstructions_append, CodeAt.append_iff,
    CodeAt.append_iff] at hall
  rw [← length_codeInstructions]
  simpa using hall.1.2

end HackStack.Assembly
