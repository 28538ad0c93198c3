import HackStack.Proofs.Lowering.Mention
import HackStack.Proofs.Vm.Accepted

/-!
# Generated code is legible to the assembler

A valid command has code (`block_of_isValid`). `loads_block` says what this code loads: registers,
symbols that the command mentions, and numbers that are not too large for the assembler as long as
the program fits into its memory. The numbers that need the last condition are the two jump targets
of a comparison, which depend on the program address of the block. For whole runs this gives
`legible_run`, all lines can be read, and `loads_run`.
-/

namespace HackStack.Assembly

/-- A line that is readable and loads only numbers below `limit`. -/
def Line.Legible (limit : Nat) (l : Line) : Prop := l.Readable ∧ l.LoadsBelow limit

namespace Instruction

/-- An instruction that loads only symbols that are `ok` and numbers below `limit`. -/
def Loads (ok : Text → Prop) (limit : Nat) : Instruction → Prop
  | load (.symbol name) => ok name
  | load (.number n) => 0 ≤ n ∧ n < limit
  | compute _ _ _ => True

variable {ok : Text → Prop} {limit : Nat}

@[simp] theorem loads_symbol {name : Text} : (symbol name).Loads ok limit ↔ ok name := Iff.rfl

@[simp] theorem loads_number {n : Int} : (number n).Loads ok limit ↔ 0 ≤ n ∧ n < limit := Iff.rfl

@[simp] theorem loads_setA (c : Comp) : (setA c).Loads ok limit := trivial

@[simp] theorem loads_setD (c : Comp) : (setD c).Loads ok limit := trivial

@[simp] theorem loads_setM (c : Comp) : (setM c).Loads ok limit := trivial

@[simp] theorem loads_setAM (c : Comp) : (setAM c).Loads ok limit := trivial

@[simp] theorem loads_jumpOn (c : Comp) (j : Jump) : (jumpOn c j).Loads ok limit := trivial

@[simp] theorem loads_jump : jump.Loads ok limit := trivial

/-- An instruction that loads a proper symbol or a small number stands on a legible line. -/
theorem legible_of_loads {i : Instruction} (h : i.Loads (isPlainSymbol · = true) limit) :
    (Line.instruction i).Legible limit := by
  match i, h with
  | load (.symbol name), h => exact ⟨h, trivial⟩
  | load (.number n), h => exact h
  | compute _ _ _, _ => exact ⟨trivial, trivial⟩

end Instruction

end HackStack.Assembly

namespace HackStack.Lowering

open HackStack.Assembly
open HackStack.Vm

/-! ## Symbols -/

theorem isSymbolByte_of_isNamePart {b : UInt8} (h : isNamePart b = true) :
    isSymbolByte b = true := by
  simp only [isNamePart, isNameStart, isSymbolByte, Bool.or_eq_true] at h ⊢
  tauto

theorem isSymbolByte_of_isDigit {b : UInt8} (h : Text.isDigit b = true) :
    isSymbolByte b = true := by
  simp only [isSymbolByte, Bool.or_eq_true]
  tauto

theorem not_isDigit_of_isNameStart : ∀ n < 256, isNameStart n.toUInt8 = true →
    Text.isDigit n.toUInt8 = false := by
  decide +kernel

/-- An identifier, continued in any way by bytes of symbols, is a symbol. -/
theorem isPlainSymbol_append {t rest : Text} (h : isIdentifier t = true)
    (hrest : ∀ b ∈ rest, isSymbolByte b = true) : isPlainSymbol (t ++ rest) = true := by
  have hbytes : ∀ b ∈ t, isSymbolByte b = true := fun b hb =>
    isSymbolByte_of_isNamePart (isNamePart_of_mem h hb)
  cases t with
  | nil => cases h
  | cons b t =>
      rw [isIdentifier, Bool.and_eq_true] at h
      have hdigit := not_isDigit_of_isNameStart b.toNat b.toNat_lt
      rw [show b.toNat.toUInt8 = b from UInt8.ofNat_toNat] at hdigit
      refine isPlainSymbol_iff.mpr ⟨b, t ++ rest, rfl, hdigit h.1, ?_⟩
      intro c hc
      rcases List.mem_append.mp hc with hc | hc
      · exact hbytes c hc
      · exact hrest c hc

theorem isPlainSymbol_of_isIdentifier {t : Text} (h : isIdentifier t = true) :
    isPlainSymbol t = true := by
  have happend := @isPlainSymbol_append t [] h (by simp)
  rwa [List.append_nil] at happend

theorem isSymbolByte_ofNat (n : Nat) : ∀ b ∈ Text.ofNat n, isSymbolByte b = true := fun b hb =>
  isSymbolByte_of_isDigit (List.all_eq_true.mp (Text.all_isDigit_ofNat n) b hb)

/-- Symbols of generated code can be written and read. -/
theorem isPlainSymbol_text {s : CodeSymbol} (h : s.Admissible) : isPlainSymbol s.text = true := by
  cases s with
  | cell unit index =>
      rw [CodeSymbol.text, cellSymbol_eq]
      exact isPlainSymbol_append h
        (List.forall_mem_cons.mpr ⟨by decide, isSymbolByte_ofNat index⟩)
  | label scope name =>
      rw [CodeSymbol.text, labelSymbol_eq]
      exact isPlainSymbol_append h.1 (List.forall_mem_cons.mpr ⟨by decide, fun b hb =>
        isSymbolByte_of_isNamePart (isNamePart_of_mem h.2 hb)⟩)
  | back scope number =>
      rw [CodeSymbol.text, returnSymbol_eq]
      have hret : ∀ b ∈ ("ret" : Text), isSymbolByte b = true := by decide +kernel
      exact isPlainSymbol_append h (List.forall_mem_cons.mpr ⟨by decide,
        List.forall_mem_append.mpr ⟨hret,
          List.forall_mem_cons.mpr ⟨by decide, isSymbolByte_ofNat number⟩⟩⟩)
  | function name => exact isPlainSymbol_of_isIdentifier (isIdentifier_of_isFunctionName h)

theorem isPlainSymbol_predefined : ∀ r ∈ predefined, isPlainSymbol r.1 = true := by
  decide

/-! ## Blocks -/

section

variable {ok : Text → Prop} {limit : Nat} (hregs : ∀ r ∈ predefined, ok r.1)
include hregs

theorem ok_registers :
    ok "SP" ∧ ok "LCL" ∧ ok "ARG" ∧ ok "THIS" ∧ ok "THAT" ∧ ok "R13" ∧ ok "R14" ∧ ok "R15" :=
  ⟨hregs ("SP", 0) (by decide), hregs ("LCL", 1) (by decide), hregs ("ARG", 2) (by decide),
    hregs ("THIS", 3) (by decide), hregs ("THAT", 4) (by decide), hregs ("R13", 13) (by decide),
    hregs ("R14", 14) (by decide), hregs ("R15", 15) (by decide)⟩

theorem loads_pushFromD : ∀ i ∈ pushFromD, i.Loads ok limit := by
  simp [pushFromD, ok_registers hregs]

theorem loads_popToD : ∀ i ∈ popToD, i.Loads ok limit := by
  simp [popToD, ok_registers hregs]

theorem loads_topCell : ∀ i ∈ topCell, i.Loads ok limit := by
  simp [topCell, ok_registers hregs]

omit hregs in
theorem loads_truthBlock {start : Nat} (jump : Jump) (h : start + 6 < limit) :
    ∀ i ∈ truthBlock start jump, i.Loads ok limit := by
  simp only [truthBlock, List.forall_mem_cons, Instruction.loads_number,
    Instruction.loads_jumpOn, Instruction.loads_setD, Instruction.loads_jump, List.not_mem_nil,
    false_implies, implies_true, and_true, true_and]
  omega

theorem loads_unaryBlock (c : Comp) : ∀ i ∈ unaryBlock c, i.Loads ok limit := by
  simp only [unaryBlock, List.forall_mem_append]
  exact ⟨loads_topCell hregs, by simp⟩

theorem loads_binaryBlock (c : Comp) : ∀ i ∈ binaryBlock c, i.Loads ok limit := by
  simp only [binaryBlock, List.forall_mem_append]
  exact ⟨⟨loads_popToD hregs, loads_topCell hregs⟩, by simp⟩

theorem loads_comparisonBlock {start : Nat} (jump : Jump) (h : start + 16 ≤ limit) :
    ∀ i ∈ comparisonBlock start jump, i.Loads ok limit := by
  simp only [comparisonBlock, List.forall_mem_append]
  exact ⟨⟨⟨⟨⟨loads_popToD hregs, loads_topCell hregs⟩, by simp⟩, loads_truthBlock jump (by omega)⟩,
    loads_topCell hregs⟩, by simp⟩

theorem loads_arithmeticBlock {start : Nat} (op : Op)
    (h : start + (Command.arithmetic op).size ≤ limit) :
    ∀ i ∈ arithmeticBlock start op, i.Loads ok limit := by
  cases op with
  | eq => exact loads_comparisonBlock hregs .jeq h
  | gt => exact loads_comparisonBlock hregs .jgt h
  | lt => exact loads_comparisonBlock hregs .jlt h
  | neg => exact loads_unaryBlock hregs .negM
  | not => exact loads_unaryBlock hregs .notM
  | add => exact loads_binaryBlock hregs .dPlusM
  | sub => exact loads_binaryBlock hregs .mMinusD
  | and => exact loads_binaryBlock hregs .dAndM
  | or => exact loads_binaryBlock hregs .dOrM

/-- A place whose operands are `ok` symbols and numbers below `limit`. -/
def Place.Loads (ok : Text → Prop) (limit : Nat) : Place → Prop
  | immediate value => 0 ≤ value ∧ value < limit
  | offset base index => ok base ∧ 0 ≤ index ∧ index < limit
  | fixed address => (Instruction.load address).Loads ok limit

theorem loads_place {unit : Text} {s : Segment} {i : Int} {p : Place}
    (hcell : s = .static → ok (cellSymbol unit i)) (hi : s.hasIndex i = true)
    (hlimit : programSize ≤ limit) (hp : place unit s i = .ok p) : p.Loads ok limit := by
  have hrange : 0 ≤ i ∧ i < limit := by
    simp only [Segment.hasIndex, Bool.and_eq_true, decide_eq_true_eq] at hi
    have hlast : s.lastIndex ≤ largestIndex := by cases s <;> decide
    have hsize : largestIndex < programSize := by decide
    omega
  obtain ⟨-, hlcl, harg, hthis, hthat, -, -, -⟩ := ok_registers hregs
  have hregister : (12 : Nat) < programSize := by decide
  cases s with
  | constant =>
      cases hp
      exact hrange
  | «local» =>
      cases hp
      exact ⟨hlcl, hrange⟩
  | argument =>
      cases hp
      exact ⟨harg, hrange⟩
  | this =>
      cases hp
      exact ⟨hthis, hrange⟩
  | that =>
      cases hp
      exact ⟨hthat, hrange⟩
  | temp =>
      simp only [place] at hp
      split at hp
      · cases hp
        show 0 ≤ tempStart + i ∧ tempStart + i < limit
        rw [tempStart]
        omega
      · cases hp
  | pointer =>
      simp only [place] at hp
      split at hp
      · cases hp
        show 0 ≤ pointerStart + i ∧ pointerStart + i < limit
        rw [pointerStart]
        omega
      · cases hp
  | static =>
      cases hp
      exact hcell rfl

omit hregs in
theorem Place.Loads.read {p : Place} (h : p.Loads ok limit) : ∀ i ∈ p.read, i.Loads ok limit := by
  cases p with
  | immediate value => simpa [Place.read, Place.Loads] using h
  | offset base index => simpa [Place.read, Place.Loads] using h
  | fixed address => simpa [Place.read, Place.Loads] using h

omit hregs in
theorem Place.Loads.address {p : Place} {code : List Instruction} (h : p.Loads ok limit)
    (hcode : p.address = .ok code) : ∀ i ∈ code, i.Loads ok limit := by
  cases p with
  | immediate value => cases hcode
  | offset base index =>
      cases hcode
      simpa [Place.Loads] using h
  | fixed address =>
      cases hcode
      simpa [Place.Loads] using h

theorem loads_pushBlock {p : Place} (h : p.Loads ok limit) :
    ∀ i ∈ pushBlock p, i.Loads ok limit := by
  rw [pushBlock, List.forall_mem_append]
  exact ⟨h.read, loads_pushFromD hregs⟩

theorem loads_popCode {p : Place} {address : List Instruction} (h : p.Loads ok limit)
    (ha : p.address = .ok address) : ∀ i ∈ popCode address, i.Loads ok limit := by
  simp only [popCode, List.forall_mem_append]
  exact ⟨⟨⟨h.address ha, by simp [ok_registers hregs]⟩, loads_popToD hregs⟩,
    by simp [ok_registers hregs]⟩

theorem loads_saveRegister {register : Text} (h : ok register) :
    ∀ i ∈ saveRegister register, i.Loads ok limit := by
  rw [saveRegister, List.forall_mem_append]
  exact ⟨by simp [h], loads_pushFromD hregs⟩

theorem loads_callCode {back function : Text} {args : Int} (hlimit : programSize ≤ limit)
    (hback : ok back) (hfunction : ok function)
    (hargs : 0 ≤ args ∧ args < limit) : ∀ i ∈ callCode back function args, i.Loads ok limit := by
  obtain ⟨hsp, hlcl, harg, hthis, hthat, -, -, -⟩ := ok_registers hregs
  have hframe : ((frameSize : Nat) : Int) < limit := by
    have hsize : frameSize < programSize := by decide
    omega
  simp only [callCode, List.forall_mem_append]
  refine ⟨⟨⟨⟨⟨⟨⟨⟨?_, loads_pushFromD hregs⟩, loads_saveRegister hregs hlcl⟩,
    loads_saveRegister hregs harg⟩, loads_saveRegister hregs hthis⟩,
    loads_saveRegister hregs hthat⟩, ?_⟩, ?_⟩, ?_⟩
  · simp [hback]
  · simp [hsp, harg, hargs, hframe]
  · simp [hsp, hlcl]
  · simp [hfunction]

theorem loads_restoreRegister {register : Text} {depth : Nat}
    (h : ok register) (hdepth : depth < limit) :
    ∀ i ∈ restoreRegister register depth, i.Loads ok limit := by
  obtain ⟨-, -, -, -, -, -, h14, -⟩ := ok_registers hregs
  simp [restoreRegister, h, h14, hdepth]

theorem loads_returnBlock (hlimit : programSize ≤ limit) :
    ∀ i ∈ returnBlock, i.Loads ok limit := by
  obtain ⟨hsp, hlcl, harg, hthis, hthat, -, h14, h15⟩ := ok_registers hregs
  have hsmall : 5 < limit := by
    have hsize : 5 < programSize := by decide
    omega
  have hframe : ((frameSize : Nat) : Int) < limit := by
    have hsize : frameSize < programSize := by decide
    omega
  simp only [returnBlock, List.forall_mem_append]
  refine ⟨⟨⟨⟨⟨⟨⟨⟨⟨?_, ?_⟩, loads_popToD hregs⟩, ?_⟩, ?_⟩,
    loads_restoreRegister hregs hthat (by omega)⟩, loads_restoreRegister hregs hthis (by omega)⟩,
    loads_restoreRegister hregs harg (by omega)⟩, loads_restoreRegister hregs hlcl (by omega)⟩, ?_⟩
  · simp [hlcl, h14]
  · simp [h15, hframe]
  · simp [harg]
  · simp [harg, hsp]
  · simp [h15]

theorem loads_functionCode {locals : Int} (h : locals < limit) :
    ∀ i ∈ functionCode locals, i.Loads ok limit := by
  obtain ⟨hsp, hlcl, -, -, -, -, -, -⟩ := ok_registers hregs
  rw [functionCode, List.forall_mem_append]
  constructor
  · intro i hi
    obtain ⟨k, hk, hi⟩ := List.mem_flatMap.mp hi
    have hklimit : (k : Int) < limit := by
      have := List.mem_range.mp hk
      omega
    have hclear : ∀ i ∈ clearLocal k, i.Loads ok limit := by
      simp [clearLocal, hlcl, hklimit]
    exact hclear i hi
  · split
    · next hpos => simp [skipLocals, hlcl, hsp, h, Int.le_of_lt hpos]
    · simp

theorem loads_startBlock (h : (stackStart : Int) < limit) :
    ∀ i ∈ startBlock, i.Loads ok limit := by
  simp [startBlock, ok_registers hregs, h]

end

namespace Generator

theorem not_unplaced_of_isValid {c : Command} (h : c.isValid = true) : ¬c.Unplaced := by
  have hindex : ∀ (s : Segment) i, s.hasIndex i = true → ¬s.Lacks i := by
    intro s i hi
    rw [Segment.hasIndex, Bool.and_eq_true, decide_eq_true_eq, decide_eq_true_eq] at hi
    rintro (⟨rfl, hrange⟩ | ⟨rfl, hrange⟩)
    · exact hrange hi
    · exact hrange hi
  cases c with
  | push s i => exact hindex s i h
  | pop s i =>
      rw [Command.isValid, Bool.and_eq_true, bne_iff_ne] at h
      rintro (hs | hlacks)
      · exact h.1 hs
      · exact hindex s i h.2 hlacks
  | _ => exact not_false

/-- **A valid command has code.** -/
theorem block_of_isValid (e : Generator) {c : Command} (h : c.isValid = true) :
    ∃ lines, e.block c = .ok lines :=
  exists_block_iff.mpr (not_unplaced_of_isValid h)

/-- The code of a valid command loads the registers, the symbols that the command mentions, and
numbers that are small if the program memory holds the code. -/
theorem loads_block {e : Generator} {a : Action} {c : Command} {lines : List Line}
    {ok : Text → Prop} {limit : Nat} (ha : a.command? = some c) (hc : c.isValid = true)
    (hregs : ∀ r ∈ predefined, ok r.1) (hmentions : ∀ s ∈ e.mentions a, ok s.text)
    (hlimit : programSize ≤ limit) (hfit : e.counter + c.size ≤ limit)
    (h : e.block c = .ok lines) : ∀ i ∈ codeInstructions lines, i.Loads ok limit := by
  have hcount : ∀ n, isCount n = true → 0 ≤ n ∧ n < limit := by
    intro n hn
    simp only [isCount, Bool.and_eq_true, decide_eq_true_eq] at hn
    have hsize : largestIndex < programSize := by decide
    omega
  have hcell : ∀ s i, c = .push s i ∨ c = .pop s i → s.hasIndex i = true → s = .static →
      ok (cellSymbol e.unit i) := by
    rintro s i hcase hi rfl
    have hmention : CodeSymbol.cell e.unit i.toNat ∈ e.mentions a := by
      rw [mentions, ha]
      rcases hcase with rfl | rfl <;> exact List.mem_cons_self
    have hok := hmentions _ hmention
    rw [Segment.hasIndex, Bool.and_eq_true, decide_eq_true_eq] at hi
    rwa [CodeSymbol.text, Int.toNat_of_nonneg hi.1] at hok
  rw [mentions, ha] at hmentions
  cases c with
  | arithmetic op =>
      cases h
      rw [codeInstructions_instructions]
      exact loads_arithmeticBlock hregs op hfit
  | push s i =>
      obtain ⟨p, hp, rfl⟩ := block_push h
      rw [codeInstructions_instructions]
      exact loads_pushBlock hregs (loads_place hregs (hcell s i (.inl rfl) hc) hc hlimit hp)
  | pop s i =>
      obtain ⟨p, address, hp, haddress, rfl⟩ := block_pop h
      rw [Command.isValid, Bool.and_eq_true] at hc
      rw [codeInstructions_instructions]
      exact loads_popCode hregs (loads_place hregs (hcell s i (.inr rfl) hc.2) hc.2 hlimit hp)
        haddress
  | label name =>
      cases h
      exact fun i hi => (List.not_mem_nil hi).elim
  | goto name =>
      cases h
      rw [codeInstructions_instructions]
      have hlabel : ok (labelSymbol e.scope name) := hmentions _ List.mem_cons_self
      simp [gotoBlock, hlabel]
  | ifGoto name =>
      cases h
      rw [codeInstructions_instructions, ifGotoBlock, List.forall_mem_append]
      have hlabel : ok (labelSymbol e.scope name) := hmentions _ List.mem_cons_self
      exact ⟨loads_popToD hregs, by simp [hlabel]⟩
  | call name args =>
      cases h
      rw [Command.isValid, Bool.and_eq_true] at hc
      obtain ⟨hback, hname⟩ := List.forall_mem_cons.mp hmentions
      rw [callBlock, codeInstructions_append, codeInstructions_instructions]
      show ∀ i ∈ callCode _ name args ++ [], i.Loads ok limit
      rw [List.append_nil]
      exact loads_callCode hregs hlimit hback (hname _ List.mem_cons_self) (hcount _ hc.2)
  | function name locals =>
      cases h
      rw [Command.isValid, Bool.and_eq_true] at hc
      rw [functionBlock]
      show ∀ i ∈ codeInstructions ((functionCode locals).map .instruction), i.Loads ok limit
      rw [codeInstructions_instructions]
      exact loads_functionCode hregs (hcount _ hc.2).2
  | ret =>
      cases h
      rw [codeInstructions_instructions]
      exact loads_returnBlock hregs hlimit

theorem comment_notMem_block {e : Generator} {c : Command} {lines : List Line}
    (h : e.block c = .ok lines) (t : Text) : .comment t ∉ lines := by
  have hcode : ∀ code : List Instruction, .comment t ∉ code.map Line.instruction := by
    intro code hmem
    obtain ⟨i, -, hi⟩ := List.mem_map.mp hmem
    cases hi
  cases c with
  | push s i =>
      obtain ⟨p, -, rfl⟩ := block_push h
      exact hcode _
  | pop s i =>
      obtain ⟨p, address, -, -, rfl⟩ := block_pop h
      exact hcode _
  | label name =>
      cases h
      simp
  | call name args =>
      cases h
      rw [callBlock, List.mem_append, not_or]
      exact ⟨hcode _, by simp⟩
  | function name locals =>
      cases h
      rw [functionBlock, List.mem_cons, not_or]
      exact ⟨by simp, hcode _⟩
  | _ =>
      cases h
      exact hcode _

/-- The code of a valid command is legible if the program memory holds it. -/
theorem legible_block {e : Generator} {a : Action} {c : Command} {lines : List Line} {limit : Nat}
    (he : e.Named) (hnamed : a.isNamed = true) (ha : a.command? = some c) (hc : c.isValid = true)
    (hlimit : programSize ≤ limit) (hfit : e.counter + c.size ≤ limit)
    (h : e.block c = .ok lines) : ∀ l ∈ lines, l.Legible limit := by
  have hmentions : ∀ s ∈ e.mentions a, isPlainSymbol s.text = true := fun s hs =>
    isPlainSymbol_text (he.mentions hnamed hs)
  have hloads : ∀ i ∈ codeInstructions lines, i.Loads (isPlainSymbol · = true) limit :=
    loads_block ha hc isPlainSymbol_predefined hmentions hlimit hfit h
  have hlabels : codeLabels lines = (e.defines a).map CodeSymbol.text := by
    rw [← codeLabels_lines, Generator.lines, codeLabels_append, codeLabels_remarkLines,
      blockLines_of_command ha, h]
    rfl
  intro l hl
  cases l with
  | comment t => exact absurd hl (comment_notMem_block h t)
  | label name =>
      have hname : name ∈ codeLabels lines := mem_codeLabels.mpr hl
      rw [hlabels] at hname
      obtain ⟨s, hs, rfl⟩ := List.mem_map.mp hname
      exact ⟨hmentions s (defines_subset_mentions e a hs), trivial⟩
  | instruction i => exact Instruction.legible_of_loads (hloads i (mem_codeInstructions.mpr hl))

/-! ## Comments -/

theorem lineFeed_notMem_ofInt (n : Int) : Text.lineFeed ∉ Text.ofInt n := by
  have hdigits : Text.lineFeed ∉ Text.ofNat n.natAbs := fun hm =>
    absurd (List.all_eq_true.mp (Text.all_isDigit_ofNat n.natAbs) _ hm) (by decide)
  unfold Text.ofInt
  split
  · rw [List.mem_cons, not_or]
    exact ⟨by decide, hdigits⟩
  · exact hdigits

theorem lineFeed_notMem_name {t : Text} (h : isIdentifier t = true) : Text.lineFeed ∉ t :=
  fun hm => absurd (isNamePart_of_mem h hm) (by decide)

theorem lineFeed_notMem_threeWords {keyword name : Text} (hk : Text.lineFeed ∉ keyword)
    (hname : Text.lineFeed ∉ name) (n : Int) : Text.lineFeed ∉ threeWords keyword name n := by
  have hblank : Text.lineFeed ∉ (" " : Text) := by decide
  simp only [threeWords, List.mem_append, not_or]
  exact ⟨⟨⟨⟨hk, hblank⟩, hname⟩, hblank⟩, lineFeed_notMem_ofInt n⟩

theorem lineFeed_notMem_segment (s : Segment) : Text.lineFeed ∉ s.name := by
  cases s <;> decide

/-- The comment of a valid command stays on its line. -/
theorem lineFeed_notMem_text {c : Command} (h : c.isValid = true) : Text.lineFeed ∉ c.text := by
  have hbranch : ∀ keyword name : Text, Text.lineFeed ∉ keyword → isIdentifier name = true →
      Text.lineFeed ∉ keyword ++ name := by
    intro keyword name hk hname
    rw [List.mem_append, not_or]
    exact ⟨hk, lineFeed_notMem_name hname⟩
  have hfunction : ∀ name : Text, isFunctionName name = true → Text.lineFeed ∉ name :=
    fun name hname => lineFeed_notMem_name (isIdentifier_of_isFunctionName hname)
  cases c with
  | arithmetic op => cases op <;> decide
  | ret => decide
  | push s i => exact lineFeed_notMem_threeWords (by decide) (lineFeed_notMem_segment s) i
  | pop s i => exact lineFeed_notMem_threeWords (by decide) (lineFeed_notMem_segment s) i
  | label name => exact hbranch _ name (by decide) h
  | goto name => exact hbranch _ name (by decide) h
  | ifGoto name => exact hbranch _ name (by decide) h
  | call name n =>
      rw [Command.isValid, Bool.and_eq_true] at h
      exact lineFeed_notMem_threeWords (by decide) (hfunction name h.1) n
  | function name n =>
      rw [Command.isValid, Bool.and_eq_true] at h
      exact lineFeed_notMem_threeWords (by decide) (hfunction name h.1) n

end Generator

/-! ## Valid actions -/

/-- An action that starts a unit with a proper name or asks for a valid command. -/
def Action.Valid : Action → Prop
  | unit name => isIdentifier name = true
  | write r | bare r => ∃ c, r.command? = .ok c ∧ c.isValid = true

theorem isNamed_of_isValid {c : Command} (h : c.isValid = true) : c.isNamed = true := by
  have hindex : ∀ i, Segment.static.hasIndex i = true → decide (0 ≤ i) = true := by
    intro i hi
    rw [Segment.hasIndex, Bool.and_eq_true] at hi
    exact hi.1
  cases c with
  | push s i =>
      cases s with
      | static => exact hindex i h
      | _ => rfl
  | pop s i =>
      rw [Command.isValid, Bool.and_eq_true] at h
      cases s with
      | static => exact hindex i h.2
      | _ => rfl
  | call name n =>
      rw [Command.isValid, Bool.and_eq_true] at h
      exact h.1
  | function name n =>
      rw [Command.isValid, Bool.and_eq_true] at h
      exact h.1
  | label name => exact h
  | goto name => exact h
  | ifGoto name => exact h
  | arithmetic op => rfl
  | ret => rfl

theorem Action.Valid.isNamed {a : Action} (h : a.Valid) : a.isNamed = true := by
  have hrequest : ∀ r : Request, (∃ c, r.command? = .ok c ∧ c.isValid = true) →
      r.command?.toOption.all Command.isNamed = true := by
    rintro r ⟨c, hc, hvalid⟩
    rw [hc]
    exact isNamed_of_isValid hvalid
  cases a with
  | unit name => exact h
  | write r => exact hrequest r h
  | bare r => exact hrequest r h

theorem Action.Valid.isValid {a : Action} (h : a.Valid) {c : Command} (hc : a.command? = some c) :
    c.isValid = true := by
  have hrequest : ∀ r : Request, (∃ c, r.command? = .ok c ∧ c.isValid = true) →
      r.command?.toOption = some c → c.isValid = true := by
    rintro r ⟨c', hc', hvalid⟩ hsome
    rw [hc'] at hsome
    cases hsome
    exact hvalid
  cases a with
  | unit name => cases hc
  | write r => exact hrequest r h hc
  | bare r => exact hrequest r h hc

theorem Action.valid_ofCommand {c : Command} (h : c.isValid = true) : (Action.ofCommand c).Valid :=
  ⟨c, Request.command?_ofCommand c, h⟩

/-- A request for a command is described by the text of the command. -/
theorem Request.text?_of_command? {r : Request} {c : Command} (h : r.command? = .ok c) :
    r.text? = some c.text := by
  cases r with
  | nothing => cases h
  | arithmetic op =>
      simp only [Request.command?] at h
      split at h
      · next o ho =>
          cases h
          rw [Request.text?, Op.nameOfCode, ho]
          rfl
      · cases h
  | push s i =>
      simp only [Request.command?] at h
      split at h
      · next o ho =>
          cases h
          rw [Request.text?, Segment.nameOfCode, ho]
          rfl
      · cases h
  | pop s i =>
      simp only [Request.command?] at h
      split at h
      · next o ho =>
          cases h
          rw [Request.text?, Segment.nameOfCode, ho]
          rfl
      · cases h
  | _ =>
      cases h
      rfl

namespace Generator

theorem legible_remarkLines {e : Generator} {a : Action} (h : a.Valid) (limit : Nat) :
    ∀ l ∈ e.remarkLines a, l.Legible limit := by
  intro l hl
  cases a with
  | unit name => cases hl
  | bare r => cases hl
  | write r =>
      obtain ⟨c, hc, hvalid⟩ := h
      rw [remarkLines, Request.text?_of_command? hc] at hl
      split at hl
      · cases hl
      · rw [List.mem_singleton.mp hl]
        exact ⟨lineFeed_notMem_text hvalid, trivial⟩

theorem blockLines_of_isValid {e : Generator} {a : Action} {c : Command}
    (ha : a.command? = some c) (hc : c.isValid = true) : e.block c = .ok (e.blockLines a) := by
  obtain ⟨lines, hlines⟩ := block_of_isValid e hc
  rw [blockLines_of_command ha, hlines]
  rfl

/-- The counter moves by the size of the command. -/
theorem counter_perform_of_block {e : Generator} {a : Action} {c : Command} {block : List Line}
    (ha : a.command? = some c) (h : e.block c = .ok block) :
    (e.perform a).counter = e.counter + c.size := by
  rw [perform_counter, lines_countP, blockLines_of_command ha, ← countP_block h, h]
  rfl

theorem counter_perform {e : Generator} {a : Action} {c : Command} (ha : a.command? = some c)
    (hc : c.isValid = true) : (e.perform a).counter = e.counter + c.size :=
  counter_perform_of_block ha (blockLines_of_isValid ha hc)

theorem legible_lines {e : Generator} {a : Action} {limit : Nat} (he : e.Named) (ha : a.Valid)
    (hlimit : programSize ≤ limit) (hfit : (e.perform a).counter ≤ limit) :
    ∀ l ∈ e.lines a, l.Legible limit := by
  rw [lines, List.forall_mem_append]
  refine ⟨legible_remarkLines ha limit, ?_⟩
  cases hc : a.command? with
  | none =>
      rw [blockLines_of_none hc]
      simp
  | some c =>
      have hvalid := ha.isValid hc
      rw [counter_perform hc hvalid] at hfit
      exact legible_block he ha.isNamed hc hvalid hlimit hfit (blockLines_of_isValid hc hvalid)

theorem counter_le_perform (e : Generator) (a : Action) : e.counter ≤ (e.perform a).counter := by
  rw [perform_counter]
  exact Nat.le_add_right _ _

theorem counter_le_performAll (e : Generator) (actions : List Action) :
    e.counter ≤ (e.performAll actions).counter := by
  induction actions generalizing e with
  | nil => exact Nat.le_refl _
  | cons a rest ih => exact Nat.le_trans (counter_le_perform e a) (ih (e.perform a))

theorem isValid_call_entry {options : Options} (h : isFunctionName options.entryName = true) :
    (Command.call options.entryName 0).isValid = true := by
  rw [Command.isValid, h]
  rfl

theorem codeInstructions_remarkLines (e : Generator) (a : Action) :
    codeInstructions (e.remarkLines a) = [] := by
  rw [← List.length_eq_zero_iff, length_codeInstructions, countP_remarkLines]

theorem loads_lines {e : Generator} {a : Action} {ok : Text → Prop} {limit : Nat} (ha : a.Valid)
    (hregs : ∀ r ∈ predefined, ok r.1) (hmentions : ∀ s ∈ e.mentions a, ok s.text)
    (hlimit : programSize ≤ limit) (hfit : (e.perform a).counter ≤ limit) :
    ∀ i ∈ codeInstructions (e.lines a), i.Loads ok limit := by
  rw [lines, codeInstructions_append, codeInstructions_remarkLines, List.nil_append]
  cases hc : a.command? with
  | none =>
      rw [blockLines_of_none hc]
      exact fun i hi => (List.not_mem_nil hi).elim
  | some c =>
      have hvalid := ha.isValid hc
      rw [counter_perform hc hvalid] at hfit
      exact loads_block hc hvalid hregs hmentions hlimit hfit (blockLines_of_isValid hc hvalid)

/-! ## Runs -/

theorem counter_le_run (options : Options) (before after : List Action) (a : Action) :
    ((run options before).perform a).counter ≤ (run options (before ++ a :: after)).counter := by
  rw [run_append]
  exact counter_le_performAll ((run options before).perform a) after

theorem stackStart_lt {limit : Nat} (h : programSize ≤ limit) : (stackStart : Int) < limit := by
  have hsize : stackStart < programSize := by decide
  omega

/-- **Legible runs.** -/
theorem legible_run {options : Options} {limit : Nat}
    (hentry : isFunctionName options.entryName = true) (hlimit : programSize ≤ limit)
    (actions : List Action) (hvalid : ∀ a ∈ actions, a.Valid)
    (hfit : (run options actions).counter ≤ limit) :
    ∀ l ∈ (run options actions).code.toList, l.Legible limit := by
  apply forall_code_run
  · intro l hl
    rw [startLines, List.mem_append, List.mem_map] at hl
    rcases hl with hl | ⟨i, hi, rfl⟩
    · split at hl
      · cases hl
      · rw [List.mem_singleton.mp hl]
        exact ⟨show Text.lineFeed ∉ ("bootstrap" : Text) by decide, trivial⟩
    · exact Instruction.legible_of_loads
        (loads_startBlock isPlainSymbol_predefined (stackStart_lt hlimit) i hi)
  · intro hb
    have hnamed : ((initial options).emit (startLines options)).Named :=
      ⟨show isIdentifier standardUnit = true by decide,
        fun name hname => (List.not_mem_nil hname).elim, fun name hname => by cases hname⟩
    refine legible_lines hnamed (Action.valid_ofCommand (isValid_call_entry hentry)) hlimit ?_
    rw [← new_of_bootstrap hb]
    exact Nat.le_trans (counter_le_performAll (new options) actions) hfit
  · rintro before a after rfl
    have hbefore := fun b (hb : b ∈ before) => hvalid b (List.mem_append_left _ hb)
    have hnamed := named_run options before fun b hb => (hbefore b hb).isNamed
    exact legible_lines hnamed (hvalid a (by simp)) hlimit
      (Nat.le_trans (counter_le_run options before after a) hfit)

/-- **What a run loads**: the registers, the symbols that it mentions, and small numbers. -/
theorem loads_run {options : Options} {ok : Text → Prop} {limit : Nat}
    (hentry : isFunctionName options.entryName = true) (hregs : ∀ r ∈ predefined, ok r.1)
    (hlimit : programSize ≤ limit) (actions : List Action) (hvalid : ∀ a ∈ actions, a.Valid)
    (hmentioned : ∀ s ∈ mentioned options actions, ok s.text)
    (hfit : (run options actions).counter ≤ limit) :
    ∀ i ∈ codeInstructions (run options actions).code.toList, i.Loads ok limit := by
  suffices hlines : ∀ l ∈ (run options actions).code.toList, ∀ i, l = .instruction i →
      i.Loads ok limit by
    exact fun i hi => hlines _ (mem_codeInstructions.mp hi) i rfl
  apply forall_code_run
  · rintro l hl i rfl
    rw [startLines, List.mem_append, List.mem_map] at hl
    rcases hl with hl | ⟨j, hj, heq⟩
    · split at hl
      · cases hl
      · cases List.mem_singleton.mp hl
    · cases heq
      exact loads_startBlock hregs (stackStart_lt hlimit) _ hj
  · rintro hb l hl i rfl
    refine loads_lines (Action.valid_ofCommand (isValid_call_entry hentry)) hregs ?_ hlimit ?_ i
      (mem_codeInstructions.mpr hl)
    · intro s hs
      apply hmentioned
      rw [mentioned, if_pos hb]
      exact List.mem_append_left _ hs
    · rw [← new_of_bootstrap hb]
      exact Nat.le_trans (counter_le_performAll (new options) actions) hfit
  · rintro before a after rfl l hl i rfl
    refine loads_lines (hvalid a (by simp)) hregs ?_ hlimit
      (Nat.le_trans (counter_le_run options before after a) hfit) i (mem_codeInstructions.mpr hl)
    intro s hs
    apply hmentioned
    rw [mentioned, mentionsAll_append]
    exact List.mem_append_right _ (List.mem_append_right _ (List.mem_append_left _ hs))

end Generator

end HackStack.Lowering
