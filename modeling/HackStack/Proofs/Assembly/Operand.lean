import HackStack.Proofs.Assembly.Translation
import HackStack.Proofs.Machine.Step

/-!
# Operands that are loaded

An instruction `@operand` is assembled to the number that the operand stands for (`Denotes`), and a
word with bit 15 clear loads itself. Numbers are checked to be that small, and predefined symbols
are. A label behind the last word of a full program memory is not, and neither is a variable that
follows so many others that the data memory is used up (`IsEndLabel`, `IsLateVariable`): their words
have bit 15 set and compute something instead. The main statement says that no other operand goes
wrong.
-/

namespace HackStack.Assembly

open HackStack.Machine

/-- The number that an operand stands for in a text. -/
inductive Denotes (code : Text) : Text → Nat → Prop
  | number {t : Text} (hnumeral : Vm.IsNumeral t) (hle : t.numeralValue ≤ maxConstant) :
      Denotes code t t.numeralValue
  | predefined {r : Text × Word} (hr : r ∈ Assembly.predefined) : Denotes code r.1 r.2.toNat
  /-- A label stands for the number of instruction lines before it. -/
  | label {n : Nat} {t : Text} (ht : (n, Statement.label t) ∈ sourceStatements code) :
      Denotes code t (linesBefore n (instructionLines code)).length
  /-- The variables are counted in the order of their first uses. -/
  | allocated {n : Nat} {t : Text} (ht : (n, t) ∈ variableUses code)
      (hfirst : ∀ m, (m, t) ∈ variableUses code → n ≤ m) :
      Denotes code t (16 + ((linesBefore n (variableUses code)).map Prod.snd).dedup.length)

/-- A symbol is the label of a line behind as many instructions as the program memory holds. -/
def IsEndLabel (code t : Text) : Prop :=
  ∃ n, (n, Statement.label t) ∈ sourceStatements code ∧
    (linesBefore n (instructionLines code)).length = programSize

/-- A symbol is a variable, and those before it take up all addresses below `programSize`. -/
def IsLateVariable (code t : Text) : Prop :=
  ∃ n, (n, t) ∈ variableUses code ∧ (∀ m, (m, t) ∈ variableUses code → n ≤ m) ∧
    programSize ≤ 16 + ((linesBefore n (variableUses code)).map Prod.snd).dedup.length

/-! ## Symbols start with no digit -/

theorem head_symbolName {t : Text} (h : isSymbolName t = true) :
    t.head?.any Text.isDigit = false := by
  have hdigits : ∀ n < 256, Text.isDigit n.toUInt8 = true →
      n < 0x80 ∧ isDecimalDigit (Char.ofNat n) = true := by decide +kernel
  cases t with
  | nil => rfl
  | cons b rest =>
      rw [Bool.eq_false_iff]
      intro hb
      obtain ⟨hlt, hdecimal⟩ := hdigits b.toNat b.toNat_lt
        (by rw [show b.toNat.toUInt8 = b from UInt8.ofNat_toNat]; exact hb)
      rw [isSymbolName, Text.glyphs_cons_of_lt rest hlt] at h
      simp [Glyph.ascii, hdecimal] at h

theorem head_label {code t : Text} {n : Nat}
    (h : (n, Statement.label t) ∈ sourceStatements code) : t.head?.any Text.isDigit = false := by
  obtain ⟨_, _, _, _, _, _, _, _, hname⟩ := label_mem_sourceStatements.mp h
  exact head_symbolName hname

theorem head_variable {code t : Text} {n : Nat} (h : (n, t) ∈ variableUses code) :
    t.head?.any Text.isDigit = false := by
  obtain ⟨⟨s, -, href⟩, -⟩ := mem_variableUses.mp h
  cases s with
  | label name => cases href
  | compute dest comp jump => cases href
  | load operand =>
      rw [Statement.reference?] at href
      split at href
      · cases href
      · next hdigit =>
          cases href
          simpa using hdigit

theorem head_predefined : ∀ r ∈ predefined, r.1.head?.any Text.isDigit = false := by
  decide +kernel

theorem predefined_small : ∀ r ∈ predefined, r.2.toNat < programSize := by
  decide +kernel

/-! ## What an operand is assembled to -/

section

variable {code : Text} {a : Assembler} {p : Program}
  (h : Assembler.new.assemble code = (a, .ok p))
include h

theorem length_instructionsBefore_le (n : Nat) :
    (linesBefore n (instructionLines code)).length ≤ programSize :=
  Nat.le_trans (List.length_filter_le _ _) (labels_of_accepted h).2.2

/-- The variables before a first use are fewer than the instructions. -/
theorem length_variablesBefore_lt {n : Nat} {t : Text} (ht : (n, t) ∈ variableUses code) :
    ((linesBefore n (variableUses code)).map Prod.snd).dedup.length < programSize := by
  obtain ⟨-, -, hfits⟩ := labels_of_accepted h
  have hshorter : (linesBefore n (variableUses code)).length < (variableUses code).length := by
    rw [linesBefore, List.length_filter_lt_length_iff_exists]
    exact ⟨(n, t), ht, by simp⟩
  calc ((linesBefore n (variableUses code)).map Prod.snd).dedup.length
      ≤ ((linesBefore n (variableUses code)).map Prod.snd).length :=
        (List.dedup_sublist _).length_le
    _ = (linesBefore n (variableUses code)).length := List.length_map _
    _ < (variableUses code).length := hshorter
    _ ≤ (instructionLines code).length := length_variableUses_le code
    _ ≤ programSize := hfits

theorem Denotes.lt {t : Text} {v : Nat} (hd : Denotes code t v) : v < programSize + 16 := by
  have hmax : maxConstant < programSize := by decide
  cases hd with
  | number hnumeral hle => omega
  | predefined hr =>
      have hsmall := predefined_small _ hr
      omega
  | label ht => exact Nat.lt_of_le_of_lt (length_instructionsBefore_le h _) (by decide)
  | allocated ht hfirst =>
      have hlt := length_variablesBefore_lt h ht
      omega

/-- An instruction that loads an operand is assembled to the number that it stands for. -/
theorem Denotes.word? {t : Text} {v : Nat} (hd : Denotes code t v) :
    (Statement.load t).word? a.symbols = some (BitVec.ofNat 16 v) := by
  have hsymbol : t.head?.any Text.isDigit = false →
      (Statement.load t).word? a.symbols = a.address? t := by
    intro hhead
    rw [Statement.word?, if_neg (Bool.eq_false_iff.mp hhead)]
    rfl
  cases hd with
  | number hnumeral hle =>
      obtain ⟨hne, hall⟩ := Vm.isNumeral_iff.mp hnumeral
      have hhead : t.head?.any Text.isDigit = true := by
        cases t with
        | nil => exact absurd rfl hne
        | cons b rest => exact List.all_eq_true.mp hall b List.mem_cons_self
      rw [Statement.word?, if_pos hhead, Text.natUpTo?_eq_some_iff.mpr ⟨hne, hall, rfl, hle⟩]
      rfl
  | predefined hr =>
      rw [hsymbol (head_predefined _ hr), predefined_address h hr, BitVec.ofNat_toNat,
        BitVec.setWidth_eq]
  | label ht => rw [hsymbol (head_label ht), label_address h ht]
  | allocated ht hfirst => rw [hsymbol (head_variable ht), variable_address h ht hfirst]

/-- An operand stands for one number only. -/
theorem Denotes.unique {t : Text} {v w : Nat} (hv : Denotes code t v) (hw : Denotes code t w) :
    v = w := by
  have hsize : programSize = 0x8000 := rfl
  have hvlt := hv.lt h
  have hwlt := hw.lt h
  have heq := Option.some.inj ((hv.word? h).symm.trans (hw.word? h))
  have htoNat := congrArg BitVec.toNat heq
  rwa [BitVec.toNat_ofNat, BitVec.toNat_ofNat, Nat.mod_eq_of_lt (by omega),
    Nat.mod_eq_of_lt (by omega)] at htoNat

/-- Every operand stands for a number. -/
theorem exists_denotes {i n : Nat} {operand : Text}
    (hi : (instructionLines code)[i]? = some (n, .load operand)) :
    ∃ v, Denotes code operand v := by
  obtain ⟨-, w, -, hw⟩ := word_of_instructionLine h hi
  have hline : (n, Statement.load operand) ∈ sourceStatements code :=
    List.mem_of_mem_filter (List.mem_of_getElem? hi)
  cases hhead : operand.head?.any Text.isDigit with
  | true =>
      rw [Statement.word?, if_pos hhead, Option.map_eq_some_iff] at hw
      obtain ⟨v, hv, -⟩ := hw
      obtain ⟨hne, hall, rfl, hle⟩ := Text.natUpTo?_eq_some_iff.mp hv
      exact ⟨_, .number (Vm.isNumeral_iff.mpr ⟨hne, hall⟩) hle⟩
  | false =>
      by_cases hpre : operand ∈ predefined.map Prod.fst
      · obtain ⟨r, hr, rfl⟩ := List.mem_map.mp hpre
        exact ⟨_, .predefined hr⟩
      by_cases hlabel : operand ∈ sourceLabels code
      · obtain ⟨⟨m, s⟩, hs, hname⟩ := List.mem_filterMap.mp hlabel
        cases s with
        | label name =>
            cases hname
            exact ⟨_, .label hs⟩
        | load t => cases hname
        | compute dest comp jump => cases hname
      · have hvar : isVariableOf code operand = true := by simp [isVariableOf, hpre, hlabel]
        have huse : ∃ m, (m, operand) ∈ variableUses code :=
          ⟨n, mem_variableUses.mpr
            ⟨⟨.load operand, hline, by rw [Statement.reference?, hhead]; rfl⟩, hvar⟩⟩
        exact ⟨_, .allocated (Nat.find_spec huse) fun m hm => Nat.find_min' huse hm⟩

/-- Only the label at the end and the late variables stand for numbers that are too large. -/
theorem Denotes.le_iff {t : Text} {v : Nat} (hd : Denotes code t v) :
    programSize ≤ v ↔ IsEndLabel code t ∨ IsLateVariable code t := by
  constructor
  · intro hle
    have hmax : maxConstant < programSize := by decide
    cases hd with
    | number hnumeral hsmall => omega
    | predefined hr =>
        have hsmall := predefined_small _ hr
        omega
    | label ht =>
        exact Or.inl ⟨_, ht, Nat.le_antisymm (length_instructionsBefore_le h _) hle⟩
    | allocated ht hfirst => exact Or.inr ⟨_, ht, hfirst, hle⟩
  · rintro (⟨n, ht, hend⟩ | ⟨n, ht, hfirst, hlate⟩)
    · rw [hd.unique h (.label ht), hend]
    · rw [hd.unique h (.allocated ht hfirst)]
      exact hlate

end

/-- The words of operands that are too large name no destination `A`. -/
theorem bit_five_of_large {w : Word} (hle : programSize ≤ w.toNat)
    (hlt : w.toNat < programSize + 16) : w.getLsbD 5 = false := by
  have hbits : ∀ k < 16, (programSize + k).testBit 5 = false := by decide
  obtain ⟨k, hk⟩ := Nat.exists_eq_add_of_le hle
  rw [← BitVec.testBit_toNat, hk]
  exact hbits k (by omega)

/-- **Operands are loaded.** The word for an operand is the number that the operand stands for. A
step at this word loads it and goes on to the next word, unless the operand is the label at the
end of a full program memory or one of the variables that do not fit in the data memory; a step at
these leaves `A` as it was. -/
theorem loads_operand {code : Text} {a : Assembler} {p : Program}
    (h : Assembler.new.assemble code = (a, .ok p)) {i n : Nat} {operand : Text}
    (hi : (instructionLines code)[i]? = some (n, .load operand)) :
    ∃ w : Word, p.words[i]? = some w ∧ Denotes code operand w.toNat ∧
      (w.msb = true ↔ IsEndLabel code operand ∨ IsLateVariable code operand) ∧
      ∀ c : Cpu, c.halted = false → c.rom[c.pc.toNat]? = some w →
        (w.msb = false → c.step = { c with a := w, pc := c.pc + 1, steps := c.steps + 1 }) ∧
        (w.msb = true → c.step.a = c.a) := by
  have hsize : programSize = 0x8000 := rfl
  obtain ⟨-, w, hword, hw⟩ := word_of_instructionLine h hi
  obtain ⟨v, hd⟩ := exists_denotes h hi
  have hlt := hd.lt h
  have htoNat : w.toNat = v := by
    rw [Option.some.inj (hw.symm.trans (hd.word? h)), BitVec.toNat_ofNat,
      Nat.mod_eq_of_lt (by omega)]
  have hmsb : w.msb = true ↔ programSize ≤ v := by
    rw [BitVec.msb_eq_decide, decide_eq_true_eq, htoNat, hsize]
  refine ⟨w, hword, htoNat ▸ hd, hmsb.trans (hd.le_iff h), ?_⟩
  intro c hrun hfetch
  refine ⟨Cpu.step_load hrun hfetch, ?_⟩
  intro hset
  exact Cpu.step_a_of_bit_clear hrun hfetch hset
    (bit_five_of_large (htoNat ▸ hmsb.mp hset) (htoNat ▸ hlt))

theorem loads_operand_countdown :
    ∃ a p, Assembler.new.assemble countdown = (a, .ok p) ∧
      (Cpu.load p.words).step.a = 11 ∧ (Cpu.load p.words).step.pc = 1 := by
  have hsource : sourceStatements countdown = countdownStatements :=
    (statements_eq_ok statements_countdown).symm
  obtain ⟨a, p, haccepted⟩ := exists_assemble statements_countdown (by decide +kernel)
    (by decide +kernel) (by decide +kernel) (by decide +kernel)
  have hfirst : (instructionLines countdown)[0]? = some (1, .load "END") := by
    rw [instructionLines, hsource]
    decide
  obtain ⟨w, hword, hd, -, hstep⟩ := loads_operand haccepted hfirst
  have hlabel : (14, Statement.label "END") ∈ sourceStatements countdown := by
    rw [hsource]
    decide
  have hvalue : w = 11 := by
    apply BitVec.eq_of_toNat_eq
    rw [hd.unique haccepted (.label hlabel), instructionLines, hsource]
    decide
  subst hvalue
  have hload := (hstep (Cpu.load p.words) rfl hword).1 (by decide)
  exact ⟨a, p, haccepted, by rw [hload], by rw [hload]; rfl⟩

/-- A program that starts with a jump to its end, with a number of other jumps between. -/
def jumpToEnd (between : Nat) : List Line :=
  (.instruction (.symbol "END") :: List.replicate between (.instruction .jump)) ++ [.label "END"]

theorem assemble_jumpToEnd (between : Nat) (hfit : between < programSize) :
    ∃ a p, Assembler.new.assemble (render (jumpToEnd between)) = (a, .ok p) ∧
      p.words[0]? = some (BitVec.ofNat 16 (between + 1)) ∧
      a.address? "END" = some (BitVec.ofNat 16 (between + 1)) := by
  have hcount : (Line.instruction (.symbol "END") ::
      List.replicate between (.instruction .jump)).countP Line.occupiesRom = between + 1 := by
    rw [List.countP_cons, List.countP_replicate]
    rfl
  have hlabels : codeLabels (jumpToEnd between) = ["END"] := by
    simp [jumpToEnd, codeLabels]
  have hlines : ∀ l ∈ jumpToEnd between,
      l = .instruction (.symbol "END") ∨ l = .instruction .jump ∨ l = .label "END" := by
    intro l hl
    simp only [jumpToEnd, List.mem_append, List.mem_cons, List.mem_replicate, List.not_mem_nil,
      or_false] at hl
    rcases hl with (hl | ⟨-, hl⟩) | hl
    · exact Or.inl hl
    · exact Or.inr (Or.inl hl)
    · exact Or.inr (Or.inr hl)
  have hread : ∀ l ∈ jumpToEnd between, l.Readable := by
    intro l hl
    rcases hlines l hl with rfl | rfl | rfl
    · exact (by decide : isPlainSymbol "END" = true)
    · trivial
    · exact (by decide : isPlainSymbol "END" = true)
  have hsmall : ∀ l ∈ jumpToEnd between, l.LoadsBelow programSize := by
    intro l hl
    rcases hlines l hl with rfl | rfl | rfl <;> trivial
  obtain ⟨a, p, haccepted, himage⟩ := assemble_render hread (by rw [hlabels]; decide)
    (by rw [hlabels]; decide +kernel) hsmall
    (by rw [jumpToEnd, List.countP_append, hcount]; exact hfit)
  have haddress : a.address? "END" = some (BitVec.ofNat 16 (between + 1)) := by
    have hlabel := himage.label _ "END" [] rfl
    rwa [hcount] at hlabel
  obtain ⟨w, hw, hword⟩ := himage.codeAt_zero 0 (.symbol "END") rfl
  obtain rfl : w = BitVec.ofNat 16 (between + 1) := Option.some.inj (hw.symm.trans haddress)
  rw [Nat.zero_add, Array.getElem?_toList] at hword
  exact ⟨a, p, haccepted, hword, haddress⟩

/-- The label at the end of a full program memory is not loaded: its word computes nothing. -/
theorem endLabel_not_loaded :
    ∃ a p, Assembler.new.assemble (render (jumpToEnd 32767)) = (a, .ok p) ∧
      p.words[0]? = some 0x8000 ∧ a.address? "END" = some 0x8000 ∧
      (Cpu.load p.words).step.a = 0 := by
  obtain ⟨a, p, haccepted, hword, haddress⟩ := assemble_jumpToEnd 32767 (by decide)
  exact ⟨a, p, haccepted, hword, haddress,
    Cpu.step_a_of_bit_clear rfl hword (by decide) (by decide)⟩

end HackStack.Assembly
