import HackStack.Proofs.Assembly.Computation
import HackStack.Proofs.Text.Comment

/-!
# The grammar of computing instructions

A computing instruction is written `[dest=]comp[;jump]`. `Fields` holds what is written, `Spell`
says which instruction it spells, and `IsComplete` that no separator stands without its field. The
rules are those of the fields alone: where a line is cut into fields, and in which pass a field is
looked up, does not show in them.

- `Fields.exists_splitFields`: every text is cut into fields that put it together again.
- `Fields.spell_iff`: the three tables know exactly the fields that spell an instruction.
- `assemble_accepts_grammar`: a line is accepted exactly if its fields spell an instruction. They
  are complete unless the line has a loose end, an equals sign in front or a semicolon behind, and
  a loose end is read as if it were not there.
-/

namespace HackStack.Assembly

open HackStack.Machine

/-! ## The rules -/

/-- The fields of a computing instruction as they are written. The destination is followed by an
equals sign and the jump is preceded by a semicolon; either may be left out with its separator. -/
structure Fields where
  dest? : Option Text
  comp : Text
  jump? : Option Text

namespace Fields

def text (f : Fields) : Text :=
  f.dest?.elim [] (· ++ [0x3D]) ++ f.comp ++ f.jump?.elim [] (0x3B :: ·)

/-- Fields spell an instruction: the destination is made of the letters of different cells, the
computation is one of the mnemonics, and the jump is the name of a condition. -/
structure Spell (f : Fields) (dest : Dest) (comp : Comp) (jump : Jump) : Prop where
  letters : ∀ b ∈ f.dest?.getD [], b = 0x41 ∨ b = 0x44 ∨ b = 0x4D
  distinct : (f.dest?.getD []).Nodup
  dest : dest = Dest.ofLetters (f.dest?.getD [])
  comp : f.comp ∈ comp.spellings
  jump : f.jump?.getD [] = jump.text

/-- No field is empty behind or before its separator. -/
def IsComplete (f : Fields) : Prop := f.dest? ≠ some [] ∧ f.jump? ≠ some []

end Fields

/-- A text is an instruction of the grammar. -/
def InGrammar (t : Text) : Prop :=
  ∃ (f : Fields) (dest : Dest) (comp : Comp) (jump : Jump),
    t = f.text ∧ f.IsComplete ∧ f.Spell dest comp jump

/-- A text has a separator at an end, where the field that belongs to it is missing. -/
def HasLooseEnd (t : Text) : Prop := t.head? = some 0x3D ∨ t.getLast? = some 0x3B

/-- `line` is a single line, `text` is what is left of it without its comment and without white
space at both ends, and `bare` has no white space at all. -/
structure Leaves (line text bare : Text) : Prop where
  single : Text.lineFeed ∉ line
  trimmed : ∃ code, Text.IsCode line code ∧ Text.IsTrimmed code text
  joined : ∃ ws, Text.SplitsInto text ws ∧ bare = ws.flatten

theorem leaves_of_single {line : Text} (h : Text.lineFeed ∉ line) :
    Leaves line line.dropComment.trim line.dropComment.trim.words.flatten :=
  ⟨h, ⟨_, Text.isCode_dropComment line, Text.isTrimmed_trim _⟩, ⟨_, Text.words_eq_iff.mp rfl, rfl⟩⟩

theorem Leaves.eq_trim {line text bare : Text} (h : Leaves line text bare) :
    text = line.dropComment.trim := by
  obtain ⟨code, hcode, htrim⟩ := h.trimmed
  rw [htrim.eq_trim, Text.eq_dropComment_of_isCode hcode]

theorem Leaves.eq_flatten {line text bare : Text} (h : Leaves line text bare) :
    bare = text.words.flatten := by
  obtain ⟨ws, hws, hbare⟩ := h.joined
  rw [hbare, Text.words_eq_iff.mpr hws]

/-! ## Tables -/

theorem Comp.ofText?_eq_some_iff {t : Text} {c : Comp} : ofText? t = some c ↔ t ∈ c.spellings := by
  constructor
  · intro h
    have hspelled : c.text = t ∨ c.swapped? = some t := by simpa using List.find?_some h
    rcases hspelled with htext | hswapped
    · rw [spellings, htext]
      exact List.mem_cons_self
    · exact List.mem_cons_of_mem _ (Option.mem_toList.mpr hswapped)
  · exact ofText?_spelling c t

theorem Jump.ofText?_eq_some_iff {t : Text} {j : Jump} : ofText? t = some j ↔ t = j.text := by
  constructor
  · intro h
    have hspelled : j.text = t := by simpa using List.find?_some h
    exact hspelled.symm
  · rintro rfl
    exact ofText?_text j

namespace Dest

/-- A letter is added only if it names a cell that is not there yet. -/
theorem of_add?_ofLetters {letters : Text} {b : UInt8} {d : Dest}
    (h : (ofLetters letters).add? b = some d) : (b = 0x41 ∨ b = 0x44 ∨ b = 0x4D) ∧ b ∉ letters := by
  unfold add? at h
  split at h
  · exact ⟨Or.inl rfl, by simpa [ofLetters] using (Option.ite_none_left_eq_some.mp h).1⟩
  · exact ⟨Or.inr (Or.inl rfl), by simpa [ofLetters] using (Option.ite_none_left_eq_some.mp h).1⟩
  · exact ⟨Or.inr (Or.inr rfl), by simpa [ofLetters] using (Option.ite_none_left_eq_some.mp h).1⟩
  · cases h

/-- The letters that have been read are those of different cells. -/
theorem letters_of_ofText? {letters : Text} {d : Dest} (h : ofText? letters = some d) :
    (∀ b ∈ letters, b = 0x41 ∨ b = 0x44 ∨ b = 0x4D) ∧ letters.Nodup := by
  induction letters using List.reverseRecOn generalizing d with
  | nil => exact ⟨by simp, List.nodup_nil⟩
  | append_singleton letters b ih =>
      rw [ofText?, List.foldlM_append] at h
      obtain ⟨before, hbefore, hadd⟩ := Option.bind_eq_some_iff.mp h
      obtain ⟨hletters, hnodup⟩ := ih hbefore
      obtain rfl : before = ofLetters letters := by
        rw [← ofText?, ofText?_letters hletters hnodup] at hbefore
        exact (Option.some.inj hbefore).symm
      obtain ⟨hb, hfresh⟩ := of_add?_ofLetters (by simpa using hadd)
      constructor
      · simpa [or_imp, forall_and] using ⟨hletters, hb⟩
      · exact List.nodup_append.mpr ⟨hnodup, List.nodup_singleton b, by
          rintro c hc _ hm rfl
          exact hfresh (List.mem_singleton.mp hm ▸ hc)⟩

theorem ofText?_eq_some_iff {t : Text} {d : Dest} :
    ofText? t = some d ↔
      (∀ b ∈ t, b = 0x41 ∨ b = 0x44 ∨ b = 0x4D) ∧ t.Nodup ∧ d = ofLetters t := by
  constructor
  · intro h
    obtain ⟨hletters, hnodup⟩ := letters_of_ofText? h
    rw [ofText?_letters hletters hnodup] at h
    exact ⟨hletters, hnodup, (Option.some.inj h).symm⟩
  · rintro ⟨hletters, hnodup, rfl⟩
    exact ofText?_letters hletters hnodup

end Dest

/-! ## Fields -/

namespace Fields

theorem spell_iff {f : Fields} {dest : Dest} {comp : Comp} {jump : Jump} :
    f.Spell dest comp jump ↔
      Dest.ofText? (f.dest?.getD []) = some dest ∧ Comp.ofText? f.comp = some comp ∧
        Jump.ofText? (f.jump?.getD []) = some jump := by
  rw [Dest.ofText?_eq_some_iff, Comp.ofText?_eq_some_iff, Jump.ofText?_eq_some_iff]
  constructor
  · rintro ⟨hletters, hdistinct, hdest, hcomp, hjump⟩
    exact ⟨⟨hletters, hdistinct, hdest⟩, hcomp, hjump⟩
  · rintro ⟨⟨hletters, hdistinct, hdest⟩, hcomp, hjump⟩
    exact ⟨hletters, hdistinct, hdest, hcomp, hjump⟩

/-- Every text is cut into fields that put it together again. -/
theorem exists_splitFields (t : Text) :
    ∃ f : Fields, t = f.text ∧ splitFields t = (f.dest?.getD [], f.comp, f.jump?.getD []) := by
  -- whatever stands before, the rest is cut at its first semicolon
  have hrest : ∀ rest : Text, ∃ (comp : Text) (jump? : Option Text),
      rest = comp ++ jump?.elim [] (0x3B :: ·) ∧
        (rest.cut? 0x3B).getD (rest, []) = (comp, jump?.getD []) := by
    intro rest
    rcases Text.cut?_spec 0x3B rest with ⟨-, hcut⟩ | ⟨comp, jump, -, hrest, hcut⟩
    · refine ⟨rest, none, (List.append_nil rest).symm, ?_⟩
      rw [hcut]
      rfl
    · refine ⟨comp, some jump, hrest, ?_⟩
      rw [hcut]
      rfl
  rcases Text.cut?_spec 0x3D t with ⟨-, hcut⟩ | ⟨dest, rest, -, ht, hcut⟩
  · obtain ⟨comp, jump?, ht, hfields⟩ := hrest t
    refine ⟨⟨none, comp, jump?⟩, ht, ?_⟩
    simp only [splitFields, hcut, Option.getD_none, hfields]
  · obtain ⟨comp, jump?, hparts, hfields⟩ := hrest rest
    refine ⟨⟨some dest, comp, jump?⟩, ?_, ?_⟩
    · rw [ht, hparts]
      simp [text]
    · simp only [splitFields, hcut, Option.getD_some, hfields]

section

variable {f : Fields} {dest : Dest} {comp : Comp} {jump : Jump} (h : f.Spell dest comp jump)
include h

theorem Spell.comp_ne_nil : f.comp ≠ [] := (comp.spelling_facts f.comp h.comp).1

/-- Neither separator occurs in a field that spells something. -/
theorem Spell.separators_notMem :
    (0x3D : UInt8) ∉ f.dest?.getD [] ∧ (0x3D : UInt8) ∉ f.comp ∧ (0x3B : UInt8) ∉ f.comp ∧
      (0x3D : UInt8) ∉ f.jump?.getD [] ∧ (0x3B : UInt8) ∉ f.jump?.getD [] := by
  obtain ⟨-, -, hequals, hsemicolon⟩ := comp.spelling_facts f.comp h.comp
  have hjump : (0x3D : UInt8) ∉ jump.text ∧ (0x3B : UInt8) ∉ jump.text := by
    cases jump <;> decide
  rw [h.jump]
  refine ⟨fun hm => ?_, hequals, hsemicolon, hjump⟩
  rcases h.letters _ hm with hb | hb | hb <;> cases hb

/-- Fields that spell an instruction are found where they were written. -/
theorem Spell.splitFields_text :
    splitFields f.text = (f.dest?.getD [], f.comp, f.jump?.getD []) := by
  obtain ⟨hdest, hequals, hsemicolon, hjump, -⟩ := h.separators_notMem
  obtain ⟨dest?, comp, jump?⟩ := f
  refine splitFields_append hdest hequals hsemicolon ?_ ?_ ?_
  · cases jump? with
    | none => exact List.not_mem_nil
    | some jump =>
        rw [Option.elim_some, List.mem_cons, not_or]
        exact ⟨by decide, hjump⟩
  · cases dest? with
    | none => exact Or.inl ⟨rfl, rfl⟩
    | some dest => exact Or.inr rfl
  · cases jump? with
    | none => exact Or.inl ⟨rfl, rfl⟩
    | some jump => exact Or.inr rfl

/-- An equals sign comes first only if there is no letter before it. -/
theorem Spell.head?_text : f.text.head? = some 0x3D ↔ f.dest? = some [] := by
  obtain ⟨hdest, hequals, -, -, -⟩ := h.separators_notMem
  have hcomp := h.comp_ne_nil
  obtain ⟨dest?, comp, jump?⟩ := f
  obtain ⟨b, rest, rfl⟩ := List.exists_cons_of_ne_nil hcomp
  rcases dest? with _ | (_ | ⟨c, letters⟩)
  · have hhead : (Fields.text ⟨none, b :: rest, jump?⟩).head? = (b :: rest).head? := rfl
    rw [hhead]
    exact iff_of_false (fun hb => hequals (List.mem_of_mem_head? hb)) nofun
  · exact iff_of_true rfl rfl
  · have hhead : (Fields.text ⟨some (c :: letters), b :: rest, jump?⟩).head? =
        (c :: letters).head? := rfl
    rw [hhead]
    exact iff_of_false (fun hc => hdest (List.mem_of_mem_head? hc)) (by simp)

/-- A semicolon comes last only if there is no name behind it. -/
theorem Spell.getLast?_text : f.text.getLast? = some 0x3B ↔ f.jump? = some [] := by
  obtain ⟨-, -, hsemicolon, -, hjump⟩ := h.separators_notMem
  have hcomp := h.comp_ne_nil
  obtain ⟨dest?, comp, jump?⟩ := f
  rcases jump? with _ | (_ | ⟨c, name⟩)
  · have hlast : (Fields.text ⟨dest?, comp, none⟩).getLast? = comp.getLast? := by
      simp [text, List.getLast?_append_of_ne_nil _ hcomp]
    rw [hlast]
    exact iff_of_false (fun hb => hsemicolon (List.mem_of_getLast? hb)) nofun
  · simp [text]
  · have hlast : (Fields.text ⟨dest?, comp, some (c :: name)⟩).getLast? = (c :: name).getLast? := by
      rw [text, Option.elim_some, List.getLast?_append_of_ne_nil _ (List.cons_ne_nil _ _),
        List.getLast?_cons_cons]
    rw [hlast]
    exact iff_of_false (fun hb => hjump (List.mem_of_getLast? hb)) (by simp)

theorem Spell.isComplete_iff : f.IsComplete ↔ ¬HasLooseEnd f.text := by
  rw [IsComplete, HasLooseEnd, h.head?_text, h.getLast?_text, not_or]

end

end Fields

theorem HasLooseEnd.not_inGrammar {t : Text} (h : HasLooseEnd t) : ¬InGrammar t := by
  rintro ⟨f, dest, comp, jump, rfl, hcomplete, hspell⟩
  exact hspell.isComplete_iff.mp hcomplete h

/-! ## Lines -/

section

variable {line text bare : Text} (h : Leaves line text bare) (hne : text ≠ [])
  (hlabel : text.head? ≠ some 0x28) (hload : text.head? ≠ some 0x40)
include h hne hlabel hload

/-- What is left of a line decides about it by its fields. -/
theorem Leaves.parseStatement_eq {dest comp jump : Text}
    (hsplit : splitFields bare = (dest, comp, jump)) (n : Nat) :
    parseStatement line n =
      if comp.isEmpty then .error (.missingComp n) else .ok (some (.compute dest comp jump)) := by
  rw [h.eq_flatten, h.eq_trim] at hsplit
  rw [h.eq_trim] at hne hlabel hload
  exact parseStatement_of_head hne hlabel hload hsplit n

theorem Leaves.assemble_of_spell {f : Fields} {dest : Dest} {comp : Comp} {jump : Jump}
    (hbare : bare = f.text) (hspell : f.Spell dest comp jump) (a : Assembler) :
    a.assemble line = (a, .ok ⟨#[encodeCompute comp.code dest.code jump.code], #[1]⟩) := by
  have hsplit := hspell.splitFields_text
  rw [← hbare] at hsplit
  have hparse := h.parseStatement_eq hne hlabel hload hsplit 1
  rw [if_neg (by simpa using hspell.comp_ne_nil)] at hparse
  obtain ⟨hdest, hcomp, hjump⟩ := Fields.spell_iff.mp hspell
  have hword : computeWord (f.dest?.getD []) f.comp (f.jump?.getD []) 1 =
      .ok (encodeCompute comp.code dest.code jump.code) :=
    Assembler.computeWord_eq_ok_iff.mpr ⟨dest, comp, jump, hdest, hcomp, hjump, rfl⟩
  rw [assemble_of_compute h.single hparse, hword]
  rfl

theorem Leaves.spell_of_assemble {a a' : Assembler} {p : Program}
    (haccepted : a.assemble line = (a', .ok p)) :
    ∃ (f : Fields) (dest : Dest) (comp : Comp) (jump : Jump),
      bare = f.text ∧ f.Spell dest comp jump := by
  obtain ⟨f, hbare, hsplit⟩ := Fields.exists_splitFields bare
  have hparse := h.parseStatement_eq hne hlabel hload hsplit 1
  cases hempty : f.comp.isEmpty with
  | true =>
      have hrefused : statements line = .error (.missingComp 1) := by
        rw [statements_of_line h.single, hparse, hempty]
        rfl
      rw [Assembler.assemble, hrefused] at haccepted
      cases haccepted
  | false =>
      rw [hempty] at hparse
      rw [assemble_of_compute h.single hparse] at haccepted
      cases hword : computeWord (f.dest?.getD []) f.comp (f.jump?.getD []) 1 with
      | error e =>
          rw [hword] at haccepted
          cases haccepted
      | ok w =>
          obtain ⟨dest, comp, jump, hdest, hcomp, hjump, -⟩ :=
            Assembler.computeWord_eq_ok_iff.mp hword
          exact ⟨f, dest, comp, jump, hbare, Fields.spell_iff.mpr ⟨hdest, hcomp, hjump⟩⟩

theorem Leaves.accepts_iff (a : Assembler) :
    (∃ a' p, a.assemble line = (a', .ok p)) ↔
      ∃ (f : Fields) (dest : Dest) (comp : Comp) (jump : Jump),
        bare = f.text ∧ f.Spell dest comp jump := by
  constructor
  · rintro ⟨a', p, haccepted⟩
    exact h.spell_of_assemble hne hlabel hload haccepted
  · rintro ⟨f, dest, comp, jump, hbare, hspell⟩
    exact ⟨a, _, h.assemble_of_spell hne hlabel hload hbare hspell a⟩

end

/-- **The assembler accepts the grammar of computing instructions.** A single line that is neither
blank nor a label nor a load, and that has no loose end, is accepted exactly if it is an instruction
of the grammar without its white space, and gives the one word with the codes of its fields. With a
loose end it is no instruction of the grammar, and yet it is accepted if the fields that it has
spell one. -/
theorem assemble_accepts_grammar {line text bare : Text} (h : Leaves line text bare)
    (hne : text ≠ []) (hlabel : text.head? ≠ some 0x28) (hload : text.head? ≠ some 0x40)
    (a : Assembler) :
    (¬HasLooseEnd bare → ((∃ a' p, a.assemble line = (a', .ok p)) ↔ InGrammar bare)) ∧
    (HasLooseEnd bare → ¬InGrammar bare ∧
      ((∃ a' p, a.assemble line = (a', .ok p)) ↔
        ∃ (f : Fields) (dest : Dest) (comp : Comp) (jump : Jump),
          bare = f.text ∧ ¬f.IsComplete ∧ f.Spell dest comp jump)) ∧
    ∀ (f : Fields) (dest : Dest) (comp : Comp) (jump : Jump),
      bare = f.text → f.Spell dest comp jump →
        a.assemble line = (a, .ok ⟨#[encodeCompute comp.code dest.code jump.code], #[1]⟩) := by
  have hcomplete : ∀ {f : Fields} {dest : Dest} {comp : Comp} {jump : Jump},
      bare = f.text → f.Spell dest comp jump → (f.IsComplete ↔ ¬HasLooseEnd bare) := by
    intro f dest comp jump hbare hspell
    rw [hbare]
    exact hspell.isComplete_iff
  have haccepts := h.accepts_iff hne hlabel hload a
  refine ⟨fun hends => haccepts.trans ⟨?_, ?_⟩,
    fun hends => ⟨hends.not_inGrammar, haccepts.trans ⟨?_, ?_⟩⟩, ?_⟩
  · rintro ⟨f, dest, comp, jump, hbare, hspell⟩
    exact ⟨f, dest, comp, jump, hbare, (hcomplete hbare hspell).mpr hends, hspell⟩
  · rintro ⟨f, dest, comp, jump, hbare, -, hspell⟩
    exact ⟨f, dest, comp, jump, hbare, hspell⟩
  · rintro ⟨f, dest, comp, jump, hbare, hspell⟩
    exact ⟨f, dest, comp, jump, hbare, fun hf => (hcomplete hbare hspell).mp hf hends, hspell⟩
  · rintro ⟨f, dest, comp, jump, hbare, -, hspell⟩
    exact ⟨f, dest, comp, jump, hbare, hspell⟩
  · intro f dest comp jump hbare hspell
    exact h.assemble_of_spell hne hlabel hload hbare hspell a

/-- An instruction with white space in each field and separators in its comment, and a line with an
equals sign too many. -/
theorem assemble_accepts_spaced :
    Assembler.new.assemble "\tD M\u00A0= M +\u2003D ; J LE // A=0;" =
        (Assembler.new, .ok ⟨#[0xF09E], #[1]⟩) ∧
      ¬∃ a p, Assembler.new.assemble "D=M=D;JMP" = (a, .ok p) := by
  have hspaced : Leaves "\tD M\u00A0= M +\u2003D ; J LE // A=0;" _ _ :=
    leaves_of_single (by decide +kernel)
  have htwice : Leaves "D=M=D;JMP" _ _ := leaves_of_single (by decide +kernel)
  constructor
  · obtain ⟨-, -, hword⟩ := assemble_accepts_grammar hspaced (by decide +kernel)
      (by decide +kernel) (by decide +kernel) Assembler.new
    exact hword ⟨some "DM", "M+D", some "JLE"⟩ ⟨false, true, true⟩ .dPlusM .jle (by decide +kernel)
      (Fields.spell_iff.mpr (by decide +kernel))
  · obtain ⟨hgrammar, -, -⟩ := assemble_accepts_grammar htwice (by decide +kernel)
      (by decide +kernel) (by decide +kernel) Assembler.new
    rw [hgrammar (by unfold HasLooseEnd; decide +kernel)]
    rintro ⟨f, dest, comp, jump, hbare, -, hspell⟩
    -- the computation would be what stands between the first equals sign and the semicolon
    have hsplit := hspell.splitFields_text
    rw [← hbare] at hsplit
    have hcomp : f.comp = "M=D" := (congrArg (fun fields => fields.2.1) hsplit).symm
    obtain ⟨-, hknown, -⟩ := Fields.spell_iff.mp hspell
    have hunknown : Comp.ofText? "M=D" = none := by decide +kernel
    rw [hcomp, hunknown] at hknown
    cases hknown

/-- A semicolon without a jump and an equals sign without a destination are accepted, although the
grammar knows no such line. -/
theorem looseEnds_accepted :
    (Leaves "D;" "D;" "D;" ∧ ¬InGrammar "D;" ∧
      Assembler.new.assemble "D;" = (Assembler.new, .ok ⟨#[0xE300], #[1]⟩)) ∧
    (Leaves "=D" "=D" "=D" ∧ ¬InGrammar "=D" ∧
      Assembler.new.assemble "=D" = (Assembler.new, .ok ⟨#[0xE300], #[1]⟩)) := by
  have hbehind : Leaves "D;" "D;" "D;" := leaves_of_single (by decide +kernel)
  have hbefore : Leaves "=D" "=D" "=D" := leaves_of_single (by decide +kernel)
  refine ⟨⟨hbehind, HasLooseEnd.not_inGrammar (Or.inr (by decide +kernel)), ?_⟩,
    ⟨hbefore, HasLooseEnd.not_inGrammar (Or.inl (by decide +kernel)), ?_⟩⟩
  · have hspell : Fields.Spell ⟨none, "D", some []⟩ .nowhere .d .never :=
      Fields.spell_iff.mpr (by decide +kernel)
    exact hbehind.assemble_of_spell (by decide +kernel) (by decide +kernel) (by decide +kernel)
      (by decide +kernel) hspell Assembler.new
  · have hspell : Fields.Spell ⟨some [], "D", none⟩ .nowhere .d .never :=
      Fields.spell_iff.mpr (by decide +kernel)
    exact hbefore.assemble_of_spell (by decide +kernel) (by decide +kernel) (by decide +kernel)
      (by decide +kernel) hspell Assembler.new

end HackStack.Assembly
