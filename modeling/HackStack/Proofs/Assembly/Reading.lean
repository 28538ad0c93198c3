import HackStack.Assembly.Code
import HackStack.Assembly.Statement
import HackStack.Proofs.Text.Ascii
import HackStack.Proofs.Text.Lines
import HackStack.Proofs.Text.Numeral

/-!
# Code that is written can be read

`render` writes lines of code as text, `statements` reads a text as statements. The two agree on
readable lines, those whose symbols are made of ASCII characters and whose comments stay on their
line:

- `parseStatement_body`: a written line is read as the statement that it is, and a comment as
  nothing;
- `statements_render`: so a written text is read as the statements of its lines in order, each with
  the number of its line.
-/

namespace HackStack.Assembly

/-! ## Symbols of ASCII characters -/

/-- An ASCII byte that may stand in a symbol. -/
def isSymbolByte (b : UInt8) : Bool :=
  Text.isAsciiLetter b || Text.isDigit b || b == 0x5F || b == 0x2E || b == 0x24 || b == 0x3A

/-- Whether a text is a symbol of ASCII characters. -/
def isPlainSymbol (t : Text) : Bool := !t.head?.any Text.isDigit && !t.isEmpty && t.all isSymbolByte

theorem symbolByte_facts : ∀ n < 256, isSymbolByte n.toUInt8 = true →
    Text.isVisible n.toUInt8 = true ∧ n.toUInt8 ≠ 0x2F ∧ isSymbolChar (Char.ofNat n) = true ∧
      (isDecimalDigit (Char.ofNat n) = true → Text.isDigit n.toUInt8 = true) := by
  decide +kernel

theorem isSymbolByte_spec {b : UInt8} (h : isSymbolByte b = true) :
    Text.isVisible b = true ∧ b ≠ 0x2F ∧ isSymbolChar (Char.ofNat b.toNat) = true ∧
      (isDecimalDigit (Char.ofNat b.toNat) = true → Text.isDigit b = true) := by
  have hb : b.toNat.toUInt8 = b := UInt8.ofNat_toNat
  have hfacts := symbolByte_facts b.toNat b.toNat_lt
  rw [hb] at hfacts
  exact hfacts h

theorem isPlainSymbol_iff {t : Text} :
    isPlainSymbol t = true ↔
      ∃ b rest, t = b :: rest ∧ Text.isDigit b = false ∧ ∀ c ∈ t, isSymbolByte c = true := by
  cases t with
  | nil => simp [isPlainSymbol]
  | cons b rest => simp [isPlainSymbol]

theorem isVisible_of_symbol {t : Text} (h : isPlainSymbol t = true) :
    ∀ b ∈ t, Text.isVisible b = true := by
  obtain ⟨_, _, _, _, hall⟩ := isPlainSymbol_iff.mp h
  exact fun b hb => (isSymbolByte_spec (hall b hb)).1

theorem slash_notMem_symbol {t : Text} (h : isPlainSymbol t = true) : (0x2F : UInt8) ∉ t := by
  obtain ⟨_, _, _, _, hall⟩ := isPlainSymbol_iff.mp h
  exact fun hm => (isSymbolByte_spec (hall _ hm)).2.1 rfl

theorem isSymbolName_of_plain {t : Text} (h : isPlainSymbol t = true) : isSymbolName t = true := by
  have hglyphs := Text.glyphs_of_visible (isVisible_of_symbol h)
  obtain ⟨b, rest, rfl, hb, hall⟩ := isPlainSymbol_iff.mp h
  rw [isSymbolName, hglyphs]
  have hfirst : isDecimalDigit (Char.ofNat b.toNat) = false := by
    rw [Bool.eq_false_iff]
    intro hd
    rw [(isSymbolByte_spec (hall b List.mem_cons_self)).2.2.2 hd] at hb
    cases hb
  have hchars : ((b :: rest).map Glyph.ascii).all (fun g => g.char?.any isSymbolChar) = true := by
    rw [List.all_map, List.all_eq_true]
    exact fun c hc => (isSymbolByte_spec (hall c hc)).2.2.1
  simp only [List.map_cons] at hchars ⊢
  rw [hchars]
  simp [Glyph.ascii, hfirst]

/-! ## Lines -/

namespace Line

def statement? : Line → Option Statement
  | comment _ => none
  | label name => some (.label name)
  | instruction (.load operand) => some (.load operand.text)
  | instruction (.compute dest comp jump) => some (.compute dest.text comp.text jump.text)

/-- A line that reads back as it was written. -/
def Readable : Line → Prop
  | comment t => Text.lineFeed ∉ t
  | label name => isPlainSymbol name = true
  | instruction (.load (.symbol name)) => isPlainSymbol name = true
  | instruction (.load (.number n)) => 0 ≤ n
  | instruction (.compute _ _ _) => True

/-- The text of a line without its line feed. -/
def body : Line → Text
  | comment t => 0x2F :: 0x2F :: 0x20 :: t
  | label name => 0x28 :: (name ++ [0x29])
  | instruction i => 0x09 :: i.text

theorem text_eq_body (l : Line) : l.text = l.body ++ [Text.lineFeed] := by
  cases l with
  | comment t => rfl
  | label name =>
      show ([0x28] ++ name) ++ [0x29, 0x0A] = (0x28 :: (name ++ [0x29])) ++ [0x0A]
      simp
  | instruction i => rfl

end Line

theorem isVisible_ofInt {n : Int} (h : 0 ≤ n) :
    ∀ b ∈ Text.ofInt n, Text.isVisible b = true ∧ b ≠ 0x2F := by
  obtain ⟨k, rfl⟩ := Int.eq_ofNat_of_zero_le h
  intro b hb
  have hdigit : Text.isDigit b = true := by
    rw [Text.ofInt_natCast] at hb
    exact List.all_eq_true.mp (Text.all_isDigit_ofNat k) b hb
  have hsymbol : isSymbolByte b = true := by simp [isSymbolByte, hdigit]
  exact ⟨(isSymbolByte_spec hsymbol).1, (isSymbolByte_spec hsymbol).2.1⟩

/-- The operand of a readable line is visible and not empty. -/
theorem operand_visible {o : Operand} (h : (Line.instruction (.load o)).Readable) :
    (∀ b ∈ o.text, Text.isVisible b = true ∧ b ≠ 0x2F) ∧ o.text ≠ [] := by
  cases o with
  | symbol name =>
      obtain ⟨b, rest, rfl, -, -⟩ := isPlainSymbol_iff.mp h
      exact ⟨fun c hc => ⟨isVisible_of_symbol h c hc, fun e => slash_notMem_symbol h (e ▸ hc)⟩,
        List.cons_ne_nil _ _⟩
  | number n =>
      refine ⟨isVisible_ofInt h, ?_⟩
      obtain ⟨k, rfl⟩ := Int.eq_ofNat_of_zero_le h
      show Text.ofInt _ ≠ []
      rw [Text.ofInt_natCast]
      exact Text.ofNat_ne_nil k

/-! ## Fields of computing instructions -/

/-- The bytes of a computing instruction mark neither a comment nor another kind of statement. -/
def isFieldByte (b : UInt8) : Bool :=
  Text.isVisible b && b != 0x2F && b != 0x28 && b != 0x40

theorem comp_text_facts (c : Comp) :
    c.text ≠ [] ∧ c.text.all isFieldByte = true ∧ 0x3D ∉ c.text ∧ 0x3B ∉ c.text := by
  cases c <;> decide

theorem jump_clause_facts (j : Jump) :
    j.clause.all isFieldByte = true ∧ 0x3D ∉ j.clause ∧
      (j.clause = [] ∧ j.text = [] ∨ j.clause = 0x3B :: j.text) := by
  cases j <;> decide

theorem dest_clause_facts (d : Dest) :
    d.clause.all isFieldByte = true ∧ 0x3D ∉ d.text ∧
      (d.clause = [] ∧ d.text = [] ∨ d.clause = d.text ++ [0x3D]) := by
  obtain ⟨a, d, m⟩ := d
  cases a <;> cases d <;> cases m <;> decide

/-- Fields that are written with their separators are split again. A field that is left out has no
separator. -/
theorem splitFields_append {dest comp jump destClause jumpClause : Text}
    (hdest : 0x3D ∉ dest) (hcompEq : 0x3D ∉ comp) (hcompSemi : 0x3B ∉ comp)
    (hjumpEq : 0x3D ∉ jumpClause)
    (hdestClause : destClause = [] ∧ dest = [] ∨ destClause = dest ++ [0x3D])
    (hjumpClause : jumpClause = [] ∧ jump = [] ∨ jumpClause = 0x3B :: jump) :
    splitFields (destClause ++ comp ++ jumpClause) = (dest, comp, jump) := by
  -- after `=`, what is left is cut at `;` if there is a jump
  have hrest : ((comp ++ jumpClause).cut? 0x3B).getD (comp ++ jumpClause, []) = (comp, jump) := by
    rcases hjumpClause with ⟨rfl, rfl⟩ | rfl
    · rw [List.append_nil, Text.cut?_of_notMem hcompSemi]
      rfl
    · rw [Text.cut?_append_cons hcompSemi]
      rfl
  have hfirst : ((destClause ++ comp ++ jumpClause).cut? 0x3D).getD
      ([], destClause ++ comp ++ jumpClause) = (dest, comp ++ jumpClause) := by
    rcases hdestClause with ⟨rfl, rfl⟩ | rfl
    · rw [List.nil_append, Text.cut?_of_notMem (by simp [hcompEq, hjumpEq])]
      rfl
    · rw [List.append_assoc, List.append_assoc, List.singleton_append,
        Text.cut?_append_cons hdest]
      rfl
  simp only [splitFields, hfirst, hrest]

theorem splitFields_text (dest : Dest) (comp : Comp) (jump : Jump) :
    splitFields (dest.clause ++ comp.text ++ jump.clause) = (dest.text, comp.text, jump.text) := by
  obtain ⟨-, -, hcompEq, hcompSemi⟩ := comp_text_facts comp
  obtain ⟨-, hjumpEq, hjump⟩ := jump_clause_facts jump
  obtain ⟨-, hdestEq, hdest⟩ := dest_clause_facts dest
  exact splitFields_append hdestEq hcompEq hcompSemi hjumpEq hdest hjump

theorem compute_text_facts (dest : Dest) (comp : Comp) (jump : Jump) :
    (Instruction.compute dest comp jump).text ≠ [] ∧
      ∀ b ∈ (Instruction.compute dest comp jump).text, isFieldByte b = true := by
  obtain ⟨hne, hcomp, -, -⟩ := comp_text_facts comp
  refine ⟨by simp [Instruction.text, hne], ?_⟩
  rw [← List.all_eq_true, Instruction.text, List.all_append, List.all_append, hcomp,
    (jump_clause_facts jump).1, (dest_clause_facts dest).1]
  rfl

theorem isFieldByte_spec {b : UInt8} (h : isFieldByte b = true) :
    Text.isVisible b = true ∧ b ≠ 0x2F ∧ b ≠ 0x28 ∧ b ≠ 0x40 := by
  simp only [isFieldByte, Bool.and_eq_true, bne_iff_ne, ne_eq] at h
  exact ⟨h.1.1.1, h.1.1.2, h.1.2, h.2⟩

/-! ## Reading a line -/

theorem parseStatement_comment (t : Text) (n : Nat) :
    parseStatement (Line.comment t).body n = .ok none := rfl

theorem parseStatement_label {name : Text} (h : isPlainSymbol name = true) (n : Nat) :
    parseStatement (Line.label name).body n = .ok (some (.label name)) := by
  have hvisible : ∀ b ∈ (Line.label name).body, Text.isVisible b = true := by
    intro b hb
    simp only [Line.body, List.mem_cons, List.mem_append, List.not_mem_nil, or_false] at hb
    rcases hb with rfl | hb | rfl
    · decide
    · exact isVisible_of_symbol h b hb
    · decide
  have hslash : (0x2F : UInt8) ∉ (Line.label name).body := by
    simp [Line.body, slash_notMem_symbol h]
  rw [parseStatement, Text.dropComment_of_notMem hslash, Text.trim_of_visible hvisible]
  simp [Line.body, Text.trim_of_visible (isVisible_of_symbol h), isSymbolName_of_plain h]

theorem parseStatement_load {o : Operand} (h : (Line.instruction (.load o)).Readable) (n : Nat) :
    parseStatement (Line.instruction (.load o)).body n = .ok (some (.load o.text)) := by
  obtain ⟨hbytes, hne⟩ := operand_visible h
  have hbody : (Line.instruction (.load o)).body = 0x09 :: 0x40 :: o.text := rfl
  have hvisible : ∀ b ∈ 0x40 :: o.text, Text.isVisible b = true := by
    intro b hb
    rcases List.mem_cons.mp hb with rfl | hb
    · decide
    · exact (hbytes b hb).1
  have hslash : (0x2F : UInt8) ∉ (0x09 :: 0x40 :: o.text : Text) := by
    simp only [List.mem_cons, not_or]
    exact ⟨by decide, by decide, fun hm => (hbytes _ hm).2 rfl⟩
  have htrim : Text.trim o.text = o.text := Text.trim_of_visible fun b hb => (hbytes b hb).1
  rw [parseStatement, hbody, Text.dropComment_of_notMem hslash, Text.trim_tab_cons hvisible]
  split
  · next hline => cases hline
  · next hline => exact absurd (List.cons.inj hline).1 (by decide)
  · next hline =>
      obtain rfl := (List.cons.inj hline).2
      rw [htrim]
      split
      · contradiction
      · rfl
  · next hother => exact absurd rfl (hother o.text)

/-- A line that is neither blank nor a label nor a load is split into fields. -/
theorem parseStatement_of_head {line dest comp jump : Text} (hne : line.dropComment.trim ≠ [])
    (hlabel : line.dropComment.trim.head? ≠ some 0x28)
    (hload : line.dropComment.trim.head? ≠ some 0x40)
    (hsplit : splitFields line.dropComment.trim.words.flatten = (dest, comp, jump)) (n : Nat) :
    parseStatement line n =
      if comp.isEmpty then .error (.missingComp n) else .ok (some (.compute dest comp jump)) := by
  rw [parseStatement]
  split
  · contradiction
  · next rest heq => exact absurd (by rw [heq]; rfl) hlabel
  · next rest heq => exact absurd (by rw [heq]; rfl) hload
  · rw [hsplit]

/-- A line that is one word, and neither a label nor a load, is split into fields. -/
theorem parseStatement_fields {line dest comp jump : Text} (hslash : 0x2F ∉ line)
    (hbytes : ∀ b ∈ line.trim, isFieldByte b = true)
    (hsplit : splitFields line.trim = (dest, comp, jump)) (hcomp : comp ≠ []) (n : Nat) :
    parseStatement line n = .ok (some (.compute dest comp jump)) := by
  have hvisible : ∀ b ∈ line.trim, Text.isVisible b = true :=
    fun b hb => (isFieldByte_spec (hbytes b hb)).1
  have hne : line.trim ≠ [] := by
    intro hnil
    rw [hnil] at hsplit
    cases hsplit
    exact hcomp rfl
  have hdrop := Text.dropComment_of_notMem hslash
  have hhead : ∀ b, line.trim.head? = some b → isFieldByte b = true :=
    fun b hb => hbytes b (List.mem_of_mem_head? hb)
  have hfields : splitFields line.dropComment.trim.words.flatten = (dest, comp, jump) := by
    rw [hdrop, Text.words_of_visible hvisible hne, List.flatten_singleton, hsplit]
  rw [parseStatement_of_head _ _ _ hfields, if_neg (by simpa using hcomp)]
  · rwa [hdrop]
  · rw [hdrop]
    exact fun hb => absurd (hhead _ hb) (by decide)
  · rw [hdrop]
    exact fun hb => absurd (hhead _ hb) (by decide)

theorem parseStatement_compute (dest : Dest) (comp : Comp) (jump : Jump) (n : Nat) :
    parseStatement (Line.instruction (.compute dest comp jump)).body n =
      .ok (some (.compute dest.text comp.text jump.text)) := by
  obtain ⟨-, hbytes⟩ := compute_text_facts dest comp jump
  have htrim : (Line.instruction (.compute dest comp jump)).body.trim =
      (Instruction.compute dest comp jump).text :=
    Text.trim_tab_cons fun b hb => (isFieldByte_spec (hbytes b hb)).1
  apply parseStatement_fields
  · simp only [Line.body, List.mem_cons, not_or]
    exact ⟨by decide, fun hm => (isFieldByte_spec (hbytes _ hm)).2.1 rfl⟩
  · rw [htrim]
    exact hbytes
  · rw [htrim]
    exact splitFields_text dest comp jump
  · exact (comp_text_facts comp).1

theorem parseStatement_body {l : Line} (h : l.Readable) (n : Nat) :
    parseStatement l.body n = .ok l.statement? := by
  cases l with
  | comment t => exact parseStatement_comment t n
  | label name => exact parseStatement_label h n
  | instruction i =>
      cases i with
      | load o => exact parseStatement_load h n
      | compute dest comp jump => exact parseStatement_compute dest comp jump n

/-! ## Reading a text -/

theorem lineFeed_notMem_body {l : Line} (h : l.Readable) : Text.lineFeed ∉ l.body := by
  have hblank : Text.isVisible Text.lineFeed = false := rfl
  cases l with
  | comment t =>
      simp only [Line.body, List.mem_cons, not_or]
      exact ⟨by decide, by decide, by decide, h⟩
  | label name =>
      simp only [Line.body, List.mem_cons, List.mem_append, List.not_mem_nil, or_false, not_or]
      refine ⟨by decide, fun hm => ?_, by decide⟩
      simp [isVisible_of_symbol h _ hm] at hblank
  | instruction i =>
      simp only [Line.body, List.mem_cons, not_or]
      refine ⟨by decide, fun hm => ?_⟩
      cases i with
      | load o =>
          rcases List.mem_cons.mp hm with hm | hm
          · exact absurd hm (by decide)
          · simp [((operand_visible h).1 _ hm).1] at hblank
      | compute dest comp jump =>
          simp [(isFieldByte_spec ((compute_text_facts dest comp jump).2 _ hm)).1] at hblank

theorem render_eq_ofLines (lines : List Line) :
    render lines = Text.ofLines (lines.map Line.body) := by
  rw [render, Text.ofLines, List.flatMap_map]
  exact congrArg (List.flatMap · lines) (funext Line.text_eq_body)

theorem splitOn_render (lines : List Line) (h : ∀ l ∈ lines, l.Readable) :
    (render lines).splitOn Text.lineFeed = lines.map Line.body ++ [[]] := by
  rw [render_eq_ofLines, Text.splitOn_ofLines]
  intro body hbody
  obtain ⟨l, hl, rfl⟩ := List.mem_map.mp hbody
  exact lineFeed_notMem_body (h l hl)

def numbered (n : Nat) : List Line → List (Nat × Statement)
  | [] => []
  | l :: lines => (l.statement?.map (n, ·)).toList ++ numbered (n + 1) lines

theorem parseStatements_bodies (lines : List Line) (h : ∀ l ∈ lines, l.Readable) (n : Nat)
    (found : Array (Nat × Statement)) :
    parseStatements n found (lines.map Line.body ++ [[]]) =
      .ok (found ++ (numbered n lines).toArray) := by
  induction lines generalizing n found with
  | nil =>
      show Except.ok found = _
      simp [numbered]
  | cons l lines ih =>
      have hrest := ih fun l' hl => h l' (List.mem_cons_of_mem _ hl)
      rw [List.map_cons, List.cons_append, parseStatements,
        parseStatement_body (h l List.mem_cons_self), numbered]
      cases l.statement? with
      | none => simpa using hrest (n + 1) found
      | some s =>
          show parseStatements (n + 1) (found.push (n, s)) _ = _
          rw [hrest (n + 1) (found.push (n, s))]
          simp

/-- **Reading what was written.** -/
theorem statements_render (lines : List Line) (h : ∀ l ∈ lines, l.Readable) :
    statements (render lines) = .ok (numbered 1 lines) := by
  rw [statements, splitOn_render lines h, parseStatements_bodies lines h]
  simp [Except.map]

end HackStack.Assembly
