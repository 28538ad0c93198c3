import HackStack.Proofs.Text.Numeral
import HackStack.Vm.Line

/-!
# Commands that a source line can hold

A command that was read from a line is valid: its index or count is in range for its segment, its
name is an identifier, and it does not pop to a constant (`isValid_of_parseCommand`). Conversely a
line holds each valid command that its words spell (`parseCommand_eq_some_iff`); these are the words
of the command's stem and, after them, its number with any leading zeros.
-/

namespace HackStack.Vm

def Segment.lastIndex : Segment → Nat
  | pointer => 1
  | temp => 7
  | _ => largestIndex

def Segment.hasIndex (s : Segment) (index : Int) : Bool :=
  decide (0 ≤ index) && decide (index ≤ s.lastIndex)

def isCount (n : Int) : Bool := decide (0 ≤ n) && decide (n ≤ largestIndex)

/-- Whether a source line can hold a command. -/
def Command.isValid : Command → Bool
  | arithmetic _ | ret => true
  | push s i => s.hasIndex i
  | pop s i => s != .constant && s.hasIndex i
  | label name | goto name | ifGoto name => isIdentifier name
  | call name n | function name n => isFunctionName name && isCount n

/-- A command that was read from some line. -/
def Command.Accepted (c : Command) : Prop := ∃ raw number, parseCommand raw number = .ok (some c)

/-- Commands that were read from lines one by one. -/
theorem accepted_of_lines (lines : List Text) {cs : List Command}
    (h : lines.map (parseCommand · 1) = cs.map fun c => .ok (some c)) : ∀ c ∈ cs, c.Accepted := by
  intro c hc
  have hread : .ok (some c) ∈ lines.map (parseCommand · 1) := h ▸ List.mem_map_of_mem hc
  obtain ⟨raw, -, hraw⟩ := List.mem_map.mp hread
  exact ⟨raw, 1, hraw⟩

/-! ## Words of a command -/

/-- The words of a command apart from its number. -/
def Command.stem : Command → List Text
  | arithmetic op => [op.name]
  | push s _ => ["push", s.name]
  | pop s _ => ["pop", s.name]
  | label name => ["label", name]
  | goto name => ["goto", name]
  | ifGoto name => ["if-goto", name]
  | call name _ => ["call", name]
  | function name _ => ["function", name]
  | ret => ["return"]

def Command.number? : Command → Option Int
  | push _ n | pop _ n | call _ n | function _ n => some n
  | _ => none

theorem Command.number_nonneg {c : Command} {n : Int} (h : c.isValid = true)
    (hn : c.number? = some n) : 0 ≤ n := by
  have hindex : ∀ {s : Segment} {i : Int}, s.hasIndex i = true → 0 ≤ i := by
    intro s i hi
    rw [Segment.hasIndex, Bool.and_eq_true, decide_eq_true_eq] at hi
    exact hi.1
  have hcount : ∀ {k : Int}, isCount k = true → 0 ≤ k := by
    intro k hk
    rw [isCount, Bool.and_eq_true, decide_eq_true_eq] at hk
    exact hk.1
  cases c with
  | push s i =>
      cases hn
      exact hindex h
  | pop s i =>
      cases hn
      exact hindex (Bool.and_eq_true _ _ ▸ h).2
  | call name k =>
      cases hn
      exact hcount (Bool.and_eq_true _ _ ▸ h).2
  | function name k =>
      cases hn
      exact hcount (Bool.and_eq_true _ _ ▸ h).2
  | _ => cases hn

/-- The index in a command is not negative. -/
theorem Command.index_nonneg {c : Command} {s : Segment} {i : Int} (h : c.isValid = true)
    (hc : c = .push s i ∨ c = .pop s i) : 0 ≤ i := by
  rcases hc with rfl | rfl
  · exact number_nonneg h rfl
  · exact number_nonneg h rfl

/-- A word consists of digits, of which some may be leading zeros, and has a value. -/
def Spells (w : Text) (n : Int) : Prop :=
  w ≠ [] ∧ w.all Text.isDigit = true ∧ (Text.numeralValue w : Int) = n

/-- The words that hold a command: those of its stem, and then its number in any spelling. -/
def Command.ReadFrom (c : Command) (ws : List Text) : Prop :=
  match c.number? with
  | none => ws = c.stem
  | some n => ∃ w, ws = c.stem ++ [w] ∧ Spells w n

/-! ## What the readers of one or two words accept -/

theorem Segment.ofName?_eq_some_iff {t : Text} {s : Segment} : ofName? t = some s ↔ t = s.name := by
  constructor
  · intro h
    exact (of_decide_eq_true (List.find?_some h :)).symm
  · rintro rfl
    cases s <;> rfl

theorem Op.ofName?_eq_some_iff {t : Text} {op : Op} : ofName? t = some op ↔ t = op.name := by
  constructor
  · intro h
    exact (of_decide_eq_true (List.find?_some h :)).symm
  · rintro rfl
    cases op <;> rfl

theorem isCount_natCast {n : Nat} : isCount n = true ↔ n ≤ largestIndex := by
  simp [isCount]

/-- The two segments with few words are checked one after the other. -/
theorem Segment.hasIndex_natCast {s : Segment} {i : Nat} :
    s.hasIndex i = true ↔ i ≤ largestIndex ∧ ¬(s = .pointer ∧ 1 < i) ∧ ¬(s = .temp ∧ 7 < i) := by
  have hindex : s.hasIndex i = true ↔ i ≤ s.lastIndex := by simp [hasIndex]
  rw [hindex]
  cases s <;> simp [lastIndex, largestIndex] <;> omega

theorem parseNumber_eq_ok_iff {w : Text} {n : Nat} :
    parseNumber w = .ok n ↔ Spells w n ∧ n ≤ largestIndex := by
  have hread : parseNumber w = .ok n ↔ Text.natUpTo? largestIndex w = some n := by
    unfold parseNumber
    cases Text.natUpTo? largestIndex w <;> simp
  rw [hread, Text.natUpTo?_eq_some_iff, Spells, Int.natCast_inj]
  simp only [and_assoc]

theorem parseCell_eq_ok_iff {segment index : Text} {s : Segment} {i : Nat} :
    parseCell segment index = .ok (s, i) ↔
      segment = s.name ∧ Spells index i ∧ s.hasIndex i = true := by
  rw [Segment.hasIndex_natCast, parseCell]
  constructor
  · intro h
    cases hs : Segment.ofName? segment with
    | none =>
        rw [hs] at h
        cases h
    | some s' =>
        cases hi : parseNumber index with
        | error e =>
            rw [hs, hi] at h
            cases h
        | ok i' =>
            rw [hs, hi] at h
            dsimp only at h
            by_cases hpointer : s' = .pointer ∧ 1 < i'
            · rw [if_pos hpointer] at h
              cases h
            by_cases htemp : s' = .temp ∧ 7 < i'
            · rw [if_neg hpointer, if_pos htemp] at h
              cases h
            rw [if_neg hpointer, if_neg htemp] at h
            cases h
            obtain ⟨hspells, hle⟩ := parseNumber_eq_ok_iff.mp hi
            exact ⟨Segment.ofName?_eq_some_iff.mp hs, hspells, hle, hpointer, htemp⟩
  · rintro ⟨hs, hspells, hle, hpointer, htemp⟩
    rw [Segment.ofName?_eq_some_iff.mpr hs, parseNumber_eq_ok_iff.mpr ⟨hspells, hle⟩]
    dsimp only
    rw [if_neg hpointer, if_neg htemp]

theorem parseLabel_eq_ok_iff {w name : Text} :
    parseLabel w = .ok name ↔ w = name ∧ isIdentifier name = true := by
  rw [parseLabel]
  by_cases hw : isIdentifier w = true
  · rw [if_pos hw, Except.ok.injEq]
    exact ⟨fun h => ⟨h, h ▸ hw⟩, And.left⟩
  · rw [if_neg hw]
    constructor
    · intro h
      cases h
    · rintro ⟨rfl, h⟩
      exact absurd h hw

theorem exists_of_map_eq_ok {ε α β : Type} {x : Except ε α} {f : α → β} {b : β}
    (h : x.map f = .ok b) : ∃ a, x = .ok a ∧ f a = b := by
  cases x with
  | error e => cases h
  | ok a =>
      cases h
      exact ⟨a, rfl, rfl⟩

theorem parseFunction_eq_ok_iff {w count name : Text} {n : Nat} :
    parseFunction w count = .ok (name, n) ↔
      w = name ∧ isFunctionName name = true ∧ Spells count n ∧ isCount n = true := by
  rw [isCount_natCast, ← parseNumber_eq_ok_iff, parseFunction]
  constructor
  · intro h
    by_cases hname : (!isIdentifier w) = true
    · rw [if_pos hname] at h
      cases h
    by_cases hform : hasStaticForm w = true
    · rw [if_neg hname, if_pos hform] at h
      cases h
    rw [if_neg hname, if_neg hform] at h
    obtain ⟨m, hm, hpair⟩ := exists_of_map_eq_ok h
    cases hpair
    refine ⟨rfl, ?_, hm⟩
    simp only [isFunctionName, Bool.and_eq_true, Bool.not_eq_true'] at *
    exact ⟨Bool.not_eq_false _ ▸ hname, Bool.not_eq_true _ ▸ hform⟩
  · rintro ⟨rfl, hname, hcount⟩
    rw [isFunctionName, Bool.and_eq_true, Bool.not_eq_true'] at hname
    rw [hname.1, hname.2, hcount]
    rfl

/-! ## What the words of a line hold -/

section Sound

variable {keyword : Text} {operands : List Text} {c : Command}

theorem sound_of_parsePush
    (h : (match operands with
      | [s, i] => (parseCell s i).map fun (s, i) => .push s i
      | _ => .error (.segmentAndIndex keyword) : Except Cause Command) = .ok c) :
    c.isValid = true ∧ c.ReadFrom ("push" :: operands) := by
  match operands, h with
  | [s, i], h =>
      obtain ⟨⟨s', i'⟩, hcell, rfl⟩ := exists_of_map_eq_ok h
      obtain ⟨rfl, hspells, hindex⟩ := parseCell_eq_ok_iff.mp hcell
      exact ⟨hindex, i, rfl, hspells⟩

/-- A cell is read in full before the segment is refused. -/
theorem sound_of_parsePop
    (h : (match operands with
      | [s, i] =>
        match parseCell s i with
        | .error e => .error e
        | .ok (s, i) => if s = .constant then .error .popConstant else .ok (.pop s i)
      | _ => .error (.segmentAndIndex keyword) : Except Cause Command) = .ok c) :
    c.isValid = true ∧ c.ReadFrom ("pop" :: operands) := by
  match operands, h with
  | [s, i], h =>
      dsimp only at h
      cases hcell : parseCell s i with
      | error e =>
          rw [hcell] at h
          cases h
      | ok cell =>
          obtain ⟨s', i'⟩ := cell
          obtain ⟨rfl, hspells, hindex⟩ := parseCell_eq_ok_iff.mp hcell
          rw [hcell] at h
          dsimp only at h
          by_cases hconstant : s' = .constant
          · rw [if_pos hconstant] at h
            cases h
          · rw [if_neg hconstant] at h
            cases h
            refine ⟨?_, i, rfl, hspells⟩
            rw [Command.isValid, hindex, Bool.and_true, bne_iff_ne]
            exact hconstant

/-- The three branching commands differ in their keyword only. -/
theorem sound_of_parseBranch (make : Text → Command)
    (hvalid : ∀ name, (make name).isValid = isIdentifier name)
    (hwords : ∀ name, (make name).ReadFrom [keyword, name])
    (h : (match operands with
      | [l] => (parseLabel l).map make
      | _ => .error (.labelName keyword) : Except Cause Command) = .ok c) :
    c.isValid = true ∧ c.ReadFrom (keyword :: operands) := by
  match operands, h with
  | [l], h =>
      obtain ⟨name, hname, rfl⟩ := exists_of_map_eq_ok h
      obtain ⟨rfl, hidentifier⟩ := parseLabel_eq_ok_iff.mp hname
      exact ⟨(hvalid l).trans hidentifier, hwords l⟩

/-- So do the two commands with the name of a function. -/
theorem sound_of_parseNamed (make : Text → Int → Command)
    (hvalid : ∀ name n, (make name n).isValid = (isFunctionName name && isCount n))
    (hwords : ∀ name n w, Spells w n → (make name n).ReadFrom [keyword, name, w])
    (h : (match operands with
      | [f, n] => (parseFunction f n).map fun (f, n) => make f n
      | _ => .error (.nameAndCount keyword) : Except Cause Command) = .ok c) :
    c.isValid = true ∧ c.ReadFrom (keyword :: operands) := by
  match operands, h with
  | [f, w], h =>
      obtain ⟨⟨name, n⟩, hname, rfl⟩ := exists_of_map_eq_ok h
      obtain ⟨rfl, hfunction, hspells, hcount⟩ := parseFunction_eq_ok_iff.mp hname
      exact ⟨by rw [hvalid, hfunction, hcount]; rfl, hwords f n w hspells⟩

/-- And so do the commands that are a single word. -/
theorem sound_of_parseBare {done : Command} (hvalid : done.isValid = true)
    (hwords : done.ReadFrom [keyword])
    (h : (if operands.isEmpty then .ok done
      else .error (.noOperands keyword) : Except Cause Command) = .ok c) :
    c.isValid = true ∧ c.ReadFrom (keyword :: operands) := by
  match operands, h with
  | [], h =>
      cases h
      exact ⟨hvalid, hwords⟩

/-- What is read from the words of a line is valid and has these words. -/
theorem parseWords_sound (h : parseWords keyword operands = .ok c) :
    c.isValid = true ∧ c.ReadFrom (keyword :: operands) := by
  -- one keyword after another; what none of them is names an operation
  unfold parseWords at h
  by_cases hpush : keyword = "push"
  · rw [if_pos hpush] at h
    exact hpush ▸ sound_of_parsePush h
  rw [if_neg hpush] at h
  by_cases hpop : keyword = "pop"
  · rw [if_pos hpop] at h
    exact hpop ▸ sound_of_parsePop h
  rw [if_neg hpop] at h
  by_cases hlabel : keyword = "label"
  · rw [if_pos hlabel] at h
    exact sound_of_parseBranch .label (fun _ => rfl) (fun _ => hlabel ▸ rfl) h
  rw [if_neg hlabel] at h
  by_cases hgoto : keyword = "goto"
  · rw [if_pos hgoto] at h
    exact sound_of_parseBranch .goto (fun _ => rfl) (fun _ => hgoto ▸ rfl) h
  rw [if_neg hgoto] at h
  by_cases hif : keyword = "if-goto"
  · rw [if_pos hif] at h
    exact sound_of_parseBranch .ifGoto (fun _ => rfl) (fun _ => hif ▸ rfl) h
  rw [if_neg hif] at h
  by_cases hfunction : keyword = "function"
  · rw [if_pos hfunction] at h
    exact sound_of_parseNamed .function (fun _ _ => rfl)
      (fun _ _ w hw => hfunction ▸ ⟨w, rfl, hw⟩) h
  rw [if_neg hfunction] at h
  by_cases hcall : keyword = "call"
  · rw [if_pos hcall] at h
    exact sound_of_parseNamed .call (fun _ _ => rfl) (fun _ _ w hw => hcall ▸ ⟨w, rfl, hw⟩) h
  rw [if_neg hcall] at h
  by_cases hreturn : keyword = "return"
  · rw [if_pos hreturn] at h
    exact sound_of_parseBare rfl (hreturn ▸ rfl) h
  rw [if_neg hreturn] at h
  cases hop : Op.ofName? keyword with
  | none =>
      rw [hop] at h
      cases h
  | some op =>
      rw [hop] at h
      exact sound_of_parseBare rfl
        (Op.ofName?_eq_some_iff.mp hop ▸ rfl) h

end Sound

/-- A valid command is read from each of its spellings. -/
theorem parseWords_complete {keyword : Text} {operands : List Text} {c : Command}
    (hc : c.isValid = true) (h : c.ReadFrom (keyword :: operands)) :
    parseWords keyword operands = .ok c := by
  cases c with
  | arithmetic op =>
      cases h
      cases op <;> rfl
  | push s i =>
      obtain ⟨w, hws, hw⟩ := h
      obtain ⟨rfl, rfl⟩ := List.cons.inj hws
      obtain rfl := hw.2.2
      show (parseCell s.name w).map _ = _
      rw [parseCell_eq_ok_iff.mpr ⟨rfl, hw, hc⟩]
      rfl
  | pop s i =>
      obtain ⟨w, hws, hw⟩ := h
      obtain ⟨rfl, rfl⟩ := List.cons.inj hws
      obtain rfl := hw.2.2
      rw [Command.isValid, Bool.and_eq_true, bne_iff_ne] at hc
      show (match parseCell s.name w with
        | .error e => .error e
        | .ok (s, i) => if s = .constant then .error .popConstant else .ok (.pop s i)) =
          Except.ok (Command.pop s _)
      rw [parseCell_eq_ok_iff.mpr ⟨rfl, hw, hc.2⟩]
      exact if_neg hc.1
  | label name =>
      cases h
      show (parseLabel name).map _ = _
      rw [parseLabel_eq_ok_iff.mpr ⟨rfl, hc⟩]
      rfl
  | goto name =>
      cases h
      show (parseLabel name).map _ = _
      rw [parseLabel_eq_ok_iff.mpr ⟨rfl, hc⟩]
      rfl
  | ifGoto name =>
      cases h
      show (parseLabel name).map _ = _
      rw [parseLabel_eq_ok_iff.mpr ⟨rfl, hc⟩]
      rfl
  | call name n =>
      obtain ⟨w, hws, hw⟩ := h
      obtain ⟨rfl, rfl⟩ := List.cons.inj hws
      obtain rfl := hw.2.2
      rw [Command.isValid, Bool.and_eq_true] at hc
      show (parseFunction name w).map _ = _
      rw [parseFunction_eq_ok_iff.mpr ⟨rfl, hc.1, hw, hc.2⟩]
      rfl
  | function name n =>
      obtain ⟨w, hws, hw⟩ := h
      obtain ⟨rfl, rfl⟩ := List.cons.inj hws
      obtain rfl := hw.2.2
      rw [Command.isValid, Bool.and_eq_true] at hc
      show (parseFunction name w).map _ = _
      rw [parseFunction_eq_ok_iff.mpr ⟨rfl, hc.1, hw, hc.2⟩]
      rfl
  | ret =>
      cases h
      rfl

theorem parseWords_eq_ok_iff {keyword : Text} {operands : List Text} {c : Command} :
    parseWords keyword operands = .ok c ↔ c.isValid = true ∧ c.ReadFrom (keyword :: operands) :=
  ⟨parseWords_sound, fun h => parseWords_complete h.1 h.2⟩

theorem not_readFrom_nil (c : Command) : ¬c.ReadFrom [] := by
  intro h
  cases c <;> simp [Command.ReadFrom, Command.number?, Command.stem] at h

/-- **A line holds a command** if its words, up to a comment, spell it. -/
theorem parseCommand_eq_some_iff {raw : Text} {number : Int} {c : Command} :
    parseCommand raw number = .ok (some c) ↔
      c.isValid = true ∧ c.ReadFrom raw.dropComment.words := by
  unfold parseCommand
  dsimp only
  cases raw.dropComment.words with
  | nil =>
      constructor
      · intro h
        cases h
      · intro h
        exact absurd h.2 (not_readFrom_nil c)
  | cons keyword operands =>
      rw [← parseWords_eq_ok_iff]
      dsimp only
      cases parseWords keyword operands <;> simp

/-- **What was read is valid.** -/
theorem isValid_of_parseCommand {raw : Text} {number : Int} {c : Command}
    (h : parseCommand raw number = .ok (some c)) : c.isValid = true :=
  (parseCommand_eq_some_iff.mp h).1

theorem Command.Accepted.isValid {c : Command} (h : c.Accepted) : c.isValid = true := by
  obtain ⟨raw, number, h⟩ := h
  exact isValid_of_parseCommand h

/-- A line without words holds nothing, whatever its number. -/
theorem parseCommand_eq_none_iff {raw : Text} {number : Int} :
    parseCommand raw number = .ok none ↔ raw.dropComment.words = [] := by
  unfold parseCommand
  dsimp only
  cases raw.dropComment.words with
  | nil => simp
  | cons keyword operands =>
      dsimp only
      cases parseWords keyword operands <;> simp

/-- A line's number matters for its refusal only. -/
theorem parseCommand_ok_number {raw : Text} {m : Int} {found : Option Command}
    (h : parseCommand raw m = .ok found) (n : Int) : parseCommand raw n = .ok found := by
  cases found with
  | none => exact parseCommand_eq_none_iff.mpr (parseCommand_eq_none_iff.mp h)
  | some c => exact parseCommand_eq_some_iff.mpr (parseCommand_eq_some_iff.mp h)

/-- A refusal names the line and shows what the line holds apart from comment and margins. -/
theorem line_text_of_parseCommand {raw : Text} {number : Int} {e : LineError}
    (h : parseCommand raw number = .error e) :
    e.line = number ∧ e.text = raw.dropComment.trim := by
  unfold parseCommand at h
  dsimp only at h
  split at h
  · cases h
  · split at h
    · cases h
    · cases h
      exact ⟨rfl, rfl⟩

end HackStack.Vm
