import HackStack.Proofs.Lowering.Legible

/-!
# Faults

A generator refuses a request that it has no code for. `Request.Faulty` lists these requests, and
`Generator.serve_snd_eq_none_iff` shows that it refuses no others, in any state: a fault that an
emission checks for on its way, such as a drift of the code of a truth value, never arises.

A refusal comes before the first line of code and leaves no trace but a comment. Nothing that a
generator does depends on the code so far (`Generator.performAll_withCode`), so what is asked for
later gets the code that it would have got without the refused request.
-/

namespace HackStack.Lowering

open HackStack.Assembly
open HackStack.Vm

namespace Request

/-- There is no segment with the number, or the segment has no word with the index. -/
def FaultyWord (n i : Int) : Prop :=
  (∀ s : Segment, n ≠ s.code) ∨
    n = Segment.temp.code ∧ ¬(0 ≤ i ∧ i ≤ 7) ∨ n = Segment.pointer.code ∧ ¬(0 ≤ i ∧ i ≤ 1)

/-- There is no command, no operation with the number, no such word, or nowhere to pop to. -/
def Faulty : Request → Prop
  | nothing => True
  | arithmetic n => ∀ op : Op, n ≠ op.code
  | push n i => FaultyWord n i
  | pop n i => n = Segment.constant.code ∨ FaultyWord n i
  | _ => False

/-! ## Which requests are refused -/

theorem not_faultyWord_iff {n i : Int} :
    ¬FaultyWord n i ↔ ∃ s, Segment.ofCode? n = some s ∧ ¬s.Lacks i := by
  have hcode : ∀ s s' : Segment, (s.code : Int) = s'.code ↔ s = s' := by
    intro s s'
    rw [← Segment.ofCode?_eq_some_iff, Segment.ofCode?_code, Option.some.injEq]
  constructor
  · intro h
    simp only [FaultyWord, not_or, not_forall, not_not] at h
    obtain ⟨⟨s, rfl⟩, hshort⟩ := h
    refine ⟨s, Segment.ofCode?_code s, ?_⟩
    rwa [Segment.Lacks, not_or, ← hcode s .temp, ← hcode s .pointer]
  · rintro ⟨s, hs, hlacks⟩ (hnone | hshort)
    · exact hnone s (Segment.ofCode?_eq_some_iff.mp hs)
    · rw [Segment.ofCode?_eq_some_iff.mp hs, hcode, hcode] at hshort
      exact hlacks hshort

/-- A request is in order if it stands for a command that has code. -/
theorem not_faulty_iff {r : Request} :
    ¬r.Faulty ↔ ∃ c, r.command? = .ok c ∧ ¬c.Unplaced := by
  cases r with
  | nothing => simp [Faulty, command?]
  | arithmetic n =>
      simp only [Faulty, command?, not_forall, not_not]
      constructor
      · rintro ⟨op, rfl⟩
        rw [Op.ofCode?_code]
        exact ⟨_, rfl, not_false⟩
      · rintro ⟨c, hc, -⟩
        split at hc
        · next op hop => exact ⟨op, Op.ofCode?_eq_some_iff.mp hop⟩
        · cases hc
  | push n i =>
      rw [Faulty, not_faultyWord_iff]
      simp only [command?]
      constructor
      · rintro ⟨s, hs, hlacks⟩
        rw [hs]
        exact ⟨_, rfl, hlacks⟩
      · rintro ⟨c, hc, hplaced⟩
        split at hc
        · next s hs =>
            cases hc
            exact ⟨s, hs, hplaced⟩
        · cases hc
  | pop n i =>
      rw [Faulty, not_or, not_faultyWord_iff, ← Segment.ofCode?_eq_some_iff]
      simp only [command?]
      constructor
      · rintro ⟨hconstant, s, hs, hlacks⟩
        rw [hs] at hconstant ⊢
        refine ⟨_, rfl, ?_⟩
        rintro (rfl | h)
        · exact hconstant rfl
        · exact hlacks h
      · rintro ⟨c, hc, hplaced⟩
        split at hc
        · next s hs =>
            cases hc
            rw [Command.Unplaced, not_or] at hplaced
            exact ⟨fun h => hplaced.1 (Option.some.inj (hs.symm.trans h)), s, hs, hplaced.2⟩
        · cases hc
  | _ => simp [Faulty, command?, Command.Unplaced]

theorem not_faulty_ofCommand {c : Command} (h : c.isValid = true) : ¬(ofCommand c).Faulty :=
  not_faulty_iff.mpr ⟨c, command?_ofCommand c, Generator.not_unplaced_of_isValid h⟩

/-- What is said of a refused request fits on one line, whatever its numbers are. -/
theorem lineFeed_notMem_text {r : Request} {t : Text} (h : r.Faulty) (ht : r.text? = some t) :
    Text.lineFeed ∉ t := by
  have hunknown : ∀ (name : Text) (n : Int), Text.lineFeed ∉ name →
      Text.lineFeed ∉ name ++ Text.ofInt n ++ (")" : Text) := by
    intro name n hname
    simp only [List.mem_append, not_or]
    exact ⟨⟨hname, Generator.lineFeed_notMem_ofInt n⟩, by decide⟩
  have hsegment : ∀ n, Text.lineFeed ∉ Segment.nameOfCode n := by
    intro n
    unfold Segment.nameOfCode
    split
    · exact Generator.lineFeed_notMem_segment _
    · exact hunknown _ n (by decide)
  cases r with
  | nothing => cases ht
  | arithmetic n =>
      cases ht
      unfold Op.nameOfCode
      split
      · next op hop => exact absurd (Op.ofCode?_eq_some_iff.mp hop) (h op)
      · exact hunknown _ n (by decide)
  | push n i =>
      cases ht
      exact Generator.lineFeed_notMem_threeWords (by decide) (hsegment n) i
  | pop n i =>
      cases ht
      exact Generator.lineFeed_notMem_threeWords (by decide) (hsegment n) i
  | _ => cases h

end Request

namespace Generator

theorem generate_snd_eq_none_iff {e : Generator} {c : Command} :
    (e.generate c).2 = none ↔ ¬c.Unplaced := by
  rw [← exists_block_iff (e := e)]
  cases h : e.block c with
  | ok lines => simp [generate_of_block h]
  | error f => simp [generate_of_fault h]

theorem serve_snd_eq_none_iff {e : Generator} {r : Request} :
    (e.serve r).2 = none ↔ ¬r.Faulty := by
  rw [Request.not_faulty_iff]
  cases h : r.command? with
  | ok c => simp [serve_of_command h, generate_snd_eq_none_iff]
  | error f => simp [serve_of_fault h]

theorem serveDescribed_snd_eq_none_iff {e : Generator} {r : Request} :
    (e.serveDescribed r).2 = none ↔ ¬r.Faulty := by
  by_cases hu : e.uncommented = true
  · rw [serveDescribed_of_uncommented hu]
    exact serve_snd_eq_none_iff
  · cases ht : r.text? with
    | none =>
        rw [serveDescribed_of_none hu ht]
        cases r with
        | nothing => simp [Request.Faulty]
        | _ => cases ht
    | some t =>
        rw [serveDescribed_of_text hu ht]
        exact serve_snd_eq_none_iff

/-! ## What a refusal leaves behind -/

def withCode (e : Generator) (code : Array Line) : Generator := { e with code := code }

@[simp] theorem withCode_code (e : Generator) : e.withCode e.code = e := rfl

theorem lines_withCode (e : Generator) (code : Array Line) (a : Action) :
    (e.withCode code).lines a = e.lines a := by
  have hblock : ∀ c, (e.withCode code).block c = e.block c := by
    intro c
    cases c <;> rfl
  have hremark : (e.withCode code).remarkLines a = e.remarkLines a := by
    cases a <;> rfl
  simp only [lines, blockLines, hblock, hremark]

theorem after_withCode (e : Generator) (code : Array Line) (a : Action) :
    (e.withCode code).after a = (e.after a).withCode code := by
  have hcounter := (e.after_frame a).2.1
  show { e with counter := e.counter, code := code }.after a = _
  rw [after_with, withCode, ← hcounter]

/-- **The code so far has no influence on an action.** -/
theorem perform_withCode (e : Generator) (code : Array Line) (a : Action) :
    (e.withCode code).perform a = (e.perform a).withCode (code ++ e.lines a) := by
  have hemit : ∀ new : List Line,
      (e.withCode code).emit new = (e.emit new).withCode (code ++ new) := fun new => rfl
  rw [perform_eq, perform_eq, lines_withCode, hemit, after_withCode]

def linesAll (e : Generator) : List Action → List Line
  | [] => []
  | a :: rest => e.lines a ++ (e.perform a).linesAll rest

theorem performAll_withCode (e : Generator) (code : Array Line) (actions : List Action) :
    (e.withCode code).performAll actions =
      (e.performAll actions).withCode (code ++ e.linesAll actions) := by
  induction actions generalizing e code with
  | nil => simp [performAll, linesAll]
  | cons a rest ih =>
      have hcode : code ++ e.lines a ++ (e.perform a).linesAll rest =
          code ++ (e.lines a ++ (e.perform a).linesAll rest) := Array.toList_inj.mp (by simp)
      show ((e.withCode code).perform a).performAll rest = _
      rw [perform_withCode, ih, hcode]
      rfl

theorem performAll_code (e : Generator) (actions : List Action) :
    (e.performAll actions).code = e.code ++ e.linesAll actions :=
  congrArg code (performAll_withCode e e.code actions)

theorem serve_fst_of_faulty (e : Generator) {r : Request} (h : r.Faulty) : (e.serve r).1 = e := by
  cases hc : r.command? with
  | error f => rw [serve_of_fault hc]
  | ok c =>
      cases hb : e.block c with
      | error f => rw [serve_of_command hc, generate_of_fault hb]
      | ok lines =>
          exact absurd h (Request.not_faulty_iff.mpr ⟨c, hc, exists_block_iff.mp ⟨lines, hb⟩⟩)

theorem serveDescribed_fst_of_faulty (e : Generator) {r : Request} (h : r.Faulty) :
    (e.serveDescribed r).1 = e.withCode (e.code ++ e.remarkLines (.write r)) := by
  have hremark : e.remarkLines (.write r) =
      if e.uncommented then [] else (r.text?.map Line.comment).toList := rfl
  by_cases hu : e.uncommented = true
  · rw [hremark, if_pos hu, serveDescribed_of_uncommented hu, serve_fst_of_faulty e h]
    simp
  · rw [hremark, if_neg hu]
    cases ht : r.text? with
    | none =>
        rw [serveDescribed_of_none hu ht]
        simp
    | some t =>
        rw [serveDescribed_of_text hu ht, serve_fst_of_faulty _ h]
        rfl

/-- The state `e'` is `e` but for a comment on the request, which is one line, and every use of the
generator from then on has the same effect and appends the same lines as without the request. -/
structure Refused (e : Generator) (r : Request) (e' : Generator) : Prop where
  counter : e'.counter = e.counter
  scope : e'.scope = e.scope
  openFunctions : e'.openFunctions = e.openFunctions
  closedFunction : e'.closedFunction = e.closedFunction
  calls : e'.calls = e.calls
  unit : e'.unit = e.unit
  uncommented : e'.uncommented = e.uncommented
  code : e'.code = e.code ∨
    ∃ t, r.text? = some t ∧ Text.lineFeed ∉ t ∧ e'.code = e.code ++ [Line.comment t]
  later : ∀ actions, ∃ lines : List Line,
    (e.performAll actions).code = e.code ++ lines ∧
      e'.performAll actions = (e.performAll actions).withCode (e'.code ++ lines)

theorem refused_serveDescribed (e : Generator) {r : Request} (h : r.Faulty) :
    e.Refused r (e.serveDescribed r).1 := by
  rw [serveDescribed_fst_of_faulty e h]
  refine ⟨rfl, rfl, rfl, rfl, rfl, rfl, rfl, ?_, ?_⟩
  · simp only [withCode, remarkLines]
    split
    · exact Or.inl (by simp)
    · cases ht : r.text? with
      | none => exact Or.inl (by simp)
      | some t => exact Or.inr ⟨t, rfl, Request.lineFeed_notMem_text h ht, rfl⟩
  · intro actions
    exact ⟨e.linesAll actions, performAll_code e actions, performAll_withCode e _ actions⟩

/-- **Faults.** A generator in any state refuses no command that a source line can hold. Of the
requests it refuses exactly the faulty ones, with and without a comment, and a refused request
leaves at most its comment. -/
theorem refuses_exactly_faulty (e : Generator) :
    (∀ c : Command, c.Accepted → (e.write c).2 = none) ∧
    ∀ r : Request,
      ((e.serve r).2 ≠ none ↔ r.Faulty) ∧
      ((e.serveDescribed r).2 ≠ none ↔ r.Faulty) ∧
      (r.Faulty → (e.serve r).1 = e ∧ e.Refused r (e.serveDescribed r).1) := by
  refine ⟨?_, fun r => ⟨?_, ?_, ?_⟩⟩
  · intro c hc
    exact serveDescribed_snd_eq_none_iff.mpr (Request.not_faulty_ofCommand hc.isValid)
  · rw [ne_eq, serve_snd_eq_none_iff, not_not]
  · rw [ne_eq, serveDescribed_snd_eq_none_iff, not_not]
  · intro h
    exact ⟨serve_fst_of_faulty e h, refused_serveDescribed e h⟩

/-- A state behind an early return, inside of a function, with comments. -/
def behindReturn : Generator :=
  run ⟨false, "", false⟩ [.unit "Main", .write (.function "Main.main" 1), .bare .ret]

/-- The eighth word of the temp segment is the last, and nothing can be popped to a constant. -/
theorem refuses_exactly_faulty_behindReturn :
    ((Command.push .temp 7).Accepted ∧ (behindReturn.write (.push .temp 7)).2 = none) ∧
    ((Request.push 6 8).Faulty ∧ (behindReturn.serveDescribed (.push 6 8)).2 ≠ none ∧
      behindReturn.Refused (.push 6 8) (behindReturn.serveDescribed (.push 6 8)).1) ∧
    (Request.pop 7 0).Faulty ∧ (behindReturn.serve (.pop 7 0)).1 = behindReturn := by
  have haccepted : (Command.push .temp 7).Accepted := ⟨"push temp 7", 1, by decide⟩
  have htemp : (Request.push 6 8).Faulty := Or.inr (Or.inl ⟨rfl, by decide⟩)
  have hconstant : (Request.pop 7 0).Faulty := Or.inl rfl
  obtain ⟨hwrite, hserve⟩ := refuses_exactly_faulty behindReturn
  obtain ⟨-, hfault, hrefused⟩ := hserve (.push 6 8)
  obtain ⟨-, -, hunchanged⟩ := hserve (.pop 7 0)
  exact ⟨⟨haccepted, hwrite _ haccepted⟩, ⟨htemp, hfault.mpr htemp, (hrefused htemp).2⟩, hconstant,
    (hunchanged hconstant).1⟩

end Generator

end HackStack.Lowering
