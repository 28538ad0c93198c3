import HackStack.Proofs.Lowering.Fault
import HackStack.Proofs.Lowering.Layout
import HackStack.Proofs.Vm.Grammar
import HackStack.Repl.Session

/-!
# Sessions and runs

A session generates the code of the commands that are entered one by one, between requests, blank
lines and refused lines. `action?` says what a line asks of the generator. After any lines, the
session's generator is that of the run of these actions, and what the lines have shown, put
together, is the text of the run (`session_eq_run`): nothing is lost, shown twice or shown later.
-/

namespace HackStack.Repl

open HackStack.Assembly
open HackStack.Lowering
open HackStack.Vm

/-! ## What lines ask for -/

/-- Whether a line is a request to the session: whether it starts with a colon. -/
def isRequest (line : Text) : Bool := line.trim.head? == some 0x3A

/-- What the words of a request ask the generator to do. -/
def unitRequest? : List Text → Option Action
  | [name, unit] => if name = ":unit" ∧ isIdentifier unit = true then some (.unit unit) else none
  | _ => none

/-- What a line asks the generator to do: a request may name a unit, another line may hold a
command. -/
def action? (line : Text) : Option Action :=
  if isRequest line then unitRequest? line.words
  else
    match parseCommand line 1 with
    | .ok (some c) => some (.ofCommand c)
    | _ => none

/-- The session after lines, and what each of them gives. -/
def Session.evalAll (s : Session) : List Text → Session × List (Except EntryError Reply)
  | [] => (s, [])
  | line :: lines =>
    let (s, reply) := s.eval line
    let (s, replies) := s.evalAll lines
    (s, reply :: replies)

/-- How many of the lines up to the one with index `k` are no requests. -/
def entryNumber (lines : List Text) (k : Nat) : Nat := (lines.take (k + 1)).countP (!isRequest ·)

def output : Except EntryError Reply → Text
  | .ok (.shows out) => out
  | _ => []

/-- What lines show that are no requests. -/
def codeShown : List Text → List (Except EntryError Reply) → Text
  | line :: lines, reply :: replies =>
    (if isRequest line then [] else output reply) ++ codeShown lines replies
  | _, _ => []

/-! ## One line -/

/-- A request has a first word. -/
theorem words_ne_nil_of_isRequest {line : Text} (h : isRequest line = true) :
    line.words ≠ [] := by
  rw [isRequest, beq_iff_eq] at h
  intro hwords
  rw [← Text.words_trim] at hwords
  have hblank : Text.IsBlank line.trim := (Text.words_eq_iff.mp hwords).isBlank
  obtain ⟨rest, hrest⟩ := List.head?_eq_some_iff.mp h
  rw [hrest, Text.isBlank_iff, Text.glyphs_cons_of_lt rest (by decide)] at hblank
  exact absurd (hblank _ List.mem_cons_self) (by decide)

/-- A reply that is neither a fault of the generator nor the refusal of a line. -/
def IsMild (reply : Except EntryError Reply) : Prop :=
  (∀ f, reply ≠ .error (.faulty f)) ∧ ∀ e, reply ≠ .error (.refused e)

/-- What a line does to a session: the action that it asks for, the session after it and its
reply. -/
inductive Outcome (s : Session) (line : Text) :
    Option Action → Session → Except EntryError Reply → Prop where
  | idle {reply : Except EntryError Reply} : isRequest line = true → IsMild reply →
      Outcome s line none s reply
  | unit {name : Text} {reply : Except EntryError Reply} : isRequest line = true → IsMild reply →
      Outcome s line (some (.unit name))
        { s with generator := s.generator.perform (.unit name) } reply
  | refused {e : LineError} : isRequest line = false →
      parseCommand line (s.lineCount + 1 : Nat) = .error e →
      Outcome s line none { s with lineCount := s.lineCount + 1 } (.error (.refused e))
  | blank : isRequest line = false → parseCommand line (s.lineCount + 1 : Nat) = .ok none →
      Outcome s line none { s with lineCount := s.lineCount + 1 } (.ok (.shows []))
  | command {c : Command} : isRequest line = false →
      parseCommand line (s.lineCount + 1 : Nat) = .ok (some c) →
      Outcome s line (some (.ofCommand c))
        ⟨s.generator.perform (.ofCommand c), (s.generator.perform (.ofCommand c)).code.size,
          s.lineCount + 1⟩
        (.ok (.shows (render ((s.generator.perform (.ofCommand c)).code.toList.drop s.shown))))

theorem outcome_request (s : Session) {line name : Text} {operands : List Text}
    (h : isRequest line = true) :
    Outcome s line (unitRequest? (name :: operands)) (s.request name operands).1
      (s.request name operands).2 := by
  by_cases hunit : name = ":unit"
  · subst hunit
    unfold Session.request
    rw [if_neg (by decide), if_pos rfl]
    match operands with
    | [] => exact .idle h (by simp [IsMild])
    | [unit] =>
        dsimp only
        by_cases hname : isIdentifier unit = true
        · rw [unitRequest?, if_pos ⟨rfl, hname⟩, if_pos hname]
          exact .unit h (by simp [IsMild])
        · rw [unitRequest?, if_neg fun h => hname h.2, if_neg hname]
          exact .idle h (by simp [IsMild])
    | _ :: _ :: _ => exact .idle h (by simp [IsMild])
  · have hnone : unitRequest? (name :: operands) = none := by
      match operands with
      | [] => rfl
      | [unit] => exact if_neg fun h => hunit h.1
      | _ :: _ :: _ => rfl
    unfold Session.request
    rw [hnone, if_neg hunit]
    split
    · exact .idle h (by simp [IsMild])
    split
    · exact .idle h (by simp [IsMild])
    split
    · exact .idle h (by simp [IsMild])
    · exact .idle h (by simp [IsMild])

/-- The code of a command is shown with all that has not been shown before. -/
theorem enter_of_isValid (s : Session) {c : Command} (h : c.isValid = true) :
    s.enter c =
      (⟨s.generator.perform (.ofCommand c), (s.generator.perform (.ofCommand c)).code.size,
          s.lineCount⟩,
        .ok (.shows (render ((s.generator.perform (.ofCommand c)).code.toList.drop s.shown)))) := by
  have hnone : (s.generator.write c).2 = none :=
    Generator.serveDescribed_snd_eq_none_iff.mpr (Request.not_faulty_ofCommand h)
  have hwrite : s.generator.write c = ((s.generator.write c).1, none) := Prod.ext rfl hnone
  rw [Session.enter, hwrite, Generator.perform_ofCommand]
  rfl

/-- A line asks for a command whatever its number is. -/
theorem action?_of_not_isRequest {line : Text} (h : isRequest line = false) (number : Int) :
    action? line =
      match parseCommand line number with
      | .ok (some c) => some (.ofCommand c)
      | _ => none := by
  have hfalse : ¬isRequest line = true := by
    rw [h]
    exact Bool.false_ne_true
  rw [action?, if_neg hfalse]
  match hparse : parseCommand line number with
  | .ok found => rw [parseCommand_ok_number hparse 1]
  | .error e =>
      match hone : parseCommand line 1 with
      | .error e' => rfl
      | .ok found =>
          -- then it is read under every number
          rw [parseCommand_ok_number hone number] at hparse
          cases hparse

theorem eval_of_not_isRequest (s : Session) {line : Text} (h : isRequest line = false) :
    s.eval line =
      match parseCommand line (s.lineCount + 1 : Nat) with
      | .error e => ({ s with lineCount := s.lineCount + 1 }, .error (.refused e))
      | .ok none => ({ s with lineCount := s.lineCount + 1 }, .ok (.shows []))
      | .ok (some c) => { s with lineCount := s.lineCount + 1 }.enter c := by
  have hhead : line.trim.head? ≠ some 0x3A := by
    intro hcolon
    rw [isRequest, hcolon] at h
    cases h
  rw [← parseCommand_trim]
  unfold Session.eval
  dsimp only
  split
  · next hcolon _ => exact absurd hcolon hhead
  · cases parseCommand line.trim (s.lineCount + 1 : Nat) <;> rfl

/-- **One line.** -/
theorem outcome_eval (s : Session) (line : Text) :
    Outcome s line (action? line) (s.eval line).1 (s.eval line).2 := by
  cases h : isRequest line with
  | true =>
      have hhead : line.trim.head? = some 0x3A := beq_iff_eq.mp h
      rw [action?, if_pos h, Session.eval, Text.words_trim, hhead]
      cases hwords : line.words with
      | nil => exact absurd hwords (words_ne_nil_of_isRequest h)
      | cons name operands => exact outcome_request s h
  | false =>
      rw [eval_of_not_isRequest s h, action?_of_not_isRequest h (s.lineCount + 1 : Nat)]
      match hparse : parseCommand line (s.lineCount + 1 : Nat) with
      | .error e => exact .refused h hparse
      | .ok none => exact .blank h hparse
      | .ok (some c) =>
          dsimp only
          rw [enter_of_isValid _ (isValid_of_parseCommand hparse)]
          exact .command h hparse

namespace Outcome

variable {s s' : Session} {line : Text} {a : Option Action} {reply : Except EntryError Reply}
  (h : Outcome s line a s' reply)
include h

/-- Only lines that are no requests are counted. -/
theorem lineCount : s'.lineCount = s.lineCount + if isRequest line then 0 else 1 := by
  cases h with
  | idle hline _ => rw [hline]; rfl
  | unit hline _ => rw [hline]; rfl
  | refused hline _ => rw [hline]; rfl
  | blank hline _ => rw [hline]; rfl
  | command hline _ => rw [hline]; rfl

theorem not_faulty (f : Fault) : reply ≠ .error (.faulty f) := by
  cases h with
  | idle _ hmild => exact hmild.1 f
  | unit _ hmild => exact hmild.1 f
  | refused => simp
  | blank => simp
  | command => simp

/-- A line is refused just as it is when it is read by itself. -/
theorem refused_iff (e : LineError) :
    reply = .error (.refused e) ↔
      isRequest line = false ∧ parseCommand line (s.lineCount + 1 : Nat) = .error e := by
  cases h with
  | idle hline hmild => simp [hline, hmild.2 e]
  | unit hline hmild => simp [hline, hmild.2 e]
  | refused hline hparse => rw [hparse]; simp [hline]
  | blank hline hparse => rw [hparse]; simp [hline]
  | command hline hparse => rw [hparse]; simp [hline]

end Outcome

/-! ## Following a run -/

def hasCommand (actions : List Action) : Bool := actions.any fun a => a.command?.isSome

theorem hasCommand_append (first second : List Action) :
    hasCommand (first ++ second) = (hasCommand first || hasCommand second) :=
  List.any_append

/-- A session that has followed a run and shown `out`: all of its code, or nothing as long as no
command was entered. -/
structure Follows (options : Options) (actions : List Action) (out : Text) (s : Session) :
    Prop where
  generator : s.generator = Generator.run options actions
  shown : s.shown = if hasCommand actions then s.generator.code.size else 0
  out : out = if hasCommand actions then s.generator.text else []

theorem follows_new (options : Options) : Follows options [] [] (Session.new options) :=
  ⟨rfl, rfl, rfl⟩

namespace Follows

variable {options : Options} {actions : List Action} {out : Text} {s s' : Session}
  (h : Follows options actions out s)
include h

/-- Starting a unit writes no code. -/
theorem unit (name : Text) :
    Follows options (actions ++ [.unit name]) out
      { s with generator := s.generator.perform (.unit name) } := by
  have hcommand : hasCommand (actions ++ [.unit name]) = hasCommand actions := by
    rw [hasCommand_append]
    exact Bool.or_false _
  refine ⟨?_, ?_, ?_⟩
  · rw [h.generator, Generator.run_snoc]
  · rw [hcommand]
    exact h.shown
  · rw [hcommand]
    exact h.out

/-- Once a command is written, everything has been shown. -/
theorem command (c : Command) (count : Nat) :
    Follows options (actions ++ [.ofCommand c])
      (out ++ render ((s.generator.perform (.ofCommand c)).code.toList.drop s.shown))
      ⟨s.generator.perform (.ofCommand c), (s.generator.perform (.ofCommand c)).code.size,
        count⟩ := by
  have hcommand : hasCommand (actions ++ [.ofCommand c]) = true := by
    rw [hasCommand_append]
    simp [hasCommand]
  refine ⟨?_, ?_, ?_⟩
  · rw [h.generator, Generator.run_snoc]
  · rw [hcommand]
    rfl
  · rw [hcommand]
    show _ = render (s.generator.perform (.ofCommand c)).code.toList
    -- before the first command nothing was shown, and later all but the new lines
    rw [h.shown, h.out]
    cases hasCommand actions with
    | false => rfl
    | true =>
        simp only [if_true]
        rw [Generator.perform_code, ← Array.length_toList, List.drop_left]
        exact List.flatMap_append.symm

theorem step {line : Text} {a : Option Action} {reply : Except EntryError Reply}
    (hline : Outcome s line a s' reply) :
    Follows options (actions ++ a.toList) (out ++ if isRequest line then [] else output reply)
      s' := by
  cases hline with
  | idle hrequest hmild =>
      simpa [hrequest] using h
  | @unit name reply hrequest hmild =>
      simpa [hrequest] using h.unit name
  | refused hentry hparse =>
      simp only [hentry, Bool.false_eq_true, if_false, Option.toList_none, output, List.append_nil]
      exact ⟨h.generator, h.shown, h.out⟩
  | blank hentry hparse =>
      simp only [hentry, Bool.false_eq_true, if_false, Option.toList_none, output, List.append_nil]
      exact ⟨h.generator, h.shown, h.out⟩
  | @command c hentry hparse =>
      simp only [hentry, Bool.false_eq_true, if_false, Option.toList_some, output]
      exact h.command c _

end Follows

/-! ## Whole sessions -/

namespace Session

theorem evalAll_cons (s : Session) (line : Text) (lines : List Text) :
    s.evalAll (line :: lines) =
      (((s.eval line).1.evalAll lines).1, (s.eval line).2 :: ((s.eval line).1.evalAll lines).2) :=
  rfl

/-- **A session follows the run** of what its lines ask for. -/
theorem follows_evalAll {options : Options} {actions : List Action} {out : Text} {s : Session}
    (h : Follows options actions out s) (lines : List Text) :
    Follows options (actions ++ lines.filterMap action?)
      (out ++ codeShown lines (s.evalAll lines).2) (s.evalAll lines).1 := by
  induction lines generalizing actions out s with
  | nil => simpa [evalAll, codeShown] using h
  | cons line lines ih =>
      have hrest := ih (h.step (outcome_eval s line))
      have hactions : (line :: lines).filterMap action? =
          (action? line).toList ++ lines.filterMap action? := by
        cases haction : action? line <;> simp [haction]
      rw [evalAll_cons, hactions, codeShown, ← List.append_assoc, ← List.append_assoc]
      exact hrest

theorem not_faulty_evalAll (s : Session) (lines : List Text) (f : Fault) :
    .error (.faulty f) ∉ (s.evalAll lines).2 := by
  induction lines generalizing s with
  | nil => exact List.not_mem_nil
  | cons line lines ih =>
      rw [evalAll_cons, List.mem_cons, not_or]
      exact ⟨fun heq => (outcome_eval s line).not_faulty f heq.symm, ih _⟩

/-- The number of a refused line is found by counting. -/
theorem refused_evalAll (s : Session) {lines : List Text} {k : Nat} {line : Text}
    (hk : lines[k]? = some line) (e : LineError) :
    (s.evalAll lines).2[k]? = some (.error (.refused e)) ↔
      isRequest line = false ∧
        parseCommand line (s.lineCount + entryNumber lines k : Nat) = .error e := by
  induction lines generalizing s k with
  | nil => cases hk
  | cons first lines ih =>
      rw [evalAll_cons]
      cases k with
      | zero =>
          cases hk
          rw [List.getElem?_cons_zero, Option.some.injEq, (outcome_eval s line).refused_iff]
          refine and_congr_right fun hentry => ?_
          have hcount : entryNumber (line :: lines) 0 = 1 := by simp [entryNumber, hentry]
          rw [hcount]
      | succ k =>
          have hcount : s.lineCount + entryNumber (first :: lines) (k + 1) =
              (s.eval first).1.lineCount + entryNumber lines k := by
            rw [(outcome_eval s first).lineCount, entryNumber, entryNumber, List.take_succ_cons,
              List.countP_cons]
            cases isRequest first with
            | true => simp
            | false =>
                simp only [Bool.not_false, if_true, Bool.false_eq_true, if_false]
                omega
          rw [List.getElem?_cons_succ, hcount]
          exact ih (s.eval first).1 hk

end Session

/-- **A session is a run.** After any lines, the session's generator is that of a new run of what the
lines ask for. What the lines that are no requests have shown is the text of this run, or nothing if
none of them held a command. No line ends in a fault of the generator. A line that is no request is
refused as it would be by itself, and the refusal carries the number of such lines so far. -/
theorem session_eq_run (options : Options) (lines : List Text) :
    ((Session.new options).evalAll lines).1.generator =
        Generator.run options (lines.filterMap action?) ∧
      codeShown lines ((Session.new options).evalAll lines).2 =
        (if hasCommand (lines.filterMap action?) then
          (Generator.run options (lines.filterMap action?)).text else []) ∧
      (∀ f, .error (.faulty f) ∉ ((Session.new options).evalAll lines).2) ∧
      ∀ (k : Nat) (line : Text) (e : LineError), lines[k]? = some line →
        (((Session.new options).evalAll lines).2[k]? = some (.error (.refused e)) ↔
          isRequest line = false ∧ e.line = entryNumber lines k ∧
            parseCommand line (entryNumber lines k) = .error e) := by
  have hfollows := Session.follows_evalAll (follows_new options) lines
  rw [List.nil_append, List.nil_append] at hfollows
  refine ⟨hfollows.generator, ?_, (Session.new options).not_faulty_evalAll lines, ?_⟩
  · rw [hfollows.out, hfollows.generator]
  · intro k line e hk
    have hrefused := (Session.new options).refused_evalAll hk e
    rw [show (Session.new options).lineCount = 0 from rfl, Nat.zero_add] at hrefused
    rw [hrefused]
    refine and_congr_right fun _ => ?_
    exact ⟨fun hparse => ⟨(line_text_of_parseCommand hparse).1, hparse⟩, And.right⟩

/-- Lines of all kinds. -/
def mixedLines : List Text :=
  ["// start", "push nothing 1", ":unit Lib", "  push static 3 // x", ":unit 7", "pop static 3"]

theorem session_eq_run_mixedLines :
    codeShown mixedLines ((Session.new ⟨true, "", false⟩).evalAll mixedLines).2 =
        (Generator.run ⟨true, "", false⟩ [.unit "Lib", .ofCommand (.push .static 3),
          .ofCommand (.pop .static 3)]).text ∧
      ((Session.new ⟨true, "", false⟩).evalAll mixedLines).2[1]? =
        some (.error (.refused ⟨2, "push nothing 1", .unknownSegment "nothing"⟩)) := by
  obtain ⟨-, hshown, -, hrefused⟩ := session_eq_run ⟨true, "", false⟩ mixedLines
  have hactions : mixedLines.filterMap action? =
      [.unit "Lib", .ofCommand (.push .static 3), .ofCommand (.pop .static 3)] := by decide +kernel
  rw [hactions, if_pos (by decide +kernel)] at hshown
  exact ⟨hshown, (hrefused 1 "push nothing 1" _ rfl).mpr (by decide +kernel)⟩

end HackStack.Repl
