import Mathlib.Data.List.Induction
import HackStack.Proofs.Lowering.Emission

/-!
# Runs of a generator

A caller starts units and asks for the code of commands, with or without a comment, and may ask for
commands that do not exist. `Action` is one such use, and `Generator.run` is a new generator after
a list of them.

`Generator.perform_eq` says once what an action does: it appends `Generator.lines` to the code and
then changes the rest of the state by `Generator.after`, which does not look at the code. What is
proved about runs is derived from this equation.
-/

namespace HackStack.Lowering

open HackStack.Assembly
open HackStack.Vm

/-- The function that the start-up code calls. -/
def Options.entryName (o : Options) : Text := if o.entry.isEmpty then standardEntry else o.entry

/-- One use of a generator. -/
inductive Action where
  /-- Starts a unit. -/
  | unit (name : Text)
  /-- Asks for the code of a command and a comment before it. -/
  | write (r : Request)
  /-- Asks for the code of a command. -/
  | bare (r : Request)
  deriving DecidableEq, Repr

/-- The command whose code an action asks for, if there is such a command. -/
def Action.command? : Action → Option Command
  | unit _ => none
  | write r | bare r => r.command?.toOption

def Action.ofCommand (c : Command) : Action := .write (.ofCommand c)

@[simp] theorem Action.command?_ofCommand (c : Command) :
    (Action.ofCommand c).command? = some c := by
  rw [ofCommand, command?, Request.command?_ofCommand]
  rfl

namespace Generator

def perform (e : Generator) : Action → Generator
  | .unit name => e.enterUnit name
  | .write r => (e.serveDescribed r).1
  | .bare r => (e.serve r).1

def performAll (e : Generator) (actions : List Action) : Generator := actions.foldl perform e

/-- A new generator after several actions. -/
def run (options : Options) (actions : List Action) : Generator :=
  (new options).performAll actions

theorem performAll_append (e : Generator) (first second : List Action) :
    e.performAll (first ++ second) = (e.performAll first).performAll second :=
  List.foldl_append

theorem run_append (options : Options) (first second : List Action) :
    run options (first ++ second) = (run options first).performAll second :=
  performAll_append _ first second

theorem run_snoc (options : Options) (actions : List Action) (a : Action) :
    run options (actions ++ [a]) = (run options actions).perform a :=
  run_append options actions [a]

/-! ## What an action does -/

/-- The comment that an action puts before its code. -/
def remarkLines (e : Generator) : Action → List Line
  | .write r => if e.uncommented then [] else (r.text?.map Line.comment).toList
  | _ => []

/-- The code of an action; a command with a fault has none. -/
def blockLines (e : Generator) (a : Action) : List Line :=
  match a.command? with
  | some c => (e.block c).toOption.getD []
  | none => []

def lines (e : Generator) (a : Action) : List Line := e.remarkLines a ++ e.blockLines a

/-- What an action changes apart from the code. -/
def after (e : Generator) : Action → Generator
  | .unit name => e.enterUnit name
  | .write r | .bare r => r.command?.toOption.elim e e.follow

theorem block_emit_comment (e : Generator) (t : Text) (c : Command) :
    (e.emit [.comment t]).block c = e.block c := by
  cases c <;> rfl

theorem generate_fst (e : Generator) (c : Command) :
    (e.generate c).1 = (e.emit ((e.block c).toOption.getD [])).follow c := by
  cases h : e.block c with
  | ok lines =>
      rw [generate_of_block h]
      rfl
  | error f =>
      rw [generate_of_fault h]
      show e = (e.emit []).follow c
      rw [emit_nil, Emitter.follow_eq_self_of_fault h]

theorem serve_fst (e : Generator) (r : Request) :
    (e.serve r).1 = (e.emit (e.blockLines (.bare r))).after (.bare r) := by
  simp only [blockLines, after, Action.command?]
  cases hc : r.command? with
  | ok c =>
      rw [serve_of_command hc]
      exact generate_fst e c
  | error f =>
      rw [serve_of_fault hc]
      exact (emit_nil e).symm

theorem blockLines_emit_comment (e : Generator) (t : Text) (a : Action) :
    (e.emit [.comment t]).blockLines a = e.blockLines a := by
  unfold blockLines
  cases a.command? with
  | some c =>
      show (((e.emit [.comment t]).block c).toOption.getD []) = _
      rw [block_emit_comment]
  | none => rfl

theorem blockLines_of_command {e : Generator} {a : Action} {c : Command}
    (h : a.command? = some c) : e.blockLines a = (e.block c).toOption.getD [] := by
  rw [blockLines, h]

theorem blockLines_of_none {e : Generator} {a : Action} (h : a.command? = none) :
    e.blockLines a = [] := by
  rw [blockLines, h]

theorem perform_write (e : Generator) (r : Request) :
    e.perform (.write r) = (e.emit (e.lines (.write r))).after (.write r) := by
  show (e.serveDescribed r).1 = (e.emit (e.remarkLines _ ++ e.blockLines (.bare r))).after (.bare r)
  by_cases hu : e.uncommented = true
  · have hnone : e.remarkLines (.write r) = [] := if_pos hu
    rw [serveDescribed_of_uncommented hu, hnone, List.nil_append]
    exact serve_fst e r
  · have hsome : e.remarkLines (.write r) = (r.text?.map Line.comment).toList := if_neg hu
    rw [hsome]
    cases ht : r.text? with
    | none =>
        -- only the missing command has no text, and it has no code either
        rw [serveDescribed_of_none hu ht]
        cases r with
        | nothing => exact (emit_nil e).symm
        | _ => cases ht
    | some t =>
        show _ = (e.emit ([.comment t] ++ _)).after _
        rw [serveDescribed_of_text hu ht, serve_fst, blockLines_emit_comment, emit_emit]

/-- **What an action does**: it appends its lines, and then changes what is not code. -/
theorem perform_eq (e : Generator) (a : Action) : e.perform a = (e.emit (e.lines a)).after a := by
  cases a with
  | unit name =>
      show e.enterUnit name = (e.emit []).enterUnit name
      rw [emit_nil]
  | bare r => exact serve_fst e r
  | write r => exact perform_write e r

theorem perform_ofCommand (e : Generator) (c : Command) :
    e.perform (.ofCommand c) = (e.write c).1 :=
  rfl

/-! ## Parts of the state after an action -/

theorem closeFunction_frame (e : Generator) :
    e.closeFunction.code = e.code ∧ e.closeFunction.counter = e.counter ∧
      e.closeFunction.unit = e.unit ∧ e.closeFunction.calls = e.calls ∧
      e.closeFunction.uncommented = e.uncommented := by
  unfold closeFunction
  split <;> exact ⟨rfl, rfl, rfl, rfl, rfl⟩

theorem follow_frame (e : Generator) (c : Command) :
    (e.follow c).code = e.code ∧ (e.follow c).counter = e.counter ∧
      (e.follow c).uncommented = e.uncommented := by
  cases c with
  | ret =>
      obtain ⟨hcode, hcounter, -, -, hun⟩ := closeFunction_frame e
      exact ⟨hcode, hcounter, hun⟩
  | _ => exact ⟨rfl, rfl, rfl⟩

/-- An action starts a unit, is followed by what its command does, or has no command. -/
theorem after_cases (e : Generator) (a : Action) :
    (∃ name, a = .unit name ∧ e.after a = e.enterUnit name) ∨
    (∃ c, a.command? = some c ∧ e.after a = e.follow c) ∨
    ((∀ name, a ≠ .unit name) ∧ a.command? = none ∧ e.after a = e) := by
  have hrequest : ∀ r : Request, (∃ c, r.command?.toOption = some c ∧
      r.command?.toOption.elim e e.follow = e.follow c) ∨
      (r.command?.toOption = none ∧ r.command?.toOption.elim e e.follow = e) := by
    intro r
    cases r.command?.toOption with
    | none => exact Or.inr ⟨rfl, rfl⟩
    | some c => exact Or.inl ⟨c, rfl, rfl⟩
  cases a with
  | unit name => exact Or.inl ⟨name, rfl, rfl⟩
  | write r => exact Or.inr ((hrequest r).imp id fun h => ⟨by simp, h⟩)
  | bare r => exact Or.inr ((hrequest r).imp id fun h => ⟨by simp, h⟩)

theorem after_frame (e : Generator) (a : Action) :
    (e.after a).code = e.code ∧ (e.after a).counter = e.counter ∧
      (e.after a).uncommented = e.uncommented := by
  rcases after_cases e a with ⟨name, -, h⟩ | ⟨c, -, h⟩ | ⟨-, -, h⟩
  · rw [h]
    exact ⟨rfl, rfl, rfl⟩
  · rw [h]
    exact follow_frame e c
  · rw [h]
    exact ⟨rfl, rfl, rfl⟩

/-- What an action changes apart from the code does not depend on the code. -/
theorem after_with (e : Generator) (n : Nat) (code : Array Line) (a : Action) :
    { e with counter := n, code := code }.after a =
      { e.after a with counter := n, code := code } := by
  have hclose : { e with counter := n, code := code }.closeFunction =
      { e.closeFunction with counter := n, code := code } := by
    unfold closeFunction
    split <;> simp_all
  have hfollow : ∀ c, { e with counter := n, code := code }.follow c =
      { e.follow c with counter := n, code := code } := by
    intro c
    cases c with
    | ret => exact hclose
    | _ => rfl
  have hrequest : ∀ found : Option Command,
      found.elim { e with counter := n, code := code }
          { e with counter := n, code := code }.follow =
        { found.elim e e.follow with counter := n, code := code } := by
    intro found
    cases found with
    | none => rfl
    | some c => exact hfollow c
  cases a with
  | unit name => rfl
  | write r => exact hrequest _
  | bare r => exact hrequest _

theorem after_emit (e : Generator) (lines : List Line) (a : Action) :
    (e.emit lines).after a = (e.after a).emit lines := by
  obtain ⟨hcode, hcounter, -⟩ := e.after_frame a
  rw [emit, after_with, emit, hcode, hcounter]

theorem performAll_emit (e : Generator) (lines : List Line) (actions : List Action) :
    ∃ more, (e.emit lines).performAll actions = (actions.foldl after e).emit more := by
  induction actions generalizing e lines with
  | nil => exact ⟨lines, rfl⟩
  | cons a actions ih =>
      show ∃ more, ((e.emit lines).perform a).performAll actions = _
      rw [perform_eq, emit_emit, after_emit]
      exact ih (e.after a) _

/-- Where a run is does not depend on its code. -/
theorem scope_calls_performAll (e : Generator) (actions : List Action) :
    (e.performAll actions).scope = (actions.foldl after e).scope ∧
      (e.performAll actions).calls = (actions.foldl after e).calls := by
  obtain ⟨more, h⟩ := e.performAll_emit [] actions
  rw [emit_nil] at h
  rw [h]
  exact ⟨rfl, rfl⟩

theorem perform_code (e : Generator) (a : Action) :
    (e.perform a).code.toList = e.code.toList ++ e.lines a := by
  rw [perform_eq, (after_frame _ a).1, code_emit]

theorem perform_counter (e : Generator) (a : Action) :
    (e.perform a).counter = e.counter + (e.lines a).countP Line.occupiesRom := by
  rw [perform_eq, (after_frame _ a).2.1]
  rfl

theorem countP_remarkLines (e : Generator) (a : Action) :
    (e.remarkLines a).countP Line.occupiesRom = 0 := by
  unfold remarkLines
  split
  · split
    · rfl
    · cases Request.text? _ <;> rfl
  · rfl

theorem lines_countP (e : Generator) (a : Action) :
    (e.lines a).countP Line.occupiesRom = (e.blockLines a).countP Line.occupiesRom := by
  rw [lines, List.countP_append, countP_remarkLines, Nat.zero_add]

/-! ## New generators -/

/-- The lines of the start-up code before its call. -/
def startLines (options : Options) : List Line :=
  (if options.uncommented then [] else [.comment "bootstrap"]) ++ startBlock.map .instruction

/-- The start-up code sets up the stack and then is the code of a call. -/
theorem new_of_bootstrap {options : Options} (h : options.bootstrap = true) :
    new options =
      ((initial options).emit (startLines options)).perform
        (.ofCommand (.call options.entryName 0)) := by
  have hremark : (Emitter.remark "bootstrap").on (initial options) = (.ok (), (initial options).emit
      (if options.uncommented then [] else [.comment "bootstrap"])) := by
    rw [Emitter.remark, Emitter.on_bind (Emitter.on_get _)]
    by_cases hu : options.uncommented = true
    · have hi : (initial options).uncommented = true := hu
      rw [if_pos hu, if_pos hi, emit_nil]
      rfl
    · have hi : ¬(initial options).uncommented = true := hu
      rw [if_neg hu, if_neg hi]
      rfl
  rw [new, if_pos h, startLines, ← emit_emit]
  show ((initial options).emission (Emitter.start options.entryName)).1 =
    (emission _ (Emitter.serveDescribed (.call options.entryName 0))).1
  rw [emission, emission, Emitter.start, Emitter.on_bind hremark,
    Emitter.on_bind (Emitter.on_instructions _ _)]

theorem new_of_not_bootstrap {options : Options} (h : options.bootstrap = false) :
    new options = initial options := by
  rw [new, h]
  rfl

/-- The start-up code leaves the generator in the standard unit, outside of any function. -/
theorem new_frame (options : Options) :
    (new options).unit = standardUnit ∧ (new options).openFunctions = [] ∧
      (new options).closedFunction = none ∧ (new options).uncommented = options.uncommented ∧
      (new options).calls = if options.bootstrap then 1 else 0 := by
  cases hb : options.bootstrap with
  | true =>
      rw [new_of_bootstrap hb, perform_eq]
      exact ⟨rfl, rfl, rfl, rfl, rfl⟩
  | false =>
      rw [new_of_not_bootstrap hb]
      exact ⟨rfl, rfl, rfl, rfl, rfl⟩

/-- A property of all lines of a run: it holds of what the start-up code consists of and of the
lines of each action. -/
theorem forall_code_run {options : Options} {actions : List Action} {P : Line → Prop}
    (hstart : ∀ l ∈ startLines options, P l)
    (hcall : options.bootstrap = true →
      ∀ l ∈ ((initial options).emit (startLines options)).lines
        (.ofCommand (.call options.entryName 0)), P l)
    (hstep : ∀ before a after, actions = before ++ a :: after →
      ∀ l ∈ (run options before).lines a, P l) :
    ∀ l ∈ (run options actions).code.toList, P l := by
  -- from the end, so that the generator before an action is that of a run
  induction actions using List.reverseRecOn with
  | nil =>
      show ∀ l ∈ (new options).code.toList, P l
      cases hb : options.bootstrap with
      | false =>
          rw [new_of_not_bootstrap hb]
          exact fun l hl => (List.not_mem_nil hl).elim
      | true =>
          rw [new_of_bootstrap hb, perform_code, code_emit, List.forall_mem_append]
          exact ⟨hstart, hcall hb⟩
  | append_singleton actions a ih =>
      rw [run_snoc, perform_code, List.forall_mem_append]
      refine ⟨ih fun before b after heq => ?_, hstep actions a [] rfl⟩
      exact hstep before b (after ++ [a]) (by rw [heq]; simp)

end Generator

end HackStack.Lowering
