import Mathlib.Algebra.Ring.Nat
import Mathlib.Data.Finset.Card
import HackStack.Lowering.Program
import HackStack.Proofs.Lowering.Layout
import HackStack.Proofs.Lowering.Scope
import HackStack.Proofs.Simulation.Reference

/-!
# Programs of several units as runs

The code of a program is that of a run (`lower_eq_run`) in which the commands of each function stand
together, in the unit and in the scope that the function names (`routine_split`). A well-formed
program is a run that can be assembled (`WellFormed.lowerable`).
-/

namespace HackStack.Vm

def commandLabels (cs : List Command) : List Text :=
  cs.filterMap fun
    | .label name => some name
    | _ => none

def Command.isFunction : Command → Bool
  | function _ _ => true
  | _ => false

def Command.static? : Command → Option Nat
  | push .static i | pop .static i => some i.toNat
  | _ => none

/-- The static variables that a program uses, by unit and index. -/
def staticPairs (units : List (Text × List Command)) : List (Text × Nat) :=
  units.flatMap fun u => (u.2.filterMap Command.static?).map (u.1, ·)

/-! ## Functions in a unit -/

theorem splitRoutines_cons {c : Command} (h : c.isFunction = false) (unit : Text)
    (rest : List Command) :
    splitRoutines unit (c :: rest) =
      (c :: (splitRoutines unit rest).1, (splitRoutines unit rest).2) := by
  cases c with
  | function name locals => cases h
  | _ => rfl

/-- What stands before the first function. -/
theorem splitRoutines_head (unit : Text) (cs : List Command) :
    (∃ post, cs = (splitRoutines unit cs).1 ++ post) ∧
      ∀ c ∈ (splitRoutines unit cs).1, c.isFunction = false := by
  induction cs with
  | nil => exact ⟨⟨[], rfl⟩, fun c hc => (List.not_mem_nil hc).elim⟩
  | cons c rest ih =>
      cases hc : c.isFunction with
      | false =>
          obtain ⟨⟨post, hpost⟩, hall⟩ := ih
          rw [splitRoutines_cons hc]
          exact ⟨⟨post, congrArg (c :: ·) hpost⟩, List.forall_mem_cons.mpr ⟨hc, hall⟩⟩
      | true =>
          cases c with
          | function name locals =>
              exact ⟨⟨_, rfl⟩, fun c hc => (List.not_mem_nil hc).elim⟩
          | _ => cases hc

/-- **A function in its unit**: its commands follow the one that starts it, and none of them starts
another function. -/
theorem mem_splitRoutines {unit : Text} {cs : List Command} {r : Routine}
    (h : r ∈ (splitRoutines unit cs).2) :
    r.unit = unit ∧ (∀ c ∈ r.body, c.isFunction = false) ∧
      ∃ pre locals post, cs = pre ++ .function r.name locals :: (r.body ++ post) ∧
        r.locals = locals.toNat := by
  induction cs with
  | nil => cases h
  | cons c rest ih =>
      cases hc : c.isFunction with
      | false =>
          rw [splitRoutines_cons hc] at h
          obtain ⟨hunit, hbody, pre, locals, post, hrest, hlocals⟩ := ih h
          exact ⟨hunit, hbody, c :: pre, locals, post, congrArg (c :: ·) hrest, hlocals⟩
      | true =>
          cases c with
          | function name locals =>
              rcases List.mem_cons.mp h with rfl | h
              · obtain ⟨⟨post, hpost⟩, hbody⟩ := splitRoutines_head unit rest
                exact ⟨rfl, hbody, [], locals, post, congrArg (_ :: ·) hpost, rfl⟩
              · obtain ⟨hunit, hbody, pre, locals', post, hrest, hlocals⟩ := ih h
                exact ⟨hunit, hbody, .function name locals :: pre, locals', post,
                  congrArg (_ :: ·) hrest, hlocals⟩
          | _ => cases hc

theorem mem_routines {units : List (Text × List Command)} {r : Routine} :
    r ∈ routines units ↔ ∃ u ∈ units, r ∈ (splitRoutines u.1 u.2).2 :=
  List.mem_flatMap

end HackStack.Vm

namespace HackStack.Lowering

open HackStack.Assembly
open HackStack.Machine
open HackStack.Vm

/-- The generator after it has written a program. -/
def lower (options : Options) (units : List (Text × List Command)) : Generator :=
  units.foldl (fun e u => (e.writeUnit u.1 u.2).1) (Generator.new options)

def unitActions (u : Text × List Command) : List Action := .unit u.1 :: u.2.map .ofCommand

def programActions (units : List (Text × List Command)) : List Action := units.flatMap unitActions

theorem performAll_ofCommand (e : Generator) (cs : List Command) :
    e.performAll (cs.map .ofCommand) = e.writeAll cs := by
  induction cs generalizing e with
  | nil => rfl
  | cons c cs ih =>
      show (e.perform (.ofCommand c)).performAll (cs.map .ofCommand) = (e.write c).1.writeAll cs
      rw [Generator.perform_ofCommand, ih]

theorem performAll_unitActions (e : Generator) (u : Text × List Command) :
    e.performAll (unitActions u) = (e.writeUnit u.1 u.2).1 :=
  performAll_ofCommand (e.enterUnit u.1) u.2

theorem valid_unitActions {u : Text × List Command} (hunit : isIdentifier u.1 = true)
    (hvalid : ∀ c ∈ u.2, c.isValid = true) : ∀ a ∈ unitActions u, a.Valid := by
  intro a ha
  rcases List.mem_cons.mp ha with rfl | ha
  · exact hunit
  · obtain ⟨c, hc, rfl⟩ := List.mem_map.mp ha
    exact Action.valid_ofCommand (hvalid c hc)

theorem lower_eq_run (options : Options) (units : List (Text × List Command)) :
    lower options units = Generator.run options (programActions units) := by
  have hfold : ∀ e : Generator,
      units.foldl (fun e u => (e.writeUnit u.1 u.2).1) e = e.performAll (programActions units) := by
    induction units with
    | nil => exact fun e => rfl
    | cons u units ih =>
        intro e
        have hcons : programActions (u :: units) = unitActions u ++ programActions units :=
          List.flatMap_cons
        rw [List.foldl_cons, ih, hcons, Generator.performAll_append, performAll_unitActions]
  exact hfold (Generator.new options)

namespace Generator

/-! ## Commands of one function -/

theorem unit_perform_ofCommand (e : Generator) (c : Command) :
    (e.perform (.ofCommand c)).unit = e.unit := by
  rw [perform_eq, after_of_command (Action.command?_ofCommand c)]
  cases c with
  | ret => exact (closeFunction_frame _).2.2.1
  | _ => rfl

theorem unit_performAll_ofCommand (e : Generator) (cs : List Command) :
    (e.performAll (cs.map .ofCommand)).unit = e.unit := by
  induction cs generalizing e with
  | nil => rfl
  | cons c cs ih => exact (ih _).trans (e.unit_perform_ofCommand c)

/-- A function goes on to be the scope after it has returned. -/
theorem scope_closeFunction {e : Generator} (h : e.Named) : e.closeFunction.scope = e.scope := by
  have hnames := h.openFunctions
  unfold closeFunction scope
  cases hclosed : e.closedFunction with
  | some f => simp [hclosed]
  | none =>
      cases hopen : e.openFunctions with
      | nil => simp [hclosed, hopen]
      | cons f rest =>
          have hname : isIdentifier f = true := hnames f (by rw [hopen]; exact List.mem_cons_self)
          have hne : f.isEmpty = false := by
            cases f with
            | nil => cases hname
            | cons b t => rfl
          simp [hne]

theorem scope_perform_ofCommand {e : Generator} (h : e.Named) {c : Command}
    (hc : c.isFunction = false) : (e.perform (.ofCommand c)).scope = e.scope := by
  have hemit : (e.emit (e.lines (.ofCommand c))).Named :=
    ⟨h.unit, h.openFunctions, h.closedFunction⟩
  rw [perform_eq, after_of_command (Action.command?_ofCommand c)]
  cases c with
  | function name locals => cases hc
  | ret => exact scope_closeFunction hemit
  | _ => rfl

theorem scope_perform_function (e : Generator) (name : Text) (locals : Int) :
    (e.perform (.ofCommand (.function name locals))).scope = name := by
  rw [perform_eq, after_of_command (Action.command?_ofCommand _)]
  rfl

/-- The counter moves by the sizes of commands, whatever the state they are written in. -/
theorem counter_performAll_ofCommand {cs : List Command} (hvalid : ∀ c ∈ cs, c.isValid = true)
    (e : Generator) :
    (e.performAll (cs.map .ofCommand)).counter = e.counter + (cs.map Command.size).sum := by
  induction cs generalizing e with
  | nil => rfl
  | cons c cs ih =>
      obtain ⟨hvalidC, hvalid⟩ := List.forall_mem_cons.mp hvalid
      refine (ih hvalid (e.perform (.ofCommand c))).trans ?_
      rw [counter_perform (Action.command?_ofCommand c) hvalidC, List.map_cons, List.sum_cons]
      omega

/-- Along the commands of a function, the unit and the scope stay and the counter moves by their
sizes. -/
theorem performAll_body {e : Generator} (he : e.Named) {cs : List Command}
    (hvalid : ∀ c ∈ cs, c.isValid = true) (hfun : ∀ c ∈ cs, c.isFunction = false) :
    (e.performAll (cs.map .ofCommand)).unit = e.unit ∧
      (e.performAll (cs.map .ofCommand)).scope = e.scope ∧
      (e.performAll (cs.map .ofCommand)).counter = e.counter + (cs.map Command.size).sum := by
  refine ⟨?_, ?_, counter_performAll_ofCommand hvalid e⟩
  · exact unit_performAll_ofCommand e cs
  · induction cs generalizing e with
    | nil => rfl
    | cons c cs ih =>
        obtain ⟨hvalidC, hvalid⟩ := List.forall_mem_cons.mp hvalid
        obtain ⟨hfunC, hfun⟩ := List.forall_mem_cons.mp hfun
        have hnamed := he.perform (Action.valid_ofCommand hvalidC).isNamed
        exact (ih hnamed hvalid hfun).trans (scope_perform_ofCommand he hfunC)

/-! ## What a program defines -/

/-- The symbols that a function defines, those of its calls apart. -/
def routineSymbols (r : Routine) : List CodeSymbol :=
  .function r.name :: (commandLabels r.body).map (.label r.name)

theorem defines_unit (e : Generator) (name : Text) : e.defines (.unit name) = [] := rfl

/-- The commands of a unit define the labels before its first function, in the scope at hand, and
then what each function defines. -/
theorem definesAll_commands {e : Generator} (he : e.Named) (unit : Text) {cs : List Command}
    (hvalid : ∀ c ∈ cs, c.isValid = true) :
    (e.definesAll (cs.map .ofCommand)).filter (!·.isBack) =
      (commandLabels (splitRoutines unit cs).1).map (.label e.scope) ++
        (splitRoutines unit cs).2.flatMap routineSymbols := by
  induction cs generalizing e with
  | nil => rfl
  | cons c cs ih =>
      obtain ⟨hvalidC, hvalid⟩ := List.forall_mem_cons.mp hvalid
      have hnamed := he.perform (Action.valid_ofCommand hvalidC).isNamed
      have hrest := ih hnamed hvalid
      rw [List.map_cons, definesAll, List.filter_append, hrest]
      cases hc : c.isFunction with
      | false =>
          rw [scope_perform_ofCommand he hc, splitRoutines_cons hc, defines,
            Action.command?_ofCommand]
          cases c with
          | function name locals => cases hc
          | _ => rfl
      | true =>
          cases c with
          | function name locals =>
              rw [scope_perform_function, defines, Action.command?_ofCommand]
              rfl
          | _ => cases hc

theorem named_unitActions {e : Generator} (he : e.Named) {u : Text × List Command}
    (hunit : isIdentifier u.1 = true) (hvalid : ∀ c ∈ u.2, c.isValid = true) :
    (e.performAll (unitActions u)).Named :=
  he.performAll fun a ha => (valid_unitActions hunit hvalid a ha).isNamed

/-- **What a program defines**, apart from its calls: what its functions define. -/
theorem definesAll_programActions {units : List (Text × List Command)} {e : Generator}
    (he : e.Named) (hunits : ∀ u ∈ units, isIdentifier u.1 = true)
    (hvalid : ∀ u ∈ units, ∀ c ∈ u.2, c.isValid = true)
    (hheads : ∀ u ∈ units, (splitRoutines u.1 u.2).1 = []) :
    (e.definesAll (programActions units)).filter (!·.isBack) =
      (routines units).flatMap routineSymbols := by
  induction units generalizing e with
  | nil => rfl
  | cons u units ih =>
      obtain ⟨hunit, hunits⟩ := List.forall_mem_cons.mp hunits
      obtain ⟨hvalidU, hvalid⟩ := List.forall_mem_cons.mp hvalid
      obtain ⟨hhead, hheads⟩ := List.forall_mem_cons.mp hheads
      have hentered : (e.perform (.unit u.1)).Named := he.perform hunit
      have hfirst : (e.definesAll (unitActions u)).filter (!·.isBack) =
          (splitRoutines u.1 u.2).2.flatMap routineSymbols := by
        rw [unitActions, definesAll, defines_unit, List.nil_append,
          definesAll_commands hentered u.1 hvalidU, hhead]
        rfl
      have hactions : programActions (u :: units) = unitActions u ++ programActions units :=
        List.flatMap_cons
      have hroutines : routines (u :: units) = (splitRoutines u.1 u.2).2 ++ routines units :=
        List.flatMap_cons
      rw [hactions, hroutines, definesAll_append, List.filter_append, List.flatMap_append, hfirst,
        ih (named_unitActions he hunit hvalidU) hunits hvalid hheads]

end Generator

/-! ## Well-formed programs -/

/-- A program of commands that were read from source lines, in units with proper names that start
with a function; it defines no name twice, uses none that it does not define, has room for its
static variables between the registers and the stack, and fits into the program memory. -/
structure WellFormed (options : Options) (units : List (Text × List Command)) : Prop where
  accepted : ∀ u ∈ units, ∀ c ∈ u.2, c.Accepted
  unitNames : ∀ u ∈ units, isIdentifier u.1 = true
  heads : ∀ u ∈ units, ∀ c ∈ u.2.head?, c.isFunction = true
  names : ((routines units).map Routine.name).Nodup
  free : ∀ r ∈ routines units, r.name ∉ predefined.map Prod.fst
  labels : ∀ r ∈ routines units, (commandLabels r.body).Nodup
  targets : ∀ r ∈ routines units, ∀ name, .goto name ∈ r.body ∨ .ifGoto name ∈ r.body →
    .label name ∈ r.body
  callees : ∀ r ∈ routines units, ∀ name args, .call name args ∈ r.body →
    name ∈ (routines units).map Routine.name
  entry : options.entryName ∈ (routines units).map Routine.name
  statics : (staticPairs units).toFinset.card ≤ 240
  fits : (lower options units).counter < programSize

theorem splitRoutines_of_head {unit : Text} {cs : List Command}
    (h : ∀ c ∈ cs.head?, c.isFunction = true) : (splitRoutines unit cs).1 = [] := by
  cases cs with
  | nil => rfl
  | cons c cs =>
      have hc := h c rfl
      cases c with
      | function name locals => rfl
      | _ => cases hc

namespace WellFormed

variable {options : Options} {units : List (Text × List Command)} (h : WellFormed options units)
include h

theorem isValid : ∀ u ∈ units, ∀ c ∈ u.2, c.isValid = true :=
  fun u hu c hc => (h.accepted u hu c hc).isValid

theorem valid : ∀ a ∈ programActions units, a.Valid := by
  intro a ha
  obtain ⟨u, hu, ha⟩ := List.mem_flatMap.mp ha
  exact valid_unitActions (h.unitNames u hu) (h.isValid u hu) a ha

omit h in
/-- The commands of a unit in the run, from any one on. -/
theorem command_split {u : Text × List Command} (hu : u ∈ units) {pre post : List Command}
    (hcs : u.2 = pre ++ post) :
    ∃ before after, programActions units = before ++ (post.map .ofCommand ++ after) ∧
      (Generator.run options before).unit = u.1 := by
  obtain ⟨first, second, rfl⟩ := List.append_of_mem hu
  refine ⟨programActions first ++ .unit u.1 :: pre.map .ofCommand, programActions second, ?_, ?_⟩
  · simp [programActions, unitActions, hcs]
  · rw [Generator.run_append]
    exact Generator.unit_performAll_ofCommand _ pre

theorem routine_commands {r : Routine} (hr : r ∈ routines units) :
    (∀ c ∈ r.body, c.isValid = true ∧ c.isFunction = false) ∧ isFunctionName r.name = true := by
  obtain ⟨u, hu, hr⟩ := mem_routines.mp hr
  obtain ⟨-, hbody, pre, locals, post, hcs, -⟩ := mem_splitRoutines hr
  have hvalid := h.isValid u hu
  rw [hcs] at hvalid
  constructor
  · intro c hc
    exact ⟨hvalid c (by simp [hc]), hbody c hc⟩
  · have hname := hvalid (.function r.name locals) (by simp)
    rw [Command.isValid, Bool.and_eq_true] at hname
    exact hname.1

/-- A function in the run: its commands stand together behind the one that starts it. -/
theorem routine_split {r : Routine} (hr : r ∈ routines units) :
    ∃ before after,
      programActions units =
        before ++ .ofCommand (.function r.name r.locals) :: (r.body.map .ofCommand ++ after) ∧
      (Generator.run options before).unit = r.unit := by
  obtain ⟨u, hu, hr⟩ := mem_routines.mp hr
  obtain ⟨hunit, -, pre, locals, post, hcs, hlocals⟩ := mem_splitRoutines hr
  obtain ⟨before, after, hactions, hbefore⟩ := @command_split options units u hu _ _ hcs
  have hcount : (r.locals : Int) = locals := by
    have hvalid := h.isValid u hu (.function r.name locals) (by rw [hcs]; simp)
    rw [Command.isValid, isCount, Bool.and_eq_true, Bool.and_eq_true, decide_eq_true_eq] at hvalid
    omega
  refine ⟨before, post.map .ofCommand ++ after, ?_, hbefore.trans hunit.symm⟩
  rw [hactions, hcount]
  simp

/-- **The commands of a function in the run**: each is written in the function's unit and scope, at
the count where the function started and the sizes of the commands before it. -/
theorem body_split {r : Routine} (hr : r ∈ routines units) :
    ∃ before after,
      programActions units = before ++ .ofCommand (.function r.name r.locals) :: after ∧
      ∀ i c, r.body[i]? = some c → ∃ before' after',
        programActions units = before' ++ .ofCommand c :: after' ∧
        (Generator.run options before').unit = r.unit ∧
        (Generator.run options before').scope = r.name ∧
        (Generator.run options before').counter =
          (Generator.run options before).counter + (Command.function r.name r.locals).size +
            ((r.body.take i).map Command.size).sum := by
  obtain ⟨before, after, hactions, hunit⟩ := h.routine_split hr
  obtain ⟨hcommands, -⟩ := h.routine_commands hr
  have hvalid := h.valid (.ofCommand (.function r.name r.locals)) (by rw [hactions]; simp)
  have hfunction := Action.command?_ofCommand (.function r.name r.locals)
  refine ⟨before, _, hactions, ?_⟩
  intro i c hc
  -- the commands before this one leave the unit and the scope as the function set them
  obtain ⟨hi, hget⟩ := List.getElem?_eq_some_iff.mp hc
  have hsplit : r.body = r.body.take i ++ c :: r.body.drop (i + 1) := by
    rw [← hget, List.cons_getElem_drop_succ, List.take_append_drop]
  have hnamed : (Generator.run options before).Named :=
    Generator.named_run options before fun a ha =>
      (h.valid a (by rw [hactions]; exact List.mem_append_left _ ha)).isNamed
  obtain ⟨hunit', hscope', hcounter'⟩ := @Generator.performAll_body _
    (hnamed.perform hvalid.isNamed) (r.body.take i)
    (fun c hc => (hcommands c (List.mem_of_mem_take hc)).1)
    (fun c hc => (hcommands c (List.mem_of_mem_take hc)).2)
  refine ⟨before ++ .ofCommand (.function r.name r.locals) :: (r.body.take i).map .ofCommand,
    (r.body.drop (i + 1)).map .ofCommand ++ after, ?_, ?_⟩
  · rw [hactions]
    conv => lhs; rw [hsplit]
    simp
  · rw [Generator.run_append]
    refine ⟨?_, ?_, ?_⟩
    · exact hunit'.trans ((Generator.unit_perform_ofCommand _ _).trans hunit)
    · exact hscope'.trans (Generator.scope_perform_function _ _ _)
    · rw [← Generator.counter_perform hfunction (hvalid.isValid hfunction)]
      exact hcounter'

theorem definitions_filter :
    (Generator.definitions options (programActions units)).filter (!·.isBack) =
      (routines units).flatMap Generator.routineSymbols := by
  have hdefines := Generator.definesAll_programActions (Generator.named_new options) h.unitNames
    h.isValid fun u hu => splitRoutines_of_head (h.heads u hu)
  rw [Generator.definitions, List.filter_append, hdefines]
  cases options.bootstrap <;> rfl

theorem mem_definitions {s : CodeSymbol} (hs : s.isBack = false) :
    s ∈ Generator.definitions options (programActions units) ↔
      ∃ r ∈ routines units, s ∈ Generator.routineSymbols r := by
  rw [← List.mem_flatMap, ← h.definitions_filter, List.mem_filter, hs]
  exact (and_iff_left rfl).symm

theorem symbols_nodup : ((routines units).flatMap Generator.routineSymbols).Nodup := by
  rw [List.nodup_flatMap]
  constructor
  · intro r hr
    refine List.nodup_cons.mpr ⟨by simp, ?_⟩
    exact (h.labels r hr).map fun _ _ heq => (CodeSymbol.label.inj heq).2
  · -- symbols of different functions differ in the function's name
    refine (List.pairwise_map.mp h.names).imp ?_
    intro r r' hne s hs hs'
    simp only [Generator.routineSymbols, List.mem_cons, List.mem_map] at hs hs'
    rcases hs with rfl | ⟨l, -, rfl⟩
    · rcases hs' with heq | ⟨l, -, heq⟩
      · exact hne (CodeSymbol.function.inj heq)
      · cases heq
    · rcases hs' with heq | ⟨l', -, heq⟩
      · cases heq
      · exact hne (CodeSymbol.label.inj heq).1.symm

/-- **A well-formed program can be assembled.** -/
theorem lowerable : Generator.Lowerable options (programActions units) := by
  have hkind : ∀ p : CodeSymbol → Bool, (∀ s, p s = true → s.isBack = false) →
      ((Generator.definitions options (programActions units)).filter p).Nodup := by
    intro p hp
    have hsub : (Generator.definitions options (programActions units)).filter p =
        ((Generator.definitions options (programActions units)).filter (!·.isBack)).filter p := by
      rw [List.filter_filter]
      refine List.filter_congr fun s _ => ?_
      cases hs : p s with
      | false => rfl
      | true => rw [hp s hs]; rfl
    rw [hsub, h.definitions_filter]
    exact h.symbols_nodup.filter p
  refine ⟨?_, h.valid, hkind _ ?_, ?_, hkind _ ?_⟩
  · obtain ⟨r, hr, hname⟩ := List.mem_map.mp h.entry
    rw [← hname]
    exact (h.routine_commands hr).2
  · intro s hs
    cases s with
    | function name => rfl
    | _ => cases hs
  · intro s hs hfunction
    cases s with
    | function name =>
        obtain ⟨r, hr, hs⟩ := (h.mem_definitions rfl).mp hs
        simp only [Generator.routineSymbols, List.mem_cons, List.mem_map] at hs
        rcases hs with heq | ⟨l, -, heq⟩
        · cases heq
          exact h.free r hr
        · cases heq
    | _ => cases hfunction
  · intro s hs
    cases s with
    | label scope name => rfl
    | _ => cases hs

end WellFormed

end HackStack.Lowering
