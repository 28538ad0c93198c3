import Mathlib.Data.List.Induction
import HackStack.Proofs.Lowering.Run

/-!
# Label scopes follow the text

A generator finds the scope of a label from a stack of open functions and the function that was
closed last. The text has a simpler rule. It falls into regions, each started by a function or by a
unit, and the scope is a matter of the region alone: a function's region has the function as its
scope, from its first command to its last, and the region at the head of a unit has the innermost
function that earlier regions left open, or else the unit.

- `Generator.tracks_run`: after every run the stack and the closed function are those that the
  regions of the text give.
- `Generator.scope_eq_region_scope`: hence the scope is the one that the textual rule names.
-/

namespace HackStack.Lowering

open HackStack.Vm

/-- What starts a region. -/
inductive Opening where
  | unit (name : Text)
  | function (name : Text)
  deriving DecidableEq, Repr

/-- The start of a region that an action is, if it is one. -/
def Action.opening? (a : Action) : Option Opening :=
  match a, a.command? with
  | .unit name, _ => some (.unit name)
  | _, some (.function name _) => some (.function name)
  | _, _ => none

theorem Action.opening?_eq_some {a : Action} {o : Opening} (h : a.opening? = some o) :
    (∃ name, a = .unit name ∧ o = .unit name) ∨
      ∃ name locals, a.command? = some (.function name locals) ∧ o = .function name := by
  unfold opening? at h
  split at h
  · cases h
    exact Or.inl ⟨_, rfl, rfl⟩
  · next hc =>
      cases h
      exact Or.inr ⟨_, _, hc, rfl⟩
  · cases h

theorem Action.command?_of_opening?_none {a : Action} (h : a.opening? = none) (name : Text)
    (locals : Int) : a.command? ≠ some (.function name locals) := by
  intro hc
  cases a with
  | unit u => cases hc
  | write r => simp [opening?, hc] at h
  | bare r => simp [opening?, hc] at h

def Action.isReturn (a : Action) : Bool := a.command? == some .ret

/-- A stretch of actions that starts no other region. -/
structure Region where
  opening : Opening
  /-- The actions after the one that starts the region. -/
  body : List Action
  deriving DecidableEq, Repr

namespace Region

def returns (r : Region) : Bool := r.body.any Action.isReturn

/-- The functions that are open after a region, if `opened` are open before it. A function's region
opens the function and a `return` in it closes it again; at the head of a unit a `return` closes the
innermost open function. -/
def leavesOpen (opened : List Text) (r : Region) : List Text :=
  match r.opening with
  | .function name => if r.returns then opened else name :: opened
  | .unit _ => if r.returns then opened.tail else opened

/-- The scope of the labels in a region, if `opened` are open before it. -/
def scope (opened : List Text) (r : Region) : Text :=
  match r.opening with
  | .function name => name
  | .unit name => opened.head?.getD name

end Region

/-- The regions of a list of actions: those that have ended, and the last one. -/
structure Regions where
  ended : List Region
  current : Region
  deriving DecidableEq, Repr

namespace Regions

/-- Before the first action, commands belong to the standard unit. -/
def start : Regions := ⟨[], ⟨.unit standardUnit, []⟩⟩

def add (rs : Regions) (a : Action) : Regions :=
  match a.opening? with
  | some o => ⟨rs.ended ++ [rs.current], ⟨o, []⟩⟩
  | none => ⟨rs.ended, ⟨rs.current.opening, rs.current.body ++ [a]⟩⟩

def ofActions (actions : List Action) : Regions := actions.foldl add start

/-- The functions that are open where the last region starts, innermost first. -/
def opened (rs : Regions) : List Text := rs.ended.foldl Region.leavesOpen []

theorem ofActions_snoc (actions : List Action) (a : Action) :
    ofActions (actions ++ [a]) = (ofActions actions).add a := by
  rw [ofActions, List.foldl_append]
  rfl

theorem opened_add_of_opening (rs : Regions) {a : Action} {o : Opening}
    (h : a.opening? = some o) :
    (rs.add a).opened = rs.current.leavesOpen rs.opened ∧ (rs.add a).current = ⟨o, []⟩ := by
  rw [add, h, opened, opened, List.foldl_append]
  exact ⟨rfl, rfl⟩

theorem opened_add_of_none (rs : Regions) {a : Action} (h : a.opening? = none) :
    (rs.add a).opened = rs.opened ∧
      (rs.add a).current = ⟨rs.current.opening, rs.current.body ++ [a]⟩ := by
  rw [add, h]
  exact ⟨rfl, rfl⟩

end Regions

/-! ## What the generator remembers -/

namespace Region

def closed (opened : List Text) (r : Region) : Option Text :=
  match r.opening with
  | .function name => if r.returns then some name else none
  | .unit _ => if r.returns then opened.head? else none

theorem returns_snoc (o : Opening) (body : List Action) (a : Action) :
    returns ⟨o, body ++ [a]⟩ = (returns ⟨o, body⟩ || a.isReturn) := by
  simp [returns]

end Region

namespace Generator

/-- The generator stands in the last of the regions. -/
structure Tracks (e : Generator) (rs : Regions) : Prop where
  openFunctions : e.openFunctions = rs.current.leavesOpen rs.opened
  closedFunction : e.closedFunction = rs.current.closed rs.opened
  unit : ∀ name, rs.current.opening = .unit name → e.unit = name

theorem Tracks.scope {e : Generator} {rs : Regions} (h : e.Tracks rs) :
    e.scope = rs.current.scope rs.opened := by
  obtain ⟨hopen, hclosed, hunit⟩ := h
  rw [Generator.scope, hclosed, hopen]
  cases ho : rs.current.opening with
  | function name =>
      unfold Region.closed Region.leavesOpen Region.scope
      rw [ho]
      cases rs.current.returns <;> rfl
  | unit name =>
      unfold Region.closed Region.leavesOpen Region.scope
      rw [ho, hunit name ho]
      cases rs.current.returns with
      | false => rfl
      | true => cases rs.opened <;> rfl

/-- An action that neither starts a region nor returns leaves the scope alone. -/
theorem after_of_plain {e : Generator} {a : Action} (ho : a.opening? = none)
    (hr : a.isReturn = false) :
    (e.after a).openFunctions = e.openFunctions ∧
      (e.after a).closedFunction = e.closedFunction ∧ (e.after a).unit = e.unit := by
  rcases after_cases e a with ⟨name, rfl, -⟩ | ⟨c, hc, h⟩ | ⟨-, -, h⟩
  · cases ho
  · rw [h]
    cases c with
    | function name locals => exact absurd hc (Action.command?_of_opening?_none ho name locals)
    | ret => simp [Action.isReturn, hc] at hr
    | _ => exact ⟨rfl, rfl, rfl⟩
  · rw [h]
    exact ⟨rfl, rfl, rfl⟩

theorem after_of_command {e : Generator} {a : Action} {c : Command} (h : a.command? = some c) :
    e.after a = e.follow c := by
  rcases after_cases e a with ⟨name, rfl, -⟩ | ⟨c', hc, heq⟩ | ⟨-, hnone, -⟩
  · cases h
  · rw [h] at hc
    cases hc
    exact heq
  · rw [h] at hnone
    cases hnone

theorem after_of_return {e : Generator} {a : Action} (hr : a.isReturn = true) :
    e.after a = e.closeFunction :=
  after_of_command (by simpa [Action.isReturn] using hr)

/-- The `return` that ends a region's function: later ones in the region close nothing more. -/
theorem Tracks.closeFunction {e : Generator} {rs : Regions} {a : Action} (h : e.Tracks rs)
    (hr : a.isReturn = true) (ho : a.opening? = none)
    (hname : ∀ name, rs.current.opening = .function name → name ≠ [])
    (hopened : ∀ name ∈ rs.opened, name ≠ []) : e.closeFunction.Tracks (rs.add a) := by
  obtain ⟨hopen, hclosed, hunit⟩ := h
  obtain ⟨hop, hcur⟩ := Regions.opened_add_of_none rs ho
  have hu : e.closeFunction.unit = e.unit := (closeFunction_frame e).2.2.1
  have hreturns : Region.returns ⟨rs.current.opening, rs.current.body ++ [a]⟩ = true := by
    rw [Region.returns_snoc, hr, Bool.or_true]
  have hboth : e.closeFunction.openFunctions =
        Region.leavesOpen rs.opened ⟨rs.current.opening, rs.current.body ++ [a]⟩ ∧
      e.closeFunction.closedFunction =
        Region.closed rs.opened ⟨rs.current.opening, rs.current.body ++ [a]⟩ := by
    rw [Region.leavesOpen] at hopen ⊢
    rw [Region.closed] at hclosed ⊢
    rw [Generator.closeFunction]
    rw [hreturns]
    -- only the first `return` of a region closes a function
    cases hc : rs.current.opening with
    | function name =>
        have hne : name ≠ [] := hname name hc
        rw [hc] at hopen hclosed
        cases hret : rs.current.returns with
        | true => simp_all
        | false => simp_all
    | unit name =>
        rw [hc] at hopen hclosed
        cases hret : rs.current.returns with
        | true =>
            cases hl : rs.opened with
            | nil => simp_all
            | cons f rest => simp_all
        | false =>
            cases hl : rs.opened with
            | nil => simp_all
            | cons f rest => simp_all
  refine ⟨?_, ?_, ?_⟩
  · rw [hop, hcur]
    exact hboth.1
  · rw [hop, hcur]
    exact hboth.2
  · intro name hn
    rw [hcur] at hn
    rw [hu]
    exact hunit name hn

/-- **Step.** An action keeps the generator in the last region. -/
theorem Tracks.perform {e : Generator} {rs : Regions} {a : Action} (h : e.Tracks rs)
    (hname : ∀ name, rs.current.opening = .function name → name ≠ [])
    (hopened : ∀ name ∈ rs.opened, name ≠ []) : (e.perform a).Tracks (rs.add a) := by
  have hemit : (e.emit (e.lines a)).Tracks rs := ⟨h.openFunctions, h.closedFunction, h.unit⟩
  rw [perform_eq]
  cases ho : a.opening? with
  | none =>
      cases hr : a.isReturn with
      | true =>
          rw [after_of_return hr]
          exact hemit.closeFunction hr ho hname hopened
      | false =>
          obtain ⟨hop, hcl, hun⟩ := after_of_plain (e := e.emit (e.lines a)) ho hr
          obtain ⟨hopened', hcur⟩ := Regions.opened_add_of_none rs ho
          have hreturns : Region.returns ⟨rs.current.opening, rs.current.body ++ [a]⟩ =
              rs.current.returns := by
            rw [Region.returns_snoc, hr, Bool.or_false]
          refine ⟨?_, ?_, ?_⟩
          · rw [hop, hopened', hcur, Region.leavesOpen, hreturns]
            exact hemit.openFunctions
          · rw [hcl, hopened', hcur, Region.closed, hreturns]
            exact hemit.closedFunction
          · intro name hn
            rw [hcur] at hn
            rw [hun]
            exact hemit.unit name hn
  | some o =>
      obtain ⟨hopened', hcur⟩ := Regions.opened_add_of_opening rs ho
      rcases Action.opening?_eq_some ho with ⟨name, rfl, rfl⟩ | ⟨name, locals, hc, rfl⟩
      · refine ⟨?_, ?_, ?_⟩
        · rw [hopened', hcur]
          exact hemit.openFunctions
        · rw [hcur]
          rfl
        · intro u hu
          rw [hcur] at hu
          cases hu
          rfl
      · rw [after_of_command hc]
        refine ⟨?_, ?_, ?_⟩
        · rw [hopened', hcur]
          exact congrArg (name :: ·) hemit.openFunctions
        · rw [hcur]
          rfl
        · intro u hu
          rw [hcur] at hu
          cases hu

/-! ## Runs -/

/-- Every function that an action starts has a name. -/
def NamesFunctions (actions : List Action) : Prop :=
  ∀ a ∈ actions, a.opening? ≠ some (.function [])

instance (actions : List Action) : Decidable (NamesFunctions actions) :=
  inferInstanceAs (Decidable (∀ a ∈ actions, a.opening? ≠ some (.function [])))

theorem leavesOpen_named {opened : List Text} {r : Region}
    (hname : ∀ name, r.opening = .function name → name ≠ [])
    (h : ∀ name ∈ opened, name ≠ []) : ∀ name ∈ r.leavesOpen opened, name ≠ [] := by
  unfold Region.leavesOpen
  split
  · next f ho =>
      split
      · exact h
      · intro name hm
        rcases List.mem_cons.mp hm with rfl | hm
        · exact hname name ho
        · exact h name hm
  · split
    · exact fun name hm => h name (List.mem_of_mem_tail hm)
    · exact h

theorem new_tracks (options : Options) : (new options).Tracks Regions.start := by
  obtain ⟨hunit, hopen, hclosed, -, -⟩ := new_frame options
  refine ⟨hopen, hclosed, ?_⟩
  intro name hn
  cases hn
  exact hunit

/-- **Run.** The generator stands in the last region of its actions. -/
theorem tracks_run (options : Options) (actions : List Action) (h : NamesFunctions actions) :
    (run options actions).Tracks (Regions.ofActions actions) ∧
      (∀ name, (Regions.ofActions actions).current.opening = .function name → name ≠ []) ∧
      ∀ name ∈ (Regions.ofActions actions).opened, name ≠ [] := by
  induction actions using List.reverseRecOn with
  | nil =>
      refine ⟨new_tracks options, ?_, ?_⟩
      · intro name hn
        cases hn
      · intro name hn
        cases hn
  | append_singleton actions a ih =>
      obtain ⟨htracks, hname, hopened⟩ :=
        ih fun b hb => h b (List.mem_append_left _ hb)
      rw [run_snoc, Regions.ofActions_snoc]
      refine ⟨htracks.perform hname hopened, ?_⟩
      cases ho : a.opening? with
      | none =>
          obtain ⟨hop, hcur⟩ := Regions.opened_add_of_none (Regions.ofActions actions) ho
          rw [hop, hcur]
          exact ⟨hname, hopened⟩
      | some o =>
          obtain ⟨hop, hcur⟩ := Regions.opened_add_of_opening (Regions.ofActions actions) ho
          rw [hop, hcur]
          refine ⟨?_, leavesOpen_named hname hopened⟩
          rintro name rfl rfl
          exact h a (by simp) ho

/-- **Scopes follow the text**: at every point of a run, which is the end of some list of actions,
the scope is that of the last region, given the functions that are open where it starts. No action
but one that starts a function or a unit changes the scope, and so a `return` never does. -/
theorem scope_eq_region_scope (options : Options) (actions : List Action)
    (h : NamesFunctions actions) :
    (run options actions).scope =
        (Regions.ofActions actions).current.scope (Regions.ofActions actions).opened ∧
      ∀ a, a.opening? = none →
        (run options (actions ++ [a])).scope = (run options actions).scope := by
  obtain ⟨htracks, hname, hopened⟩ := tracks_run options actions h
  refine ⟨htracks.scope, ?_⟩
  intro a ho
  obtain ⟨hop, hcur⟩ := Regions.opened_add_of_none (Regions.ofActions actions) ho
  rw [run_snoc, (htracks.perform hname hopened).scope, htracks.scope, hop, hcur]
  rfl

/-- Two functions, the first of which never returns, after a unit that was left by two `return`s. -/
def nestedReturns : List Action :=
  [.unit "Main", .write (.label "TOP"), .write (.function "Main.f" 0), .write .ret, .bare .ret,
    .unit "Other", .write (.function "Other.loop" 0), .bare (.function "Other.g" 2), .write .ret,
    .write .ret, .write (.goto "TOP")]

theorem scope_nestedReturns :
    NamesFunctions nestedReturns ∧
      (run ⟨true, "", false⟩ nestedReturns).scope = ("Other.g" : Text) ∧
      (run ⟨true, "", false⟩ (nestedReturns ++ [.bare .ret])).scope = ("Other.g" : Text) := by
  have hnames : NamesFunctions nestedReturns := by decide
  obtain ⟨hscope, hkeep⟩ := scope_eq_region_scope ⟨true, "", false⟩ nestedReturns hnames
  have hregion : (Regions.ofActions nestedReturns).current.scope
      (Regions.ofActions nestedReturns).opened = ("Other.g" : Text) := by decide
  exact ⟨hnames, hscope.trans hregion, (hkeep (.bare .ret) (by decide)).trans
    (hscope.trans hregion)⟩

end Generator

end HackStack.Lowering
