import Mathlib.Data.List.Induction
import Mathlib.Data.List.Nodup
import HackStack.Proofs.Assembly.Image
import HackStack.Proofs.Lowering.Block
import HackStack.Proofs.Lowering.Run
import HackStack.Proofs.Lowering.Symbol

/-!
# Symbols along a run

The code of a command defines labels and refers to symbols. `Generator.defines` and
`Generator.mentions` say which, as data, and `definitions` and `mentioned` collect them along a run,
the start-up code included.

- `codeLabels_run`: the labels in the code of a run are the spellings of its definitions, in order.
- `backNumbers_run`: the calls of a run are numbered from zero without gaps, so no two of them go on
  at the same symbol.
- `symbols_never_collide`: all that is named in a run with admissible names is named apart.
-/

namespace HackStack.Vm

/-- The names in a command can be part of symbols: labels and functions have admissible names, and
a static variable has an index that is a numeral. -/
def Command.isNamed : Command → Bool
  | label name | goto name | ifGoto name => isIdentifier name
  | call name _ | function name _ => isFunctionName name
  | push .static index | pop .static index => decide (0 ≤ index)
  | _ => true

end HackStack.Vm

namespace HackStack.Lowering

open HackStack.Assembly
open HackStack.Vm

/-- The names in an action can be part of symbols. -/
def Action.isNamed : Action → Bool
  | unit name => isIdentifier name
  | write r | bare r => r.command?.toOption.all Command.isNamed

theorem Action.isNamed_of_command {a : Action} {c : Command} (h : a.isNamed = true)
    (hc : a.command? = some c) : c.isNamed = true := by
  cases a with
  | unit name => cases hc
  | write r =>
      change r.command?.toOption = some c at hc
      rw [isNamed, hc] at h
      exact h
  | bare r =>
      change r.command?.toOption = some c at hc
      rw [isNamed, hc] at h
      exact h

/-- The number of the call that a symbol belongs to, if it belongs to one. -/
def CodeSymbol.backNumber? : CodeSymbol → Option Nat
  | back _ number => some number
  | _ => none

namespace Generator

/-- The symbols that the code of an action defines. -/
def defines (e : Generator) (a : Action) : List CodeSymbol :=
  match a.command? with
  | some (.label name) => [.label e.scope name]
  | some (.call _ _) => [.back e.scope e.calls]
  | some (.function name _) => [.function name]
  | _ => []

/-- The symbols that the code of an action defines or refers to, registers apart. -/
def mentions (e : Generator) (a : Action) : List CodeSymbol :=
  match a.command? with
  | some (.push .static index) | some (.pop .static index) => [.cell e.unit index.toNat]
  | some (.label name) | some (.goto name) | some (.ifGoto name) => [.label e.scope name]
  | some (.call name _) => [.back e.scope e.calls, .function name]
  | some (.function name _) => [.function name]
  | _ => []

def definesAll (e : Generator) : List Action → List CodeSymbol
  | [] => []
  | a :: rest => e.defines a ++ (e.perform a).definesAll rest

def mentionsAll (e : Generator) : List Action → List CodeSymbol
  | [] => []
  | a :: rest => e.mentions a ++ (e.perform a).mentionsAll rest

theorem definesAll_append (e : Generator) (first second : List Action) :
    e.definesAll (first ++ second) =
      e.definesAll first ++ (e.performAll first).definesAll second := by
  induction first generalizing e with
  | nil => rfl
  | cons a first ih =>
      rw [List.cons_append, definesAll, definesAll, ih, List.append_assoc]
      rfl

theorem mentionsAll_append (e : Generator) (first second : List Action) :
    e.mentionsAll (first ++ second) =
      e.mentionsAll first ++ (e.performAll first).mentionsAll second := by
  induction first generalizing e with
  | nil => rfl
  | cons a first ih =>
      rw [List.cons_append, mentionsAll, mentionsAll, ih, List.append_assoc]
      rfl

/-! Which symbols are defined depends on the scope and on the number of calls, not on the code. -/

theorem definesAll_emit (e : Generator) (lines : List Line) (actions : List Action) :
    (e.emit lines).definesAll actions = e.definesAll actions := by
  induction actions generalizing e lines with
  | nil => rfl
  | cons a actions ih =>
      show e.defines a ++ ((e.emit lines).perform a).definesAll actions =
        e.defines a ++ (e.perform a).definesAll actions
      rw [perform_eq, perform_eq, emit_emit, after_emit, after_emit, ih, ih]

theorem definesAll_cons (e : Generator) (a : Action) (actions : List Action) :
    e.definesAll (a :: actions) = e.defines a ++ (e.after a).definesAll actions := by
  rw [definesAll, perform_eq, after_emit, definesAll_emit]

def definitions (options : Options) (actions : List Action) : List CodeSymbol :=
  (if options.bootstrap then [.back standardUnit 0] else []) ++ (new options).definesAll actions

def mentioned (options : Options) (actions : List Action) : List CodeSymbol :=
  (if options.bootstrap then [.back standardUnit 0, .function options.entryName] else []) ++
    (new options).mentionsAll actions

theorem definitions_snoc (options : Options) (actions : List Action) (a : Action) :
    definitions options (actions ++ [a]) =
      definitions options actions ++ (run options actions).defines a := by
  rw [definitions, definitions, definesAll_append, List.append_assoc]
  simp [definesAll, run]

theorem mentioned_snoc (options : Options) (actions : List Action) (a : Action) :
    mentioned options (actions ++ [a]) =
      mentioned options actions ++ (run options actions).mentions a := by
  rw [mentioned, mentioned, mentionsAll_append, List.append_assoc]
  simp [mentionsAll, run]

theorem defines_subset_mentions (e : Generator) (a : Action) : e.defines a ⊆ e.mentions a := by
  unfold defines mentions
  cases a.command? with
  | none => exact List.Subset.refl _
  | some c => cases c <;> simp

theorem definitions_subset_mentioned (options : Options) (actions : List Action) :
    definitions options actions ⊆ mentioned options actions := by
  induction actions using List.reverseRecOn with
  | nil =>
      unfold definitions mentioned
      split <;> simp [definesAll]
  | append_singleton actions a ih =>
      rw [definitions_snoc, mentioned_snoc]
      exact List.append_subset.mpr ⟨fun s hs => List.mem_append_left _ (ih hs),
        fun s hs => List.mem_append_right _ (defines_subset_mentions _ a hs)⟩

/-! ## Labels in the code -/

theorem codeLabels_remarkLines (e : Generator) (a : Action) :
    codeLabels (e.remarkLines a) = [] := by
  unfold remarkLines
  split
  · split
    · rfl
    · cases Request.text? _ <;> rfl
  · rfl

/-- The labels in the code of a command. -/
theorem codeLabels_block {e : Generator} {c : Command} {lines : List Line}
    (h : e.block c = .ok lines) :
    codeLabels lines = match c with
      | .label name => [labelSymbol e.scope name]
      | .call _ _ => [returnSymbol e.scope e.calls]
      | .function name _ => [name]
      | _ => [] := by
  cases c with
  | push s i =>
      obtain ⟨p, -, rfl⟩ := block_push h
      exact codeLabels_instructions _
  | pop s i =>
      obtain ⟨p, address, -, -, rfl⟩ := block_pop h
      exact codeLabels_instructions _
  | label name =>
      cases h
      rfl
  | call name args =>
      cases h
      simp only [callBlock, codeLabels_append, codeLabels_instructions]
      rfl
  | function name locals =>
      cases h
      show name :: codeLabels (List.map Line.instruction _) = [name]
      rw [codeLabels_instructions]
  | _ =>
      cases h
      exact codeLabels_instructions _

/-- An action whose command has a fault defines nothing. -/
theorem codeLabels_lines (e : Generator) (a : Action) :
    codeLabels (e.lines a) = (e.defines a).map CodeSymbol.text := by
  rw [lines, codeLabels_append, codeLabels_remarkLines, List.nil_append]
  unfold defines
  cases hc : a.command? with
  | none => rw [blockLines_of_none hc]; rfl
  | some c =>
      rw [blockLines_of_command hc]
      cases hb : e.block c with
      | ok lines =>
          show codeLabels lines = _
          rw [codeLabels_block hb]
          cases c <;> rfl
      | error f =>
          cases c with
          | push => rfl
          | pop => rfl
          | _ => cases hb

theorem codeLabels_new (options : Options) :
    codeLabels (new options).code.toList = (definitions options []).map CodeSymbol.text := by
  unfold definitions
  cases hb : options.bootstrap with
  | false =>
      rw [new_of_not_bootstrap hb]
      rfl
  | true =>
      have hstart : codeLabels ((initial options).emit (startLines options)).code.toList = [] := by
        unfold startLines initial
        cases options.uncommented <;> rfl
      rw [new_of_bootstrap hb, perform_code, codeLabels_append, hstart, codeLabels_lines]
      rfl

/-- **Labels.** The labels in the code of a run are its definitions. -/
theorem codeLabels_run (options : Options) (actions : List Action) :
    codeLabels (run options actions).code.toList =
      (definitions options actions).map CodeSymbol.text := by
  induction actions using List.reverseRecOn with
  | nil => exact codeLabels_new options
  | append_singleton actions a ih =>
      rw [run_snoc, perform_code, codeLabels_append, ih, codeLabels_lines, definitions_snoc,
        List.map_append]

/-! ## Calls are numbered -/

theorem perform_calls (e : Generator) (a : Action) :
    (e.perform a).calls = e.calls + ((e.defines a).filterMap CodeSymbol.backNumber?).length := by
  rw [perform_eq]
  unfold defines
  rcases after_cases (e.emit (e.lines a)) a with ⟨name, rfl, h⟩ | ⟨c, hc, h⟩ | ⟨-, hc, h⟩
  · rw [h]
    rfl
  · rw [h, hc]
    cases c with
    | ret => exact (closeFunction_frame _).2.2.2.1
    | _ => rfl
  · rw [h, hc]
    rfl

theorem backNumbers_defines (e : Generator) (a : Action) :
    (e.defines a).filterMap CodeSymbol.backNumber? =
      (List.range ((e.defines a).filterMap CodeSymbol.backNumber?).length).map (e.calls + ·) := by
  unfold defines
  split <;> rfl

/-- **Calls.** The calls of a run have the numbers from zero on, in order. -/
theorem backNumbers_run (options : Options) (actions : List Action) :
    (definitions options actions).filterMap CodeSymbol.backNumber? =
      List.range (run options actions).calls := by
  induction actions using List.reverseRecOn with
  | nil =>
      have hcalls := (new_frame options).2.2.2.2
      show _ = List.range (new options).calls
      rw [hcalls, definitions]
      cases options.bootstrap <;> rfl
  | append_singleton actions a ih =>
      rw [definitions_snoc, List.filterMap_append, ih, run_snoc, perform_calls, List.range_add,
        ← backNumbers_defines]

/-! ## Admissible names -/

/-- The names that the scope of a label can be are identifiers. -/
structure Named (e : Generator) : Prop where
  unit : isIdentifier e.unit = true
  openFunctions : ∀ name ∈ e.openFunctions, isIdentifier name = true
  closedFunction : ∀ name, e.closedFunction = some name → isIdentifier name = true

theorem Named.scope {e : Generator} (h : e.Named) : isIdentifier e.scope = true := by
  unfold Generator.scope
  cases hc : e.closedFunction with
  | some name => exact h.closedFunction name hc
  | none =>
      cases ho : e.openFunctions with
      | nil => exact h.unit
      | cons name rest => exact h.openFunctions name (by rw [ho]; exact List.mem_cons_self)

theorem Named.closeFunction {e : Generator} (h : e.Named) : e.closeFunction.Named := by
  unfold Generator.closeFunction
  split
  · next f rest hc ho =>
      refine ⟨h.unit, ?_, ?_⟩
      · intro name hm
        exact h.openFunctions name (by rw [ho]; exact List.mem_cons_of_mem _ hm)
      · intro name hname
        split at hname
        · cases hname
        · cases hname
          exact h.openFunctions f (by rw [ho]; exact List.mem_cons_self)
  · exact h

theorem Named.follow {e : Generator} (h : e.Named) {c : Command} (hc : c.isNamed = true) :
    (e.follow c).Named := by
  cases c with
  | function name locals =>
      refine ⟨h.unit, ?_, ?_⟩
      · intro f hf
        rcases List.mem_cons.mp hf with rfl | hf
        · exact isIdentifier_of_isFunctionName hc
        · exact h.openFunctions f hf
      · intro f hf
        cases hf
  | ret => exact h.closeFunction
  | _ => exact ⟨h.unit, h.openFunctions, h.closedFunction⟩

theorem Named.perform {e : Generator} (h : e.Named) {a : Action} (ha : a.isNamed = true) :
    (e.perform a).Named := by
  have hemit : (e.emit (e.lines a)).Named := ⟨h.unit, h.openFunctions, h.closedFunction⟩
  rw [perform_eq]
  rcases after_cases (e.emit (e.lines a)) a with ⟨name, rfl, heq⟩ | ⟨c, hc, heq⟩ | ⟨-, -, heq⟩
  · rw [heq]
    refine ⟨ha, h.openFunctions, ?_⟩
    intro name hn
    cases hn
  · rw [heq]
    exact hemit.follow (Action.isNamed_of_command ha hc)
  · rw [heq]
    exact hemit

theorem named_new (options : Options) : (new options).Named := by
  obtain ⟨hunit, hopen, hclosed, -, -⟩ := new_frame options
  refine ⟨?_, ?_, ?_⟩
  · rw [hunit]
    decide
  · rw [hopen]
    intro name hn
    cases hn
  · rw [hclosed]
    intro name hn
    cases hn

theorem Named.performAll {e : Generator} (h : e.Named) {actions : List Action}
    (hactions : ∀ a ∈ actions, a.isNamed = true) : (e.performAll actions).Named := by
  induction actions generalizing e with
  | nil => exact h
  | cons a actions ih =>
      obtain ⟨ha, hactions⟩ := List.forall_mem_cons.mp hactions
      exact ih (h.perform ha) hactions

theorem named_run (options : Options) (actions : List Action)
    (h : ∀ a ∈ actions, a.isNamed = true) : (run options actions).Named :=
  (named_new options).performAll h

theorem Named.mentions {e : Generator} (h : e.Named) {a : Action} (ha : a.isNamed = true)
    {s : CodeSymbol} (hs : s ∈ e.mentions a) : s.Admissible := by
  unfold Generator.mentions at hs
  cases hc : a.command? with
  | none =>
      rw [hc] at hs
      cases hs
  | some c =>
      have hn := Action.isNamed_of_command ha hc
      rw [hc] at hs
      cases c with
      | push seg i => cases seg <;> simp_all [CodeSymbol.Admissible, h.unit]
      | pop seg i => cases seg <;> simp_all [CodeSymbol.Admissible, h.unit]
      | call name args =>
          simp only [List.mem_cons, List.not_mem_nil, or_false] at hs
          rcases hs with rfl | rfl
          · exact h.scope
          · exact hn
      | function name locals =>
          rw [List.mem_singleton.mp hs]
          exact hn
      | label name =>
          rw [List.mem_singleton.mp hs]
          exact ⟨h.scope, hn⟩
      | goto name =>
          rw [List.mem_singleton.mp hs]
          exact ⟨h.scope, hn⟩
      | ifGoto name =>
          rw [List.mem_singleton.mp hs]
          exact ⟨h.scope, hn⟩
      | arithmetic op => cases hs
      | ret => cases hs

/-- **Names.** All that a run with admissible names mentions is admissible. -/
theorem mentioned_admissible (options : Options) (actions : List Action)
    (hentry : isFunctionName options.entryName = true) (h : ∀ a ∈ actions, a.isNamed = true) :
    ∀ s ∈ mentioned options actions, s.Admissible := by
  induction actions using List.reverseRecOn with
  | nil =>
      intro s hs
      unfold mentioned at hs
      cases hb : options.bootstrap with
      | false => simp [hb, mentionsAll] at hs
      | true =>
          simp only [hb, if_true, mentionsAll, List.append_nil, List.mem_cons, List.not_mem_nil,
            or_false] at hs
          rcases hs with rfl | rfl
          · show isIdentifier standardUnit = true
            decide
          · exact hentry
  | append_singleton actions a ih =>
      intro s hs
      rw [mentioned_snoc] at hs
      have hbefore : ∀ b ∈ actions, b.isNamed = true := fun b hb =>
        h b (List.mem_append_left _ hb)
      rcases List.mem_append.mp hs with hs | hs
      · exact ih hbefore s hs
      · exact (named_run options actions hbefore).mentions (h a (by simp)) hs

theorem map_backNumber?_filter (l : List CodeSymbol) :
    (l.filter CodeSymbol.isBack).map CodeSymbol.backNumber? =
      (l.filterMap CodeSymbol.backNumber?).map some := by
  induction l with
  | nil => rfl
  | cons s l ih =>
      cases s with
      | back scope number => exact congrArg (some number :: ·) ih
      | _ => exact ih

theorem definitions_back_nodup (options : Options) (actions : List Action) :
    ((definitions options actions).filter CodeSymbol.isBack).Nodup := by
  apply List.Nodup.of_map CodeSymbol.backNumber?
  rw [map_backNumber?_filter, backNumbers_run]
  exact List.nodup_range.map fun _ _ => Option.some.inj

/-- **Symbols never collide.** The spelling of symbols with admissible names is injective: static
variables, labels, return addresses and functions are told apart within each kind and between
kinds, and only a function can be spelled like a predefined symbol. Therefore, along a run whose
names are admissible, the labels in the code are those of its definitions, no two calls go on at the
same label, and no label of a call is spelled like anything else that the run mentions. -/
theorem symbols_never_collide :
    (∀ s t : CodeSymbol, s.Admissible → t.Admissible → s.text = t.text → s = t) ∧
    (∀ s : CodeSymbol, s.isFunction = false → s.text ∉ predefined.map Prod.fst) ∧
    ∀ (options : Options) (actions : List Action), isFunctionName options.entryName = true →
      (∀ a ∈ actions, a.isNamed = true) →
        codeLabels (run options actions).code.toList =
            (definitions options actions).map CodeSymbol.text ∧
          (((definitions options actions).filter CodeSymbol.isBack).map CodeSymbol.text).Nodup ∧
          ∀ b ∈ definitions options actions, b.isBack = true →
            ∀ s ∈ mentioned options actions, s.isBack = false → b.text ≠ s.text := by
  refine ⟨fun s t => CodeSymbol.text_injective, fun s => CodeSymbol.text_notMem_predefined, ?_⟩
  intro options actions hentry hnamed
  have hadm := mentioned_admissible options actions hentry hnamed
  have hsub := definitions_subset_mentioned options actions
  refine ⟨codeLabels_run options actions, ?_, ?_⟩
  · refine List.Nodup.map_on ?_ (definitions_back_nodup options actions)
    intro s hs t ht h
    exact CodeSymbol.text_injective (hadm s (hsub (List.mem_of_mem_filter hs)))
      (hadm t (hsub (List.mem_of_mem_filter ht))) h
  · intro b hb hback s hs hnot h
    have hsame := CodeSymbol.text_injective (hadm b (hsub hb)) (hadm s hs) h
    rw [hsame, hnot] at hback
    cases hback

/-- Labels that look like return addresses, around two calls and a static variable. -/
def crowdedNames : List Action :=
  [.unit "Main", .write (.function "Main.ret" 0), .write (.call "Main.ret" 0),
    .write (.label "ret.1"), .write (.label "ret"), .bare (.call "Main.ret" 1),
    .write (.push 5 1), .write (.goto "ret.1"), .write .ret]

theorem symbols_never_collide_crowdedNames :
    (isFunctionName (Options.mk true "" true).entryName = true ∧
        ∀ a ∈ crowdedNames, a.isNamed = true) ∧
      (((definitions ⟨true, "", true⟩ crowdedNames).filter CodeSymbol.isBack).map
        CodeSymbol.text).Nodup ∧
      (CodeSymbol.back "Main.ret" 1).text ≠ (CodeSymbol.label "Main.ret" "ret.1").text := by
  have hnames : isFunctionName (Options.mk true "" true).entryName = true ∧
      ∀ a ∈ crowdedNames, a.isNamed = true := by decide
  obtain ⟨-, -, hrun⟩ := symbols_never_collide
  obtain ⟨-, hnodup, happart⟩ := hrun ⟨true, "", true⟩ crowdedNames hnames.1 hnames.2
  exact ⟨hnames, hnodup, happart _ (by decide +kernel) rfl _ (by decide +kernel) rfl⟩

end Generator

end HackStack.Lowering
