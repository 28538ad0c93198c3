import HackStack.Proofs.Lowering.Legible

/-!
# Generator and assembler agree on addresses

The generator counts instructions to know the program address of the next one, and writes jump
targets by that count; the assembler counts again when it binds labels. `Lowerable` says which runs
have code that can be assembled at all. For these, the two counts agree:

- `Lowerable.assemble`, `Lowerable.refused`: the code is accepted exactly if it fits;
- `codeAt_action`, `label_action`: the code of each action lies between the two counts, and its
  labels are bound to them;
- `addresses_agree` puts these together for commands that were read from source lines.
-/

namespace HackStack.Lowering

open HackStack.Assembly
open HackStack.Machine
open HackStack.Vm

def CodeSymbol.isLabel : CodeSymbol → Bool
  | label _ _ => true
  | _ => false

/-- An action that starts a unit with a proper name, or asks for a command that was read from a
source line. -/
def Action.Accepted : Action → Prop
  | unit name => isIdentifier name = true
  | write r | bare r => ∃ c, r.command? = .ok c ∧ c.Accepted

theorem Action.Accepted.valid {a : Action} (h : a.Accepted) : a.Valid := by
  cases a with
  | unit name => exact h
  | write r =>
      obtain ⟨c, hc, haccepted⟩ := h
      exact ⟨c, hc, haccepted.isValid⟩
  | bare r =>
      obtain ⟨c, hc, haccepted⟩ := h
      exact ⟨c, hc, haccepted.isValid⟩

namespace Generator

/-! ## Code grows at its end -/

theorem code_performAll (e : Generator) (actions : List Action) :
    ∃ rest, (e.performAll actions).code.toList = e.code.toList ++ rest := by
  induction actions generalizing e with
  | nil => exact ⟨[], (List.append_nil _).symm⟩
  | cons a actions ih =>
      obtain ⟨rest, hrest⟩ := ih (e.perform a)
      refine ⟨e.lines a ++ rest, ?_⟩
      show ((e.perform a).performAll actions).code.toList = _
      rw [hrest, perform_code, List.append_assoc]

theorem code_run_split (options : Options) (before after : List Action) (a : Action) :
    ∃ rest, (run options (before ++ a :: after)).code.toList =
      (run options before).code.toList ++ (run options before).lines a ++ rest := by
  obtain ⟨rest, hrest⟩ := code_performAll ((run options before).perform a) after
  refine ⟨rest, ?_⟩
  rw [run_append]
  show (((run options before).perform a).performAll after).code.toList = _
  rw [hrest, perform_code]

theorem counter_perform_eq {e : Generator}
    (h : e.counter = e.code.toList.countP Line.occupiesRom) (a : Action) :
    (e.perform a).counter = (e.perform a).code.toList.countP Line.occupiesRom := by
  rw [perform_counter, perform_code, List.countP_append, h]

/-- **The counter** is the number of instructions in the code. -/
theorem counter_run (options : Options) (actions : List Action) :
    (run options actions).counter = (run options actions).code.toList.countP Line.occupiesRom := by
  induction actions using List.reverseRecOn with
  | nil =>
      show (new options).counter = (new options).code.toList.countP Line.occupiesRom
      cases hb : options.bootstrap with
      | false =>
          rw [new_of_not_bootstrap hb]
          rfl
      | true =>
          rw [new_of_bootstrap hb]
          apply counter_perform_eq
          rw [code_emit]
          exact Nat.zero_add _
  | append_singleton actions a ih =>
      rw [run_snoc]
      exact counter_perform_eq ih a

theorem lines_of_call {e : Generator} {a : Action} {name : Text} {args : Int}
    (h : a.command? = some (.call name args)) :
    e.lines a = (e.remarkLines a ++
      (callCode (returnSymbol e.scope e.calls) name args).map .instruction) ++
        [.label (returnSymbol e.scope e.calls)] := by
  rw [lines, blockLines_of_command h, List.append_assoc]
  rfl

/-! ## Runs that can be assembled -/

/-- A run of valid actions that defines nothing twice, and no function with the name of a
predefined symbol. -/
structure Lowerable (options : Options) (actions : List Action) : Prop where
  entry : isFunctionName options.entryName = true
  valid : ∀ a ∈ actions, a.Valid
  functions : ((definitions options actions).filter CodeSymbol.isFunction).Nodup
  free : ∀ s ∈ definitions options actions, s.isFunction = true →
    s.text ∉ predefined.map Prod.fst
  labels : ((definitions options actions).filter CodeSymbol.isLabel).Nodup

theorem cell_notMem_definitions (options : Options) (actions : List Action) (unit : Text)
    (index : Nat) : CodeSymbol.cell unit index ∉ definitions options actions := by
  induction actions using List.reverseRecOn with
  | nil =>
      unfold definitions
      split <;> simp [definesAll]
  | append_singleton actions a ih =>
      rw [definitions_snoc, List.mem_append, not_or]
      refine ⟨ih, ?_⟩
      unfold defines
      split <;> simp

/-- The code of a run can be read back, even if it does not fit. -/
theorem readable_run {options : Options} {actions : List Action}
    (hentry : isFunctionName options.entryName = true) (hvalid : ∀ a ∈ actions, a.Valid) :
    ∀ l ∈ (run options actions).code.toList, l.Readable := by
  intro l hl
  have hlegible := legible_run hentry (Nat.le_max_left programSize (run options actions).counter)
    actions hvalid (Nat.le_max_right _ _)
  exact (hlegible l hl).1

/-- The numbers in the code of a run are program addresses, so they are small if the code fits. -/
theorem loadsBelow_run {options : Options} {actions : List Action}
    (hentry : isFunctionName options.entryName = true) (hvalid : ∀ a ∈ actions, a.Valid)
    (hfits : (run options actions).code.toList.countP Line.occupiesRom ≤ programSize) :
    ∀ l ∈ (run options actions).code.toList, l.LoadsBelow programSize := by
  rw [← counter_run] at hfits
  exact fun l hl => (legible_run hentry (Nat.le_refl _) actions hvalid hfits l hl).2

/-- No label of a run is spelled like a static variable. -/
theorem cellSymbol_notMem_codeLabels {options : Options} {actions : List Action}
    (hentry : isFunctionName options.entryName = true) (hvalid : ∀ a ∈ actions, a.Valid)
    {unit : Text} (hunit : isIdentifier unit = true) (index : Nat) :
    cellSymbol unit index ∉ codeLabels (run options actions).code.toList := by
  rw [codeLabels_run]
  intro hlabel
  obtain ⟨s, hs, htext⟩ := List.mem_map.mp hlabel
  have hadmissible : s.Admissible :=
    mentioned_admissible options actions hentry (fun a ha => (hvalid a ha).isNamed) s
      (definitions_subset_mentioned options actions hs)
  have hcell : s = .cell unit index := CodeSymbol.text_injective hadmissible hunit htext
  rw [hcell] at hs
  exact cell_notMem_definitions options actions unit index hs

/-- The code of a command that uses a static variable starts by loading the variable's address. -/
theorem block_of_static (e : Generator) {c : Command} {index : Nat}
    (hc : c = .push .static index ∨ c = .pop .static index) :
    ∃ rest, e.block c = .ok ((.symbol (cellSymbol e.unit index) :: rest).map .instruction) := by
  have hplace : place e.unit .static index = .ok (.fixed (.symbol (cellSymbol e.unit index))) := rfl
  rcases hc with rfl | rfl
  · exact ⟨_, block_push_of_place hplace⟩
  · exact ⟨_, block_pop_of_place hplace rfl⟩

theorem static_loaded (options : Options) (before after : List Action) {c : Command} {index : Nat}
    (hc : c = .push .static index ∨ c = .pop .static index) :
    .symbol (cellSymbol (run options before).unit index) ∈
      codeInstructions (run options (before ++ .ofCommand c :: after)).code.toList := by
  obtain ⟨rest, hrest⟩ := code_run_split options before after (.ofCommand c)
  obtain ⟨code, hcode⟩ := (run options before).block_of_static hc
  have hblock : (run options before).blockLines (.ofCommand c) =
      (.symbol (cellSymbol (run options before).unit index) :: code).map .instruction := by
    rw [blockLines_of_command (Action.command?_ofCommand c), hcode]
    rfl
  rw [hrest, lines, hblock, codeInstructions_append, codeInstructions_append,
    codeInstructions_append, codeInstructions_instructions]
  exact List.mem_append_left _ (List.mem_append_right _ (List.mem_append_right _ List.mem_cons_self))

namespace Lowerable

variable {options : Options} {actions : List Action} (h : Lowerable options actions)
include h

theorem definitions_nodup : (definitions options actions).Nodup := by
  rw [List.nodup_iff_count_le_one]
  intro s
  have hkind : ∀ p : CodeSymbol → Bool, p s = true →
      ((definitions options actions).filter p).Nodup →
        (definitions options actions).count s ≤ 1 := by
    intro p hp hnodup
    rw [← List.count_filter hp]
    exact List.nodup_iff_count_le_one.mp hnodup s
  cases s with
  | function name => exact hkind _ rfl h.functions
  | label scope name => exact hkind _ rfl h.labels
  | back scope number => exact hkind _ rfl (definitions_back_nodup options actions)
  | cell unit index =>
      rw [List.count_eq_zero.mpr (cell_notMem_definitions options actions unit index)]
      exact Nat.zero_le 1

theorem admissible : ∀ s ∈ mentioned options actions, s.Admissible :=
  mentioned_admissible options actions h.entry fun a ha => (h.valid a ha).isNamed

theorem labels_nodup : (codeLabels (run options actions).code.toList).Nodup := by
  rw [codeLabels_run]
  refine List.Nodup.map_on ?_ h.definitions_nodup
  intro s hs t ht heq
  have hsub := definitions_subset_mentioned options actions
  exact CodeSymbol.text_injective (h.admissible s (hsub hs)) (h.admissible t (hsub ht)) heq

theorem labels_free :
    ∀ name ∈ codeLabels (run options actions).code.toList, name ∉ predefined.map Prod.fst := by
  rw [codeLabels_run]
  intro name hname
  obtain ⟨s, hs, rfl⟩ := List.mem_map.mp hname
  cases hkind : s.isFunction with
  | true => exact h.free s hs hkind
  | false => exact CodeSymbol.text_notMem_predefined hkind

theorem readable : ∀ l ∈ (run options actions).code.toList, l.Readable :=
  readable_run h.entry h.valid

/-- Code that fits is accepted. -/
theorem assemble (hfit : (run options actions).counter ≤ programSize) :
    ∃ a p, Assembler.new.assemble (run options actions).text = (a, .ok p) ∧
      Image (run options actions).code.toList a.symbols p.words.toList := by
  rw [counter_run] at hfit
  exact assemble_render h.readable h.labels_nodup h.labels_free
    (loadsBelow_run h.entry h.valid hfit) hfit

/-- Code that does not fit is refused. -/
theorem refused (hlarge : programSize < (run options actions).counter) :
    ∃ e, (Assembler.new.assemble (run options actions).text).2 = .error e := by
  rw [counter_run] at hlarge
  exact assemble_too_large h.readable h.labels_nodup h.labels_free hlarge

end Lowerable

/-! ## Where the code of an action lies -/

section

variable {options : Options} {before after : List Action} {a : Action} {symbols : Bindings}
  {words : List Word}
  (himage : Image (run options (before ++ a :: after)).code.toList symbols words)
include himage

theorem codeAt_action :
    CodeAt symbols words (run options before).counter
      (codeInstructions ((run options before).lines a)) := by
  obtain ⟨rest, hrest⟩ := code_run_split options before after a
  rw [hrest] at himage
  rw [counter_run]
  exact himage.codeAt

/-- A label in the lines of an action is bound to the count at its place. -/
theorem label_action {first second : List Line} {name : Text}
    (hlines : (run options before).lines a = first ++ .label name :: second) :
    symbols[name]? =
      some (BitVec.ofNat 16 ((run options before).counter + first.countP Line.occupiesRom)) := by
  obtain ⟨rest, hrest⟩ := code_run_split options before after a
  have hsplit : (run options (before ++ a :: after)).code.toList =
      ((run options before).code.toList ++ first) ++ .label name :: (second ++ rest) := by
    rw [hrest, hlines]
    simp
  rw [himage.label _ name _ hsplit, List.countP_append, ← counter_run]

/-- The code of an action lies at the counts around it, and the labels in it are bound to the count
at their place: a function and a label to the one before, the end of a call to the one after. -/
structure LaidOut (symbols : Bindings) (words : List Word) (e : Generator) (a : Action) : Prop where
  code : ∀ c, a.command? = some c → ∃ lines, e.block c = .ok lines ∧
    CodeAt symbols words e.counter (codeInstructions lines) ∧
    (e.perform a).counter = e.counter + (codeInstructions lines).length
  function : ∀ name locals, a.command? = some (.function name locals) →
    symbols[name]? = some (BitVec.ofNat 16 e.counter)
  label : ∀ name, a.command? = some (.label name) →
    symbols[labelSymbol e.scope name]? = some (BitVec.ofNat 16 e.counter)
  back : ∀ name args, a.command? = some (.call name args) →
    symbols[returnSymbol e.scope e.calls]? = some (BitVec.ofNat 16 (e.perform a).counter)

theorem laidOut_action (ha : a.Valid) : LaidOut symbols words (run options before) a := by
  have hblock : ∀ c, a.command? = some c →
      (run options before).block c = .ok ((run options before).blockLines a) :=
    fun c hc => blockLines_of_isValid hc (ha.isValid hc)
  have hlabel := @label_action options before after a symbols words himage
  refine ⟨?_, ?_, ?_, ?_⟩
  · intro c hc
    refine ⟨_, hblock c hc, ?_, ?_⟩
    · have hcode := codeAt_action himage
      rwa [lines, codeInstructions_append, codeInstructions_remarkLines, List.nil_append] at hcode
    · rw [perform_counter, lines_countP, length_codeInstructions]
  · intro name locals hc
    have hlines := Except.ok.inj (hblock _ hc)
    rw [functionBlock] at hlines
    rw [hlabel (by rw [lines, ← hlines]), countP_remarkLines]
    rfl
  · intro name hc
    have hlines := Except.ok.inj (hblock _ hc)
    rw [hlabel (by rw [lines, ← hlines]), countP_remarkLines]
    rfl
  · intro name args hc
    rw [hlabel (lines_of_call hc), perform_counter, lines_of_call hc]
    simp only [List.countP_append]
    rfl

end

/-- The start-up code ends with the label where its call goes on. -/
theorem code_new_of_bootstrap {options : Options} (hb : options.bootstrap = true) :
    ∃ first, (new options).code.toList = first ++ [.label (returnSymbol standardUnit 0)] ∧
      first.countP Line.occupiesRom = (new options).counter := by
  have hcode : ∃ first,
      (new options).code.toList = first ++ [.label (returnSymbol standardUnit 0)] := by
    rw [new_of_bootstrap hb, perform_code, lines_of_call (Action.command?_ofCommand _),
      ← List.append_assoc]
    exact ⟨_, rfl⟩
  obtain ⟨first, hfirst⟩ := hcode
  have hcounter : (new options).counter = _ := counter_run options []
  refine ⟨first, hfirst, ?_⟩
  rw [hcounter]
  show _ = (new options).code.toList.countP Line.occupiesRom
  rw [hfirst, List.countP_append]
  rfl

/-- **Generator and assembler agree on every address.** The code of a run is accepted exactly if the
generator has counted no more instructions than fit. There are then as many words as it counted, the
start-up code returns to where it counted, and every action lies where its count stood. -/
theorem addresses_agree (options : Options) (actions : List Action)
    (hentry : isFunctionName options.entryName = true) (haccepted : ∀ a ∈ actions, a.Accepted)
    (hfunctions : ((definitions options actions).filter CodeSymbol.isFunction).Nodup)
    (hfree : ∀ s ∈ definitions options actions, s.isFunction = true →
      s.text ∉ predefined.map Prod.fst)
    (hlabels : ((definitions options actions).filter CodeSymbol.isLabel).Nodup) :
    ((∃ a p, Assembler.new.assemble (run options actions).text = (a, .ok p)) ↔
        (run options actions).counter ≤ programSize) ∧
      ∀ a p, Assembler.new.assemble (run options actions).text = (a, .ok p) →
        p.words.size = (run options actions).counter ∧
        (options.bootstrap = true →
          a.address? (returnSymbol standardUnit 0) =
            some (BitVec.ofNat 16 (new options).counter)) ∧
        ∀ before act after, actions = before ++ act :: after →
          LaidOut a.symbols p.words.toList (run options before) act := by
  have h : Lowerable options actions :=
    ⟨hentry, fun a ha => (haccepted a ha).valid, hfunctions, hfree, hlabels⟩
  have hiff : (∃ a p, Assembler.new.assemble (run options actions).text = (a, .ok p)) ↔
      (run options actions).counter ≤ programSize := by
    constructor
    · rintro ⟨a, p, hassemble⟩
      by_contra hlarge
      obtain ⟨e, he⟩ := h.refused (by omega)
      rw [hassemble] at he
      cases he
    · intro hfit
      obtain ⟨a, p, hassemble, -⟩ := h.assemble hfit
      exact ⟨a, p, hassemble⟩
  refine ⟨hiff, ?_⟩
  intro a p hassemble
  -- code that is accepted fits, and then its result is an image of the lines
  obtain ⟨a', p', hassemble', himage⟩ := h.assemble (hiff.mp ⟨a, p, hassemble⟩)
  rw [hassemble] at hassemble'
  cases hassemble'
  refine ⟨?_, ?_, ?_⟩
  · rw [← Array.length_toList, himage.length, counter_run]
  · intro hb
    obtain ⟨first, hfirst, hcount⟩ := code_new_of_bootstrap hb
    obtain ⟨rest, hrest⟩ := code_performAll (new options) actions
    rw [hfirst, List.append_assoc] at hrest
    rw [← hcount]
    exact himage.label first _ rest hrest
  · rintro before act after rfl
    exact laidOut_action himage (h.valid act (by simp))

/-- A function that compares, branches back and calls itself, and the entry function. -/
def loopingCalls : List Action :=
  [.unit "Main", .write (.function "Main.loop" 2), .write (.label "again"),
    .write (.push 0 0), .write (.push 7 32767), .write (.arithmetic 5), .write (.ifGoto "again"),
    .bare (.call "Main.loop" 0), .write .ret,
    .unit "Sys", .write (.function "Sys.init" 0), .write (.call "Main.loop" 0), .write (.pop 5 3)]

theorem loopingCalls_accepted : ∀ a ∈ loopingCalls, a.Accepted := by
  simp only [loopingCalls, List.forall_mem_cons]
  refine ⟨show isIdentifier "Main" = true by decide, ⟨_, rfl, "function Main.loop 2", 1, rfl⟩,
    ⟨_, rfl, "label again", 1, rfl⟩, ⟨_, rfl, "push argument 0", 1, rfl⟩,
    ⟨_, rfl, "push constant 32767", 1, rfl⟩, ⟨_, rfl, "lt", 1, rfl⟩,
    ⟨_, rfl, "if-goto again", 1, rfl⟩, ⟨_, rfl, "call Main.loop 0", 1, rfl⟩,
    ⟨_, rfl, "return", 1, rfl⟩, show isIdentifier "Sys" = true by decide,
    ⟨_, rfl, "function Sys.init 0", 1, rfl⟩, ⟨_, rfl, "call Main.loop 0", 1, rfl⟩,
    ⟨_, rfl, "pop static 3", 1, rfl⟩, by simp⟩

theorem addresses_agree_loopingCalls :
    (run ⟨true, "", false⟩ loopingCalls).counter = 268 ∧
      ∃ a p, Assembler.new.assemble (run ⟨true, "", false⟩ loopingCalls).text = (a, .ok p) ∧
        p.words.size = 268 ∧
        a.address? (returnSymbol standardUnit 0) = some 53#16 ∧
        a.address? (labelSymbol "Main.loop" "again") = some 69#16 := by
  have hcounter : (run ⟨true, "", false⟩ loopingCalls).counter = 268 := by decide +kernel
  obtain ⟨hiff, hlayout⟩ := addresses_agree ⟨true, "", false⟩ loopingCalls (by decide)
    loopingCalls_accepted (by decide +kernel) (by decide +kernel) (by decide +kernel)
  obtain ⟨a, p, hassemble⟩ := hiff.mpr (by rw [hcounter]; decide)
  obtain ⟨hsize, hback, hparts⟩ := hlayout a p hassemble
  have hlabel := (hparts (loopingCalls.take 2) _ (loopingCalls.drop 3) rfl).label "again" rfl
  have hstart : (run ⟨true, "", false⟩ (loopingCalls.take 2)).counter = 69 := by decide +kernel
  have hscope : (run ⟨true, "", false⟩ (loopingCalls.take 2)).scope = "Main.loop" := by
    decide +kernel
  have hnew : (new ⟨true, "", false⟩).counter = 53 := by decide +kernel
  rw [hstart, hscope] at hlabel
  rw [hnew] at hback
  exact ⟨hcounter, a, p, hassemble, hsize.trans hcounter, hback rfl, hlabel⟩

end Generator

end HackStack.Lowering
