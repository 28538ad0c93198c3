import HackStack.Proofs.Lowering.FreeOperands
import HackStack.Settings.Basic

/-!
# Names of functions

The name of a function is the symbol of its code, so nothing else may be called so. A name that can
be used for a function is never that of a static variable, but it can be a predefined symbol
(`predefined_accepted`). Any other name has the function as its only meaning, whatever the program:

- `not_duplicate_of_count`: its label is a duplicate only if the function is defined twice;
- `goesTo_of_call`: a call goes to the function, or to the address of a variable if the program has
  no such function.
-/

namespace HackStack.Assembly.Assembler

/-- A label is refused as a duplicate only if it was bound before the text or occurs in it twice. -/
theorem bindLabels_duplicate {symbols : Bindings} {next n : Nat} {ss : List (Nat × Statement)}
    {name : Text} (h : (bindLabels symbols next ss).2 = some (.duplicateLabel name n)) :
    (symbols.contains name = true ∧ 1 ≤ ((labelAddresses next ss).map Prod.fst).count name) ∨
      2 ≤ ((labelAddresses next ss).map Prod.fst).count name := by
  induction ss generalizing symbols next with
  | nil => cases h
  | cons s rest ih =>
      obtain ⟨k, s⟩ := s
      rcases bindLabels_cons symbols next k s rest with ⟨label, rfl, heq⟩ | ⟨-, haddr, heq⟩
      · have hlabels : labelAddresses next ((k, .label label) :: rest) =
            (label, next) :: labelAddresses next rest := rfl
        rw [heq] at h
        rw [hlabels, List.map_cons]
        by_cases hc : symbols.contains label = true
        · rw [if_pos hc] at h
          cases h
          exact Or.inl ⟨hc, by simp⟩
        · rw [if_neg hc] at h
          by_cases hname : label = name
          · subst hname
            rw [List.count_cons_self]
            rcases ih h with ⟨-, hcount⟩ | hcount
            · exact Or.inr (by omega)
            · exact Or.inr (by omega)
          · rw [List.count_cons_of_ne hname]
            have hih := ih h
            rwa [Std.HashMap.contains_insert, beq_eq_false_iff_ne.mpr hname, Bool.false_or] at hih
      · rw [heq] at h
        rw [haddr]
        split at h
        · cases h
        · exact ih h

end HackStack.Assembly.Assembler

namespace HackStack.Lowering

open HackStack.Assembly
open HackStack.Machine
open HackStack.Vm

/-! ## Accepted names -/

/-- A name that can be used for a function: in a command that was read from a line, or as the entry
of settings without fault. -/
inductive AcceptedName : Text → Prop where
  | function {name : Text} {locals : Int} :
      (Command.function name locals).Accepted → AcceptedName name
  | call {name : Text} {args : Int} : (Command.call name args).Accepted → AcceptedName name
  | entry {settings : Settings} : settings.fault? = none → AcceptedName settings.entry

theorem acceptedName_iff {name : Text} : AcceptedName name ↔ isFunctionName name = true := by
  constructor
  · rintro (h | h | h)
    · have hvalid := h.isValid
      rw [Command.isValid, Bool.and_eq_true] at hvalid
      exact hvalid.1
    · have hvalid := h.isValid
      rw [Command.isValid, Bool.and_eq_true] at hvalid
      exact hvalid.1
    · unfold Settings.fault? at h
      split at h
      · cases h
      · next hentry => simpa using hentry
  · intro h
    have hvalid : (Command.function name 0).isValid = true := by
      rw [Command.isValid, h]
      decide
    exact .function ⟨_, 1, parseCommand_text hvalid 1⟩

/-- The names of predefined symbols are not kept from functions. -/
theorem predefined_accepted : ∀ name ∈ predefined.map Prod.fst, AcceptedName name := by
  simp only [acceptedName_iff]
  decide +kernel

theorem address?_new_eq_none_iff {name : Text} :
    Assembler.new.address? name = none ↔ name ∉ predefined.map Prod.fst := by
  rw [Assembler.address?, ← List.contains_iff_mem, ← contains_new]
  simp

namespace Generator

/-! ## Definitions of a function -/

theorem exists_of_function_mem {options : Options} {actions : List Action} {name : Text}
    (h : .function name ∈ definitions options actions) :
    ∃ before a after locals, actions = before ++ a :: after ∧
      a.command? = some (.function name locals) := by
  induction actions using List.reverseRecOn with
  | nil =>
      unfold definitions at h
      split at h <;> simp [definesAll] at h
  | append_singleton actions a ih =>
      rw [definitions_snoc] at h
      rcases List.mem_append.mp h with h | h
      · obtain ⟨before, b, after, locals, rfl, hb⟩ := ih h
        exact ⟨before, b, after ++ [a], locals, by simp, hb⟩
      · unfold defines at h
        split at h
        · simp at h
        · simp at h
        · next f locals hc =>
            cases List.mem_singleton.mp h
            exact ⟨actions, a, [], locals, rfl, hc⟩
        · cases h

section

variable {options : Options} {actions : List Action}
  (hentry : isFunctionName options.entryName = true) (hvalid : ∀ a ∈ actions, a.Valid)
  {name : Text} (hname : isFunctionName name = true)
include hentry hvalid hname

/-- The label of a function occurs as often as the function is defined. -/
theorem count_codeLabels :
    (codeLabels (run options actions).code.toList).count name =
      (definitions options actions).count (.function name) := by
  rw [codeLabels_run, List.count, List.countP_map, List.count]
  refine List.countP_congr fun s hs => ?_
  have hadmissible : s.Admissible :=
    mentioned_admissible options actions hentry (fun a ha => (hvalid a ha).isNamed) s
      (definitions_subset_mentioned options actions hs)
  simp only [Function.comp, beq_iff_eq]
  exact ⟨fun htext => CodeSymbol.text_injective hadmissible hname htext, fun heq => heq ▸ rfl⟩

/-- A function that is defined once, with a name that is not predefined, is no duplicate. -/
theorem not_duplicate_of_count (hfree : name ∉ predefined.map Prod.fst)
    (hcount : (definitions options actions).count (.function name) ≤ 1) (n : Nat) :
    (Assembler.new.assemble (run options actions).text).2 ≠ .error (.duplicateLabel name n) := by
  have hread := readable_run hentry hvalid
  have hstatements := statements_render _ hread
  intro herror
  cases hpass : (Assembler.bindLabels Assembler.new.symbols 0
      (numbered 1 (run options actions).code.toList)).2 with
  | none =>
      -- behind the first pass nothing can go wrong
      obtain ⟨hnodup, hnew, hfits⟩ := (bindLabels_numbered _).mp hpass
      obtain ⟨a, p, hassemble, -⟩ := assemble_render hread hnodup hnew
        (loadsBelow_run hentry hvalid hfits) hfits
      rw [show Assembler.new.assemble (run options actions).text = (a, .ok p) from hassemble]
        at herror
      cases herror
  | some e =>
      rw [show (Assembler.new.assemble (run options actions).text).2 = .error e from
        Assembler.assemble_of_some hstatements hpass] at herror
      cases herror
      have hduplicate := Assembler.bindLabels_duplicate hpass
      rw [labelAddresses_numbered, map_fst_lineLabels, count_codeLabels hentry hvalid hname,
        contains_new, List.contains_iff_mem] at hduplicate
      rcases hduplicate with ⟨hpredefined, -⟩ | htwice
      · exact hfree hpredefined
      · omega

end

/-! ## Where calls go -/

/-- The code before an address ends by jumping to `w`. -/
def JumpsTo (words : List Word) (stop : Nat) (w : Word) : Prop :=
  words[stop - 2]? = some w ∧ words[stop - 1]? = Instruction.jump.word? ∅

/-- Where calls of a function go: to the code of the function, or, if there is no such function, to
the address of a variable. -/
def GoesTo (options : Options) (actions : List Action) (name : Text) (w : Word) : Prop :=
  (∃ before a after locals, actions = before ++ a :: after ∧
    a.command? = some (.function name locals) ∧
      w = BitVec.ofNat 16 (run options before).counter) ∨
  (.function name ∉ definitions options actions ∧ 16 ≤ w.toNat)

/-- The code of a call ends by loading the function's address and jumping there. -/
theorem jumpsTo_call {e : Generator} {a : Action} {name : Text} {args : Int}
    (ha : a.command? = some (.call name args)) {before after : List Line} {symbols : Bindings}
    {words : List Word} (himage : Image (before ++ e.lines a ++ after) symbols words) :
    .symbol name ∈ codeInstructions (before ++ e.lines a ++ after) ∧
      ∃ w, symbols[name]? = some w ∧
        JumpsTo words ((before ++ e.lines a).countP Line.occupiesRom) w := by
  obtain ⟨code, hcode⟩ : ∃ code : List Instruction,
      codeInstructions (e.lines a) = code ++ [.symbol name, .jump] := by
    rw [lines_of_call ha, codeInstructions_append, codeInstructions_append,
      codeInstructions_remarkLines, codeInstructions_instructions]
    exact ⟨_, List.append_nil _⟩
  have hat := himage.codeAt
  rw [hcode, CodeAt.append_iff] at hat
  obtain ⟨w, hw, hload⟩ := hat.2 0 _ rfl
  obtain ⟨j, hj, hjump⟩ := hat.2 1 _ rfl
  have hstop : (before ++ e.lines a).countP Line.occupiesRom =
      before.countP Line.occupiesRom + code.length + 2 := by
    rw [List.countP_append, ← length_codeInstructions (e.lines a), hcode, List.length_append]
    rfl
  refine ⟨?_, w, hw, ?_, ?_⟩
  · rw [codeInstructions_append, codeInstructions_append, hcode]
    simp
  · rw [hstop]
    exact hload
  · rw [hstop]
    exact hjump.trans hj.symm

section

variable {options : Options} {actions : List Action}
  (hentry : isFunctionName options.entryName = true) (hvalid : ∀ a ∈ actions, a.Valid)
  {name : Text} (hname : isFunctionName name = true) (hfree : name ∉ predefined.map Prod.fst)
  {symbols : Bindings} {words : List Word}
  (h : Assembled (run options actions).code.toList symbols words)
include hentry hvalid hname hfree h

/-- A loaded name that is not predefined leads to its function, or else to a variable. -/
theorem goesTo_of_loaded
    (hload : .symbol name ∈ codeInstructions (run options actions).code.toList) {w : Word}
    (hw : symbols[name]? = some w) : GoesTo options actions name w := by
  by_cases hdefined : .function name ∈ definitions options actions
  · obtain ⟨before, a, after, locals, rfl, ha⟩ := exists_of_function_mem hdefined
    refine Or.inl ⟨before, a, after, locals, rfl, ha, ?_⟩
    have hlaid := laidOut_action h.image (hvalid a (by simp))
    exact Option.some.inj (hw.symm.trans (hlaid.function name locals ha))
  · refine Or.inr ⟨hdefined, ?_⟩
    have hlabel : name ∉ codeLabels (run options actions).code.toList := by
      rw [← List.count_eq_zero, count_codeLabels hentry hvalid hname, List.count_eq_zero]
      exact hdefined
    exact ((h.free_interval w).mp ⟨name, mem_freeOperands.mpr ⟨hload, hlabel, hfree⟩, hw⟩).1

theorem goesTo_of_call {e : Generator} {a : Action} {args : Int}
    (ha : a.command? = some (.call name args)) {before after : List Line}
    (hcode : (run options actions).code.toList = before ++ e.lines a ++ after) :
    ∃ w, JumpsTo words ((before ++ e.lines a).countP Line.occupiesRom) w ∧
      GoesTo options actions name w := by
  have himage := h.image
  rw [hcode] at himage
  obtain ⟨hload, w, hw, hjumps⟩ := jumpsTo_call ha himage
  rw [← hcode] at hload
  exact ⟨w, hjumps, goesTo_of_loaded hentry hvalid hname hfree h hload hw⟩

end

/-- **Names of functions are free.** A name that can be used for a function is never that of a
static variable, and a new assembler knows it only if it is predefined. Otherwise, in every program,
its label is no duplicate if the function is defined once, and every call of it, that of the
start-up code included, jumps to the function's code, or to the address of a variable if there is no
such function; never to that of a register. -/
theorem accepted_name_free {name : Text} (h : AcceptedName name) :
    (∀ (unit : Text) (index : Nat), cellSymbol unit index ≠ name) ∧
    (Assembler.new.address? name = none ↔ name ∉ predefined.map Prod.fst) ∧
    (name ∉ predefined.map Prod.fst → ∀ (options : Options) (actions : List Action),
      AcceptedName options.entryName → (∀ a ∈ actions, a.Accepted) →
        ((definitions options actions).count (.function name) ≤ 1 →
          ∀ n, (Assembler.new.assemble (run options actions).text).2 ≠
            .error (.duplicateLabel name n)) ∧
        ∀ a p, Assembler.new.assemble (run options actions).text = (a, .ok p) →
          (∀ before act after args, actions = before ++ act :: after →
            act.command? = some (.call name args) →
              ∃ w, JumpsTo p.words.toList (run options (before ++ [act])).counter w ∧
                GoesTo options actions name w) ∧
          (options.bootstrap = true → options.entryName = name →
            ∃ w, JumpsTo p.words.toList (new options).counter w ∧
              GoesTo options actions name w)) := by
  have hname := acceptedName_iff.mp h
  refine ⟨fun _ _ => CodeSymbol.cell_text_ne_function hname, address?_new_eq_none_iff, ?_⟩
  intro hfree options actions hentry haccepted
  have hvalid : ∀ a ∈ actions, a.Valid := fun a ha => (haccepted a ha).valid
  rw [acceptedName_iff] at hentry
  refine ⟨not_duplicate_of_count hentry hvalid hname hfree, ?_⟩
  intro a p hassemble
  have hassembled := assembled_run hentry hvalid hassemble
  constructor
  · rintro before act after args rfl hact
    obtain ⟨rest, hcode⟩ := code_run_split options before after act
    rw [counter_run, run_snoc, perform_code]
    exact goesTo_of_call hentry hvalid hname hfree hassembled hact hcode
  · rintro hbootstrap rfl
    obtain ⟨rest, hcode⟩ := code_performAll (new options) actions
    have hcounter : (new options).counter = (new options).code.toList.countP Line.occupiesRom :=
      counter_run options []
    have hnew : (new options).code.toList =
        ((initial options).emit (startLines options)).code.toList ++
          ((initial options).emit (startLines options)).lines
            (.ofCommand (.call options.entryName 0)) := by
      rw [new_of_bootstrap hbootstrap, perform_code]
    rw [hnew] at hcode hcounter
    rw [hcounter]
    exact goesTo_of_call hentry hvalid hname hfree hassembled (Action.command?_ofCommand _) hcode

theorem accepted_name_free_loopingCalls :
    AcceptedName "Main.loop" ∧ ("Main.loop" : Text) ∉ predefined.map Prod.fst ∧
      ∃ a p, Assembler.new.assemble (run ⟨true, "", false⟩ loopingCalls).text = (a, .ok p) ∧
        ∃ w, JumpsTo p.words.toList (run ⟨true, "", false⟩ (loopingCalls.take 12)).counter w ∧
          GoesTo ⟨true, "", false⟩ loopingCalls "Main.loop" w := by
  have hname : AcceptedName "Main.loop" := acceptedName_iff.mpr (by decide)
  have hfree : ("Main.loop" : Text) ∉ predefined.map Prod.fst := by decide
  obtain ⟨-, -, hprograms⟩ := accepted_name_free hname
  obtain ⟨-, hcalls⟩ := hprograms hfree ⟨true, "", false⟩ loopingCalls
    (acceptedName_iff.mpr (by decide)) loopingCalls_accepted
  have hlowerable : Lowerable ⟨true, "", false⟩ loopingCalls :=
    ⟨by decide, fun a ha => (loopingCalls_accepted a ha).valid, by decide +kernel,
      by decide +kernel, by decide +kernel⟩
  obtain ⟨a, p, hassemble, -⟩ := hlowerable.assemble (by decide +kernel)
  exact ⟨hname, hfree, a, p, hassemble,
    (hcalls a p hassemble).1 (loopingCalls.take 11) _ (loopingCalls.drop 12) 0 rfl rfl⟩

/-- A function can be named like the stack pointer. Its definition is refused as a duplicate, and a
call of it jumps to the address 0. -/
theorem predefined_name_not_free :
    AcceptedName "SP" ∧ Assembler.new.address? "SP" = some 0 ∧
    (Assembler.new.assemble (run ⟨false, "", true⟩ [.write (.function "SP" 0)]).text).2 =
      .error (.duplicateLabel "SP" 1) ∧
    ∃ a p, Assembler.new.assemble (run ⟨false, "", true⟩ [.write (.call "SP" 0)]).text =
      (a, .ok p) ∧ JumpsTo p.words.toList p.words.size 0 := by
  have hvalid : ∀ c : Action, c = .write (.function "SP" 0) ∨ c = .write (.call "SP" 0) →
      c.Valid := by
    rintro c (rfl | rfl)
    · exact ⟨_, rfl, by decide⟩
    · exact ⟨_, rfl, by decide⟩
  refine ⟨acceptedName_iff.mpr (by decide), @lookup_new ("SP", 0) (by decide), ?_, ?_⟩
  · refine Assembler.assemble_of_some (statements_render _ (readable_run (by decide) ?_)) ?_
    · exact fun a ha => hvalid a (Or.inl (List.mem_singleton.mp ha))
    · have hcode : numbered 1 (run ⟨false, "", true⟩ [.write (.function "SP" 0)]).code.toList =
          [(1, .label "SP")] := by decide +kernel
      rw [hcode, Assembler.bindLabels, if_pos (by rw [contains_new]; decide)]
  · have hlowerable : Lowerable ⟨false, "", true⟩ [.write (.call "SP" 0)] :=
      ⟨by decide, fun a ha => hvalid a (Or.inr (List.mem_singleton.mp ha)), by decide +kernel,
        by decide +kernel, by decide +kernel⟩
    obtain ⟨a, p, hassemble, himage⟩ := hlowerable.assemble (by decide +kernel)
    have hcode : (run ⟨false, "", true⟩ [.write (.call "SP" 0)]).code.toList =
        [] ++ (new ⟨false, "", true⟩).lines (.write (.call "SP" 0)) ++ [] := by decide +kernel
    rw [hcode] at himage
    obtain ⟨-, w, hw, hjumps⟩ := jumpsTo_call rfl himage
    have hzero : w = 0 := Option.some.inj (hw.symm.trans (himage.predefined ("SP", 0) (by decide)))
    rw [hzero, ← List.append_nil (_ ++ _), ← himage.length, Array.length_toList] at hjumps
    exact ⟨a, p, hassemble, hjumps⟩

end Generator

end HackStack.Lowering
