import HackStack.Proofs.Assembly.Numbering
import HackStack.Proofs.Lowering.Layout

/-!
# Comments in generated code

A generator that writes comments and one that leaves them out do the same otherwise.
`Generator.silent` takes the comments out of what a generator has written and of what it will write;
every action commutes with it (`perform_silent`), so a run with comments and a run without differ in
the comments alone (`run_silent`). In the text these are the lines that start with `//`, and the
assembler passes over them.
-/

namespace HackStack.Text

/-- A text without its lines that start with `//`. -/
def dropCommentLines (t : Text) : Text :=
  joinWith [lineFeed]
    ((t.splitOn lineFeed).filter fun line => !([0x2F, 0x2F] : Text).isPrefixOf line)

end HackStack.Text

namespace HackStack.Assembly

def Line.isCode : Line → Bool
  | comment _ => false
  | _ => true

theorem Line.occupiesRom_and_isCode (l : Line) : (l.occupiesRom && l.isCode) = l.occupiesRom := by
  cases l <;> rfl

theorem countP_filter_isCode (lines : List Line) :
    (lines.filter Line.isCode).countP Line.occupiesRom = lines.countP Line.occupiesRom := by
  rw [List.countP_filter]
  exact congrArg (List.countP · lines) (funext Line.occupiesRom_and_isCode)

/-- Comments hold no statements. -/
theorem bareStatements_numbered (n m : Nat) (lines : List Line) :
    bareStatements (numbered n lines) = bareStatements (numbered m (lines.filter Line.isCode)) := by
  induction lines generalizing n m with
  | nil => rfl
  | cons l lines ih =>
      cases l with
      | comment t => exact ih (n + 1) m
      | label name => exact congrArg (_ :: ·) (ih (n + 1) (m + 1))
      | instruction i => cases i <;> exact congrArg (_ :: ·) (ih (n + 1) (m + 1))

/-- Comments do not change what code is assembled to. -/
theorem sameOutcome_filter_isCode {lines : List Line} (h : ∀ l ∈ lines, l.Readable)
    (a : Assembler) :
    SameOutcome (a.assemble (render lines)) (a.assemble (render (lines.filter Line.isCode))) := by
  have hcode : ∀ l ∈ lines.filter Line.isCode, l.Readable :=
    fun l hl => h l (List.mem_filter.mp hl).1
  exact sameOutcome_of_statements (statements_render _ h) (statements_render _ hcode)
    (bareStatements_numbered 1 1 lines) a

/-- A line of code starts with a tab or with a bracket. -/
theorem isPrefixOf_body (l : Line) : ([0x2F, 0x2F] : Text).isPrefixOf l.body = !l.isCode := by
  cases l <;> rfl

/-- Comments are the lines that start with `//`. -/
theorem dropCommentLines_render {lines : List Line} (h : ∀ l ∈ lines, l.Readable) :
    (render lines).dropCommentLines = render (lines.filter Line.isCode) := by
  have hbodies : (lines.map Line.body).filter
      (fun line => !([0x2F, 0x2F] : Text).isPrefixOf line) =
        (lines.filter Line.isCode).map Line.body := by
    rw [List.filter_map]
    refine congrArg (List.map Line.body) (List.filter_congr ?_)
    intro l _
    rw [Function.comp_apply, isPrefixOf_body, Bool.not_not]
  rw [Text.dropCommentLines, splitOn_render lines h, List.filter_append, hbodies,
    render_eq_ofLines, Text.ofLines_eq_joinWith]
  rfl

end HackStack.Assembly

namespace HackStack.Lowering

open HackStack.Assembly
open HackStack.Vm

/-- The same options, but without comments. -/
def Options.silent (o : Options) : Options := { o with uncommented := true }

namespace Generator

/-- A generator with the comments taken out of its code, which writes none any more. -/
def silent (e : Generator) : Generator :=
  { e with uncommented := true, code := (e.code.toList.filter Line.isCode).toArray }

theorem code_silent (e : Generator) :
    e.silent.code.toList = e.code.toList.filter Line.isCode :=
  List.toList_toArray

theorem emit_silent (e : Generator) (lines : List Line) :
    (e.emit lines).silent = e.silent.emit (lines.filter Line.isCode) := by
  have hcode : (e.emit lines).silent.code = (e.silent.emit (lines.filter Line.isCode)).code := by
    apply Array.toList_inj.mp
    rw [code_silent, code_emit, code_emit, code_silent, List.filter_append]
  simp only [silent, emit, countP_filter_isCode, mk.injEq, true_and]
  exact hcode

/-! ## Actions -/

theorem block_silent (e : Generator) (c : Command) : e.silent.block c = e.block c := by
  cases c <;> rfl

theorem follow_silent (e : Generator) (c : Command) :
    (e.follow c).silent = e.silent.follow c := by
  cases c with
  | ret =>
      obtain ⟨uncommented, unit, functions, closed, calls, counter, code⟩ := e
      cases closed with
      | some f => rfl
      | none => cases functions <;> rfl
  | _ => rfl

theorem after_silent (e : Generator) (a : Action) : (e.after a).silent = e.silent.after a := by
  have hrequest : ∀ c? : Option Command,
      (c?.elim e e.follow).silent = c?.elim e.silent e.silent.follow := by
    intro c?
    cases c? with
    | none => rfl
    | some c => exact follow_silent e c
  cases a with
  | unit name => rfl
  | write r => exact hrequest r.command?.toOption
  | bare r => exact hrequest r.command?.toOption

/-- The code of a command has no comments in it. -/
theorem isCode_block {e : Generator} {c : Command} {lines : List Line}
    (h : e.block c = .ok lines) : ∀ l ∈ lines, l.isCode = true := by
  have hinstructions : ∀ code : List Instruction,
      ∀ l ∈ code.map Line.instruction, l.isCode = true := by
    intro code l hl
    obtain ⟨i, -, rfl⟩ := List.mem_map.mp hl
    rfl
  cases c with
  | push s i =>
      obtain ⟨p, -, rfl⟩ := block_push h
      exact hinstructions _
  | pop s i =>
      obtain ⟨p, address, -, -, rfl⟩ := block_pop h
      exact hinstructions _
  | label name =>
      cases h
      simp [Line.isCode]
  | call name args =>
      cases h
      rw [callBlock, List.forall_mem_append]
      exact ⟨hinstructions _, by simp [Line.isCode]⟩
  | function name locals =>
      cases h
      rw [functionBlock, List.forall_mem_cons]
      exact ⟨rfl, hinstructions _⟩
  | _ =>
      cases h
      exact hinstructions _

theorem filter_blockLines (e : Generator) (a : Action) :
    (e.blockLines a).filter Line.isCode = e.silent.blockLines a := by
  cases hc : a.command? with
  | none => rw [blockLines_of_none hc, blockLines_of_none hc, List.filter_nil]
  | some c =>
      rw [blockLines_of_command hc, blockLines_of_command hc, block_silent]
      cases hblock : e.block c with
      | error f => rfl
      | ok lines => exact List.filter_eq_self.mpr (isCode_block hblock)

theorem filter_remarkLines (e : Generator) (a : Action) :
    (e.remarkLines a).filter Line.isCode = [] := by
  unfold remarkLines
  split
  · split
    · rfl
    · cases Request.text? _ <;> rfl
  · rfl

theorem remarkLines_silent (e : Generator) (a : Action) : e.silent.remarkLines a = [] := by
  cases a <;> rfl

/-- **An action without comments.** -/
theorem perform_silent (e : Generator) (a : Action) :
    (e.perform a).silent = e.silent.perform a := by
  rw [perform_eq, perform_eq, after_silent, emit_silent, lines, lines, List.filter_append,
    filter_remarkLines, filter_blockLines, remarkLines_silent]

/-! ## Runs -/

theorem new_silent (options : Options) : (new options).silent = new options.silent := by
  cases hb : options.bootstrap with
  | false =>
      have hb' : options.silent.bootstrap = false := hb
      rw [new_of_not_bootstrap hb, new_of_not_bootstrap hb']
      rfl
  | true =>
      have hb' : options.silent.bootstrap = true := hb
      have hstart : (startLines options).filter Line.isCode = startLines options.silent := by
        rw [startLines, List.filter_append]
        cases options.uncommented <;> rfl
      rw [new_of_bootstrap hb, new_of_bootstrap hb', perform_silent, emit_silent, hstart]
      rfl

/-- **A run without comments.** -/
theorem run_silent (options : Options) (actions : List Action) :
    (run options actions).silent = run options.silent actions := by
  induction actions using List.reverseRecOn with
  | nil => exact new_silent options
  | append_singleton actions a ih => rw [run_snoc, run_snoc, perform_silent, ih]

theorem text_silent (e : Generator) :
    e.silent.text = render (e.code.toList.filter Line.isCode) := by
  rw [text, code_silent]

/-- **Comments never change the program.** With comments and without, the code of a run is refused
or comes to the same words and the same address of every symbol; and it is the same text, up to the
lines that start with `//`. -/
theorem comments_change_nothing (options : Options) (actions : List Action)
    (hentry : isFunctionName options.entryName = true) (haccepted : ∀ a ∈ actions, a.Accepted) :
    SameOutcome
        (Assembler.new.assemble (run { options with uncommented := false } actions).text)
        (Assembler.new.assemble (run { options with uncommented := true } actions).text) ∧
      (run { options with uncommented := false } actions).text.dropCommentLines =
        (run { options with uncommented := true } actions).text := by
  have hsilent := run_silent { options with uncommented := false } actions
  have hread : ∀ l ∈ (run { options with uncommented := false } actions).code.toList,
      l.Readable :=
    readable_run hentry fun a ha => (haccepted a ha).valid
  change _ = run { options with uncommented := true } actions at hsilent
  rw [← hsilent, text_silent]
  exact ⟨sameOutcome_filter_isCode hread Assembler.new, dropCommentLines_render hread⟩

theorem comments_change_nothing_loopingCalls :
    (run ⟨true, "", false⟩ loopingCalls).text.head? = some 0x2F ∧
      (run ⟨true, "", true⟩ loopingCalls).text.head? = some 0x09 ∧
      ∃ a b p q,
        Assembler.new.assemble (run ⟨true, "", false⟩ loopingCalls).text = (a, .ok p) ∧
        Assembler.new.assemble (run ⟨true, "", true⟩ loopingCalls).text = (b, .ok q) ∧
        p.words = q.words ∧ p.words.size = 268 ∧
        a.address? (labelSymbol "Main.loop" "again") =
          b.address? (labelSymbol "Main.loop" "again") := by
  have hlowerable : Lowerable ⟨true, "", false⟩ loopingCalls :=
    ⟨by decide, fun a ha => (loopingCalls_accepted a ha).valid, by decide +kernel,
      by decide +kernel, by decide +kernel⟩
  have hcounter : (run ⟨true, "", false⟩ loopingCalls).counter = 268 := by decide +kernel
  obtain ⟨a, p, hassemble, himage⟩ := hlowerable.assemble (by rw [hcounter]; decide)
  obtain ⟨houtcome, -⟩ := comments_change_nothing ⟨true, "", false⟩ loopingCalls (by decide)
    loopingCalls_accepted
  have hsize : p.words.size = 268 := by
    rw [← Array.length_toList, himage.length, ← counter_run, hcounter]
  refine ⟨by decide +kernel, by decide +kernel, ?_⟩
  rw [hassemble] at houtcome
  generalize Assembler.new.assemble (run ⟨true, "", true⟩ loopingCalls).text = plain at houtcome ⊢
  cases houtcome with
  | succeed hwords haddresses =>
      exact ⟨a, _, p, _, hassemble, rfl, hwords, hsize, haddresses _⟩

end Generator

end HackStack.Lowering
