import HackStack.Proofs.Lowering.FreeOperands

/-!
# Where the commands of a program stand

A run writes the call of the start-up code, if it has one, and the command of each action.
`Generator.Writes` is that a command is written and in which state of the generator. In a program
that was accepted, the code of the command stands at the count of this state, and so do its labels
(`Writes.laid`); two commands do not overlap (`Writes.apart`).
-/

namespace HackStack.Lowering

open HackStack.Assembly
open HackStack.Machine
open HackStack.Vm

def Action.size (a : Action) : Nat :=
  match a.command? with
  | some c => c.size
  | none => 0

namespace Generator

/-- The count after several actions. -/
theorem counter_performAll {actions : List Action} (hvalid : ∀ a ∈ actions, a.Valid)
    (e : Generator) :
    (e.performAll actions).counter = actions.foldl (fun n a => n + a.size) e.counter := by
  induction actions generalizing e with
  | nil => rfl
  | cons a rest ih =>
      obtain ⟨ha, hrest⟩ := List.forall_mem_cons.mp hvalid
      have hstep : (e.perform a).counter = e.counter + a.size := by
        cases hc : a.command? with
        | none =>
            rw [perform_counter, lines_countP, blockLines_of_none hc, Action.size, hc]
            rfl
        | some c => rw [counter_perform hc (ha.isValid hc), Action.size, hc]
      rw [List.foldl_cons, ← hstep]
      exact ih hrest (e.perform a)

/-- A run writes a command when the generator is in a state. -/
inductive Writes (options : Options) (actions : List Action) : Generator → Command → Prop where
  | start (hb : options.bootstrap = true) :
      Writes options actions ((initial options).emit (startLines options))
        (.call options.entryName 0)
  | action {before after : List Action} {a : Action} {c : Command}
      (hactions : actions = before ++ a :: after) (hc : a.command? = some c) :
      Writes options actions (run options before) c

theorem counter_le_later {options : Options} {before : List Action} {a : Action} {c : Command}
    (hc : a.command? = some c) (hvalid : c.isValid = true) (later : List Action) :
    (run options before).counter + c.size ≤ (run options (before ++ a :: later)).counter := by
  rw [← counter_perform hc hvalid]
  exact counter_le_run options before later a

theorem counter_start_le {options : Options} (hentry : isFunctionName options.entryName = true)
    (hb : options.bootstrap = true) (actions : List Action) :
    ((initial options).emit (startLines options)).counter +
      (Command.call options.entryName 0).size ≤ (run options actions).counter := by
  rw [← counter_perform (Action.command?_ofCommand _) (isValid_call_entry hentry),
    ← new_of_bootstrap hb]
  exact counter_le_performAll (new options) actions

section

variable {options : Options} {actions : List Action}
  (hentry : isFunctionName options.entryName = true) (hvalid : ∀ a ∈ actions, a.Valid)
include hentry hvalid

theorem Writes.isValid {e : Generator} {c : Command} (h : Writes options actions e c) :
    c.isValid = true := by
  cases h with
  | start hb => exact isValid_call_entry hentry
  | action hactions hc => exact (hvalid _ (by simp [hactions])).isValid hc

omit hentry hvalid in
/-- The code of a run around the lines of a command. -/
theorem Writes.split {e : Generator} {c : Command} (h : Writes options actions e c) :
    ∃ a rest, a.command? = some c ∧ e.counter = e.code.toList.countP Line.occupiesRom ∧
      (run options actions).code.toList = e.code.toList ++ e.lines a ++ rest := by
  cases h with
  | start hb =>
      obtain ⟨rest, hrest⟩ := code_performAll (new options) actions
      refine ⟨_, rest, Action.command?_ofCommand _, ?_, ?_⟩
      · rw [code_emit]
        exact Nat.zero_add _
      · rw [← perform_code, ← new_of_bootstrap hb]
        exact hrest
  | action hactions hc =>
      subst hactions
      obtain ⟨rest, hrest⟩ := code_run_split options _ _ _
      exact ⟨_, rest, hc, counter_run options _, hrest⟩

omit hentry hvalid in
theorem Writes.mem_code {e : Generator} {c : Command} {block : List Line}
    (h : Writes options actions e c) (hblock : e.block c = .ok block) :
    ∀ l ∈ block, l ∈ (run options actions).code.toList := by
  obtain ⟨a, rest, hc, -, hcode⟩ := h.split
  intro l hl
  rw [hcode, lines, blockLines_of_command hc, hblock]
  exact List.mem_append_left _ (List.mem_append_right _ (List.mem_append_right _ hl))

/-- **Where a command stands.** -/
theorem Writes.laid {e : Generator} {c : Command} (h : Writes options actions e c)
    {symbols : Bindings} {words : List Word}
    (himage : Image (run options actions).code.toList symbols words) :
    ∃ lines, e.block c = .ok lines ∧ CodeAt symbols words e.counter (codeInstructions lines) ∧
      ∀ first name second, lines = first ++ .label name :: second →
        symbols[name]? = some (BitVec.ofNat 16 (e.counter + first.countP Line.occupiesRom)) := by
  obtain ⟨a, rest, hc, hcounter, hcode⟩ := h.split
  have hblock := blockLines_of_isValid (e := e) hc (h.isValid hentry hvalid)
  refine ⟨e.blockLines a, hblock, ?_, ?_⟩
  · rw [hcode] at himage
    have hlines := himage.codeAt
    rwa [lines, codeInstructions_append, codeInstructions_remarkLines, List.nil_append,
      ← hcounter] at hlines
  · intro first name second hlines
    have hsplit : (run options actions).code.toList =
        (e.code.toList ++ e.remarkLines a ++ first) ++ .label name :: (second ++ rest) := by
      rw [hcode, lines, hlines]
      simp
    rw [himage.label _ name _ hsplit, List.countP_append, List.countP_append,
      countP_remarkLines, ← hcounter, Nat.add_zero]

/-- The code of a command ends before the program does. -/
theorem Writes.fits {e : Generator} {c : Command} (h : Writes options actions e c) :
    e.counter + c.size ≤ (run options actions).counter := by
  have hcommand := h.isValid hentry hvalid
  cases h with
  | start hb => exact counter_start_le hentry hb actions
  | action hactions hc =>
      subst hactions
      exact counter_le_later hc hcommand _

/-- The words of a program that was accepted end where the program memory does. -/
theorem Writes.fits_program {a : Assembler} {p : Program}
    (haccepted : Assembler.new.assemble (run options actions).text = (a, .ok p)) {e : Generator}
    {c : Command} (h : Writes options actions e c) : e.counter + c.size ≤ programSize := by
  have hfits := (assembled_run hentry hvalid haccepted).fits
  rw [← counter_run] at hfits
  exact Nat.le_trans (h.fits hentry hvalid) hfits

/-- **Commands do not overlap.** -/
theorem Writes.apart {e e' : Generator} {c c' : Command} (h : Writes options actions e c)
    (h' : Writes options actions e' c') :
    e.counter + c.size ≤ e'.counter ∨ e'.counter + c'.size ≤ e.counter ∨ (e = e' ∧ c = c') := by
  have hcommand := h.isValid hentry hvalid
  have hcommand' := h'.isValid hentry hvalid
  cases h with
  | start hb =>
      cases h' with
      | start hb' => exact Or.inr (Or.inr ⟨rfl, rfl⟩)
      | action hactions hc => exact Or.inl (counter_start_le hentry hb _)
  | action hactions hc =>
      cases h' with
      | start hb => exact Or.inr (Or.inl (counter_start_le hentry hb _))
      | action hactions' hc' =>
          -- one of the two actions comes later, or they are the same
          rcases List.append_eq_append_iff.mp (hactions.symm.trans hactions') with
            ⟨between, rfl, hrest⟩ | ⟨between, rfl, hrest⟩
          · cases between with
            | nil =>
                cases hrest
                rw [hc] at hc'
                exact Or.inr (Or.inr ⟨by rw [List.append_nil], Option.some.inj hc'⟩)
            | cons b between =>
                cases hrest
                exact Or.inl (counter_le_later hc hcommand between)
          · cases between with
            | nil =>
                cases hrest
                rw [hc] at hc'
                exact Or.inr (Or.inr ⟨by rw [List.append_nil], Option.some.inj hc'⟩)
            | cons b between =>
                cases hrest
                exact Or.inr (Or.inl (counter_le_later hc' hcommand' between))

end

end Generator

end HackStack.Lowering
