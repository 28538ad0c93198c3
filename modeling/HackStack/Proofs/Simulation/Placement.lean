import HackStack.Proofs.Lowering.Effect
import HackStack.Proofs.Simulation.Statics

/-!
# Where a program lies

A `Target` is a program with the result of its assembly. `Target.address` gives each place of the
program an address in program memory: that of its function, and the sizes of what stands before it.
`Target.Loaded` says that the code of every command is installed there, with all of its symbols
bound to the right addresses; `WellFormed.loaded` proves this of every well-formed program. It is all
that the execution of the program depends on.
-/

namespace HackStack.Lowering

open HackStack.Assembly
open HackStack.Machine
open HackStack.Vm

/-- A program, the static variables that it uses, and what it was assembled to. -/
structure Target where
  program : List Routine
  statics : List (Text × Nat)
  symbols : Bindings
  rom : Array Word

namespace Target

variable (t : Target)

/-- The program address of a place in the program; `none` is where the start-up code goes on. -/
def address : Option Point → Nat
  | none => addressOf t.symbols (returnSymbol standardUnit 0)
  | some p =>
    match t.program[p.routine]? with
    | none => 0
    | some r =>
      addressOf t.symbols r.name + (functionCode r.locals).length +
        ((r.body.take p.index).map Command.size).sum

/-- The code of a command of a function stands at a program address. -/
def Holds (r : Routine) (start : Nat) : Command → Prop
  | .arithmetic op => Installed t.symbols t.rom start (arithmeticBlock start op)
  | .push s i => ∃ p, place r.unit s i = .ok p ∧ Installed t.symbols t.rom start (pushBlock p)
  | .pop s i => ∃ p address, place r.unit s i = .ok p ∧ p.address = .ok address ∧
      Installed t.symbols t.rom start (popCode address)
  | .label name => t.symbols[labelSymbol r.name name]? = some (BitVec.ofNat 16 start)
  | .goto name => Installed t.symbols t.rom start (gotoBlock (labelSymbol r.name name))
  | .ifGoto name => Installed t.symbols t.rom start (ifGotoBlock (labelSymbol r.name name))
  | .call name args => ∃ back, t.symbols[back]? = some (BitVec.ofNat 16 (start + 49)) ∧
      Installed t.symbols t.rom start (callCode back name args)
  | .function _ _ => True
  | .ret => Installed t.symbols t.rom start returnBlock

/-- A program that is in place. -/
structure Loaded (entry : Text) : Prop where
  registers : BindsRegisters t.symbols
  start : Installed t.symbols t.rom 0
    (startBlock ++ callCode (returnSymbol standardUnit 0) entry 0)
  back : t.symbols[returnSymbol standardUnit 0]? = some (BitVec.ofNat 16 53)
  function : ∀ r ∈ t.program,
    t.symbols[r.name]? = some (BitVec.ofNat 16 (addressOf t.symbols r.name)) ∧
      Installed t.symbols t.rom (addressOf t.symbols r.name) (functionCode r.locals)
  body : ∀ n r, t.program[n]? = some r → ∀ i c, r.body[i]? = some c →
    t.Holds r (t.address (some ⟨n, i⟩)) c
  indices : ∀ r ∈ t.program, ∀ c ∈ r.body, c.isValid = true
  statics : ∀ p ∈ t.statics,
    t.symbols[cellSymbol p.1 p.2]? = some (BitVec.ofNat 16 (cellAddress t.symbols p)) ∧
      16 ≤ cellAddress t.symbols p ∧ cellAddress t.symbols p < 256
  injective : ∀ p ∈ t.statics, ∀ q ∈ t.statics,
    cellAddress t.symbols p = cellAddress t.symbols q → p = q
  used : ∀ r ∈ t.program, ∀ c ∈ r.body, ∀ n, c.static? = some n → (r.unit, n) ∈ t.statics

/-- The next place is behind the code of the command. -/
theorem address_next {p : Point} {r : Routine} {c : Command}
    (hr : t.program[p.routine]? = some r) (hc : r.body[p.index]? = some c) :
    t.address (some p.next) = t.address (some p) + c.size := by
  have htake : r.body.take (p.index + 1) = r.body.take p.index ++ [c] := by
    rw [List.take_add_one, hc]
    rfl
  simp only [address, Point.next, hr, htake, List.map_append, List.sum_append, List.map_cons,
    List.map_nil, List.sum_cons, List.sum_nil]
  omega

theorem address_first {n : Nat} {r : Routine} (hr : t.program[n]? = some r) :
    t.address (some ⟨n, 0⟩) = addressOf t.symbols r.name + (functionCode r.locals).length := by
  simp [address, hr]

end Target

/-- The instructions of the start-up code. -/
theorem Generator.codeInstructions_new {options : Options} (hb : options.bootstrap = true) :
    codeInstructions (Generator.new options).code.toList =
        startBlock ++ callCode (returnSymbol standardUnit 0) options.entryName 0 ∧
      (Generator.new options).counter = 53 := by
  have hcode : codeInstructions (Generator.new options).code.toList =
      startBlock ++ callCode (returnSymbol standardUnit 0) options.entryName 0 := by
    have hstart : codeInstructions (Generator.startLines options) = startBlock := by
      rw [Generator.startLines, codeInstructions_append, codeInstructions_instructions]
      cases options.uncommented <;> rfl
    rw [Generator.new_of_bootstrap hb, Generator.perform_code, Generator.code_emit,
      codeInstructions_append, Generator.lines_of_call (Action.command?_ofCommand _)]
    simp only [codeInstructions_append, codeInstructions_instructions,
      Generator.codeInstructions_remarkLines, hstart]
    rfl
  refine ⟨hcode, ?_⟩
  have hcounter : (Generator.new options).counter = _ := Generator.counter_run options []
  rw [hcounter, ← length_codeInstructions]
  show (codeInstructions (Generator.new options).code.toList).length = 53
  rw [hcode]
  rfl

namespace WellFormed

variable {options : Options} {units : List (Text × List Command)} (h : WellFormed options units)
  {symbols : Bindings} {rom : Array Word}
  (himage : Image (Generator.run options (programActions units)).code.toList symbols rom.toList)
include h

theorem counter_lt : (Generator.run options (programActions units)).counter < programSize := by
  rw [← lower_eq_run]
  exact h.fits

include himage

theorem loadsSmall :
    LoadsSmall symbols
      (codeInstructions (Generator.run options (programActions units)).code.toList) := by
  have hlower := h.lowerable
  have hfit := h.counter_lt
  have hlegible := Generator.legible_run hlower.entry (Nat.le_refl programSize) _ h.valid
    (Nat.le_of_lt hfit)
  rw [Generator.counter_run] at hfit
  refine himage.loadsSmall hlower.readable hlower.labels_nodup hlower.labels_free
    (fun l hl => (hlegible l hl).2) hfit ?_
  have hvariables := h.length_variables
  have hsize : programSize = 0x8000 := rfl
  omega

/-- The code of each command is installed where the counter was. -/
theorem installed_action {before after : List Action} {a : Action} {c : Command}
    {lines : List Line} (hactions : programActions units = before ++ a :: after)
    (ha : a.command? = some c) (hblock : (Generator.run options before).block c = .ok lines) :
    Installed symbols rom (Generator.run options before).counter (codeInstructions lines) := by
  have hsmall := h.loadsSmall himage
  have hvalid := h.valid a (by rw [hactions]; simp)
  have hfit := h.counter_lt
  rw [hactions] at himage hsmall hfit
  have hend := Generator.counter_le_run options before after a
  obtain ⟨lines', hblock', hcode, hcounter⟩ :=
    (Generator.laidOut_action himage hvalid).code c ha
  cases hblock.symm.trans hblock'
  -- the loads of one block are among those of the whole code
  refine ⟨hcode, ?_, by omega⟩
  intro o w ho
  obtain ⟨rest, hrest⟩ := Generator.code_run_split options before after a
  have hlines : (Generator.run options before).lines a =
      (Generator.run options before).remarkLines a ++ lines := by
    rw [Generator.lines, Generator.blockLines_of_command ha, hblock]
    rfl
  apply hsmall o w
  rw [hrest, hlines, codeInstructions_append, codeInstructions_append, codeInstructions_append]
  exact List.mem_append_left _ (List.mem_append_right _ (List.mem_append_right _ ho))

/-- A command of a function is in place at the count before it. -/
theorem holds_action {before after : List Action} {c : Command} {r : Routine}
    (hactions : programActions units = before ++ .ofCommand c :: after) (hc : c.isValid = true)
    (hunit : (Generator.run options before).unit = r.unit)
    (hscope : (Generator.run options before).scope = r.name) :
    (Target.mk (routines units) (staticPairs units) symbols rom).Holds r
      (Generator.run options before).counter c := by
  have hcommand := Action.command?_ofCommand c
  have hinstalled := fun lines =>
    @installed_action options units h symbols rom himage before after _ c lines hactions hcommand
  rw [hactions] at himage
  have hlaid := Generator.laidOut_action himage (Action.valid_ofCommand hc)
  obtain ⟨lines, hblock⟩ := Generator.block_of_isValid (Generator.run options before) hc
  have hcode := hinstalled lines hblock
  cases c with
  | arithmetic op =>
      cases hblock
      rwa [codeInstructions_instructions] at hcode
  | push s i =>
      obtain ⟨p, hp, rfl⟩ := Generator.block_push hblock
      rw [codeInstructions_instructions] at hcode
      rw [hunit] at hp
      exact ⟨p, hp, hcode⟩
  | pop s i =>
      obtain ⟨p, address, hp, haddress, rfl⟩ := Generator.block_pop hblock
      rw [codeInstructions_instructions] at hcode
      rw [hunit] at hp
      exact ⟨p, address, hp, haddress, hcode⟩
  | label name =>
      have hlabel := hlaid.label name hcommand
      rwa [hscope] at hlabel
  | goto name =>
      cases hblock
      rwa [codeInstructions_instructions, hscope] at hcode
  | ifGoto name =>
      cases hblock
      rwa [codeInstructions_instructions, hscope] at hcode
  | call name args =>
      have hback := hlaid.back name args hcommand
      rw [Generator.counter_perform hcommand hc] at hback
      cases hblock
      rw [callBlock, codeInstructions_append, codeInstructions_instructions] at hcode
      exact ⟨_, hback, (Installed.append_iff.mp hcode).1⟩
  | function name locals => trivial
  | ret =>
      cases hblock
      rwa [codeInstructions_instructions] at hcode

/-- **A function in program memory**: its code starts at the address that its name is bound to, and
its commands follow one another. -/
theorem routine_placed {r : Routine} (hr : r ∈ routines units) :
    symbols[r.name]? = some (BitVec.ofNat 16 (addressOf symbols r.name)) ∧
      Installed symbols rom (addressOf symbols r.name) (functionCode r.locals) ∧
      ∀ i c, r.body[i]? = some c →
        (Target.mk (routines units) (staticPairs units) symbols rom).Holds r
          (addressOf symbols r.name + (functionCode r.locals).length +
            ((r.body.take i).map Command.size).sum) c := by
  obtain ⟨before, after, hactions, hbody⟩ := h.body_split hr
  have hfunction := Action.command?_ofCommand (.function r.name r.locals)
  have hcode := h.installed_action himage hactions hfunction rfl
  have hinstalled : Installed symbols rom (Generator.run options before).counter
      (functionCode r.locals) := by
    have hsame : codeInstructions (functionBlock r.name r.locals) = functionCode r.locals :=
      codeInstructions_instructions _
    rwa [hsame] at hcode
  have hbound :
      symbols[r.name]? = some (BitVec.ofNat 16 (Generator.run options before).counter) := by
    have hvalid := h.valid (.ofCommand (.function r.name r.locals)) (by rw [hactions]; simp)
    have himage' := himage
    rw [hactions] at himage'
    exact (Generator.laidOut_action himage' hvalid).function r.name r.locals hfunction
  -- a count that fits is not changed by being stored in a word
  have haddress : addressOf symbols r.name = (Generator.run options before).counter := by
    have hsize : programSize = 0x8000 := rfl
    have hfits := hinstalled.fits
    exact addressOf_of_lookup (by omega) hbound
  rw [haddress, length_functionCode r.name]
  refine ⟨hbound, hinstalled, ?_⟩
  intro i c hc
  obtain ⟨before', after', hactions', hunit, hscope, hcounter⟩ := hbody i c hc
  have hvalid := ((h.routine_commands hr).1 c (List.mem_of_getElem? hc)).1
  rw [← hcounter]
  exact h.holds_action himage hactions' hvalid hunit hscope

/-- The start-up code is installed at address 0. -/
theorem start_placed (hb : options.bootstrap = true) :
    Installed symbols rom 0
        (startBlock ++ callCode (returnSymbol standardUnit 0) options.entryName 0) ∧
      symbols[returnSymbol standardUnit 0]? = some (BitVec.ofNat 16 53) := by
  obtain ⟨hcode, hcounter⟩ := @Generator.codeInstructions_new options hb
  obtain ⟨rest, hrest⟩ := Generator.code_performAll (Generator.new options) (programActions units)
  have hall : codeInstructions (Generator.run options (programActions units)).code.toList =
      (startBlock ++ callCode (returnSymbol standardUnit 0) options.entryName 0) ++
        codeInstructions rest := by
    rw [← hcode, ← codeInstructions_append, ← hrest]
    rfl
  constructor
  · have hwords := himage.codeAt_zero
    have hsmall := h.loadsSmall himage
    have hfit := h.counter_lt
    rw [Generator.counter_run, ← length_codeInstructions] at hfit
    rw [hall, List.length_append] at hfit
    rw [hall] at hwords hsmall
    exact ⟨(CodeAt.append_iff.mp hwords).1, fun o w ho => hsmall o w (List.mem_append_left _ ho),
      by omega⟩
  · obtain ⟨first, hfirst, hcount⟩ := Generator.code_new_of_bootstrap hb
    rw [hfirst, List.append_assoc] at hrest
    rw [← hcounter, ← hcount]
    exact himage.label first _ rest hrest

theorem loaded_of_image (hb : options.bootstrap = true) :
    (Target.mk (routines units) (staticPairs units) symbols rom).Loaded options.entryName := by
  obtain ⟨hstart, hback⟩ := h.start_placed himage hb
  refine ⟨himage.predefined, hstart, hback, ?_, ?_, ?_, ?_, ?_, ?_⟩
  · intro r hr
    obtain ⟨hname, hfunction, -⟩ := h.routine_placed himage hr
    exact ⟨hname, hfunction⟩
  · intro n r hr i c hc
    obtain ⟨-, -, hbody⟩ := h.routine_placed himage (List.mem_of_getElem? hr)
    have hholds := hbody i c hc
    simp only [Target.address, hr]
    exact hholds
  · intro r hr c hc
    exact ((h.routine_commands hr).1 c hc).1
  · intro p hp
    exact h.static_address himage hp
  · intro p hp q hq heq
    exact h.static_injective himage hp hq heq
  · intro r hr c hc n hn
    obtain ⟨u, hu, hunit, hcu⟩ := mem_unit_of_mem_body hr hc
    exact mem_staticPairs.mpr ⟨u, hu, c, hcu, hn, hunit⟩

omit himage in
/-- **A well-formed program can be assembled, and is then in place.** -/
theorem loaded (hb : options.bootstrap = true) :
    ∃ a p, Assembler.new.assemble (lower options units).text = (a, .ok p) ∧
      (Target.mk (routines units) (staticPairs units) a.symbols p.words).Loaded
        options.entryName := by
  obtain ⟨a, p, hassemble, himage⟩ := h.lowerable.assemble (Nat.le_of_lt h.counter_lt)
  rw [← lower_eq_run] at hassemble
  exact ⟨a, p, hassemble, h.loaded_of_image himage hb⟩

end WellFormed

end HackStack.Lowering
