import Mathlib.Algebra.Ring.Int.Defs
import HackStack.Proofs.Assembly.Translation
import HackStack.Proofs.Build.Outcome
import HackStack.Proofs.Simulation.Program
import HackStack.Proofs.Vm.RoundTrip

/-!
# Reports of builds

A build that succeeds reports on each of its units. The code of a command depends on where it
stands, in its text but not in its length, so what a report says follows from the source of the unit
alone (`Report.IsOn`), and the reports together account for every instruction of the output but
those of the start-up code.
-/

namespace HackStack.Lowering.Generator

open HackStack.Assembly
open HackStack.Vm

/-- The start-up code sets up the stack in 4 instructions and calls the entry in 49. -/
theorem counter_new {options : Options} (hentry : isFunctionName options.entryName = true) :
    (new options).counter = if options.bootstrap then 53 else 0 := by
  cases hb : options.bootstrap with
  | false =>
      rw [new_of_not_bootstrap hb]
      rfl
  | true =>
      have hstart : ((initial options).emit (startLines options)).counter = 4 := by
        show 0 + (startLines options).countP Line.occupiesRom = 4
        rw [startLines]
        cases options.uncommented <;> rfl
      rw [new_of_bootstrap hb, counter_perform (Action.command?_ofCommand _)
        (isValid_call_entry hentry), hstart]
      rfl

/-- The counter after a run is the number of lines that an assembler takes for instructions. -/
theorem length_instructionLines_run {options : Options} {actions : List Action}
    (hentry : isFunctionName options.entryName = true) (hvalid : ∀ a ∈ actions, a.Valid) :
    (instructionLines (run options actions).text).length = (run options actions).counter := by
  have hread := statements_render _ (readable_run hentry hvalid)
  rw [instructionLines, text, ← statements_eq_ok hread, length_instructionsOf_numbered,
    counter_run]

end HackStack.Lowering.Generator

namespace HackStack.Build

open HackStack.Assembly
open HackStack.Lowering
open HackStack.Vm

/-! ## The report on a unit -/

/-- The commands that are parsed from the source of a unit. -/
def Unit.HasCommands (s : Surroundings) (u : Unit) (cs : List Command) : Prop :=
  ∃ src, s.source u.path = .ok src ∧ parse src = .ok cs

/-- What a report has to say about a unit. It is settled by the unit and its commands. -/
structure Report.IsOn (s : Surroundings) (u : Unit) (r : Report) : Prop where
  name : r.name = u.name
  path : r.path = u.path
  counts : ∃ cs, u.HasCommands s cs ∧ r.commands = cs.length ∧
    r.instructions = ((cs.map Command.size).sum : Nat)

def ParsedUnit.report (p : ParsedUnit) : Report :=
  ⟨p.unit.name, p.unit.path, p.commands.length, ((p.commands.map Command.size).sum : Nat)⟩

/-- The commands of a unit; there are none if it cannot be read or parsed. -/
def Surroundings.commandsOf (s : Surroundings) (u : Unit) : List Command :=
  (parse ((s.source u.path).toOption.getD [])).toOption.getD []

def Surroundings.reportOn (s : Surroundings) (u : Unit) : Report :=
  ParsedUnit.report ⟨u, s.commandsOf u⟩

theorem Unit.HasCommands.commandsOf_eq {s : Surroundings} {u : Unit} {cs : List Command}
    (h : u.HasCommands s cs) : s.commandsOf u = cs := by
  obtain ⟨src, hsource, hparse⟩ := h
  simp only [Surroundings.commandsOf, hsource, Except.toOption, Option.getD_some, hparse]

theorem ParsedUnit.IsOf.hasCommands {s : Surroundings} {u : Unit} {p : ParsedUnit}
    (h : p.IsOf s u) : u.HasCommands s p.commands := h.2

theorem ParsedUnit.IsOf.isValid {s : Surroundings} {u : Unit} {p : ParsedUnit} (h : p.IsOf s u) :
    ∀ c ∈ p.commands, c.isValid = true := by
  obtain ⟨src, -, hparse⟩ := h.hasCommands
  exact fun c hc => (fits_of_parse hparse c hc).1

theorem ParsedUnit.IsOf.isOn {s : Surroundings} {u : Unit} {p : ParsedUnit} (h : p.IsOf s u) :
    p.report.IsOn s u := by
  obtain ⟨rfl, hcommands⟩ := h
  exact ⟨rfl, rfl, p.commands, hcommands, rfl, rfl⟩

/-- Units with the same commands have as many instructions, wherever they are built. -/
theorem Report.IsOn.instructions_eq {s s' : Surroundings} {u u' : Unit} {r r' : Report}
    {cs : List Command} (h : r.IsOn s u) (h' : r'.IsOn s' u') (hcs : u.HasCommands s cs)
    (hcs' : u'.HasCommands s' cs) : r.instructions = r'.instructions := by
  obtain ⟨own, hown, -, hsize⟩ := h.counts
  obtain ⟨own', hown', -, hsize'⟩ := h'.counts
  rw [hsize, hsize', ← hown.commandsOf_eq, hcs.commandsOf_eq, ← hown'.commandsOf_eq,
    hcs'.commandsOf_eq]

theorem Report.IsOn.eq_reportOn {s : Surroundings} {u : Unit} {r : Report} (h : r.IsOn s u) :
    r = s.reportOn u := by
  obtain ⟨cs, hcs, hlength, hsize⟩ := h.counts
  cases r
  rw [Surroundings.reportOn, ParsedUnit.report, hcs.commandsOf_eq, Report.mk.injEq]
  exact ⟨h.name, h.path, hlength, hsize⟩

theorem zip_reports {s : Surroundings} {units : List Unit} {reports : List Report}
    (h : List.Forall₂ (Report.IsOn s) units reports) :
    units.zip reports = units.map fun u => (u, s.reportOn u) := by
  induction h with
  | nil => rfl
  | cons hr _ ih => rw [List.zip_cons_cons, ih, List.map_cons, ← hr.eq_reportOn]

/-- In another order, the units have the same reports. -/
theorem perm_zip_reports {s s' : Surroundings} {units units' : List Unit}
    {reports reports' : List Report} (h : List.Forall₂ (Report.IsOn s) units reports)
    (h' : List.Forall₂ (Report.IsOn s') units' reports')
    (hsource : ∀ u ∈ units, s'.source u.path = s.source u.path) (hperm : units'.Perm units) :
    (units'.zip reports').Perm (units.zip reports) := by
  have hsame : ∀ u ∈ units', (u, s'.reportOn u) = (u, s.reportOn u) := by
    intro u hu
    rw [Surroundings.reportOn, Surroundings.commandsOf, hsource u (hperm.subset hu)]
    rfl
  rw [zip_reports h, zip_reports h', List.map_congr_left hsame]
  exact hperm.map _

/-! ## Writing units -/

theorem counter_writeUnit (w : Work) {p : ParsedUnit}
    (hvalid : ∀ c ∈ p.commands, c.isValid = true) :
    (writeUnit w p).generator.counter =
      w.generator.counter + (p.commands.map Command.size).sum := by
  rw [generator_writeUnit, ← performAll_unitActions (u := (p.unit.name, p.commands))]
  exact Generator.counter_performAll_ofCommand hvalid (w.generator.enterUnit p.unit.name)

theorem reports_writeUnit (w : Work) {p : ParsedUnit}
    (hvalid : ∀ c ∈ p.commands, c.isValid = true) :
    (writeUnit w p).reports = w.reports.push p.report := by
  have hsize : (writeUnit w p).generator.counter - w.generator.counter =
      (p.commands.map Command.size).sum := by
    rw [counter_writeUnit w hvalid, Nat.add_sub_cancel_left]
  show w.reports.push ⟨p.unit.name, p.unit.path, p.commands.length,
    ((writeUnit w p).generator.counter - w.generator.counter : Nat)⟩ = _
  rw [hsize]
  rfl

/-- Units written one after another are reported on in order, and the counter moves by what the
reports say. -/
theorem writeUnits_reports {parsed : List ParsedUnit}
    (hvalid : ∀ p ∈ parsed, ∀ c ∈ p.commands, c.isValid = true) (w : Work) :
    (parsed.foldl writeUnit w).reports.toList =
        w.reports.toList ++ parsed.map ParsedUnit.report ∧
      ((parsed.foldl writeUnit w).generator.counter : Int) =
        w.generator.counter + ((parsed.map ParsedUnit.report).map Report.instructions).sum := by
  induction parsed generalizing w with
  | nil => simp
  | cons p parsed ih =>
      obtain ⟨hp, hparsed⟩ := List.forall_mem_cons.mp hvalid
      obtain ⟨hreports, hcounter⟩ := ih hparsed (writeUnit w p)
      rw [List.foldl_cons]
      constructor
      · rw [hreports, reports_writeUnit w hp, Array.toList_push, List.append_assoc]
        rfl
      · rw [hcounter, counter_writeUnit w hp, List.map_cons, List.map_cons, List.sum_cons,
          Int.natCast_add, Int.add_assoc]
        rfl

/-! ## Builds that succeed -/

theorem error_reports_of_result {o : Outcome} {reports : List Report}
    (h : o.result = .ok reports) : o.error = none ∧ o.reports = reports := by
  unfold Outcome.result at h
  split at h
  · cases h
  · next herror =>
      cases h
      exact ⟨herror, rfl⟩

/-- A build that succeeds has parsed all of its units and then written them. -/
theorem exists_emitUnits_of_build {s : Surroundings} {options : Options} {units : List Unit}
    {out : Text} (h : (build s options units out).error = none) :
    ∃ parsed, List.Forall₂ (ParsedUnit.IsOf s) units parsed ∧
      build s options units out = (emitUnits s options parsed out).outcome := by
  rcases build_cases s options units out with ⟨e, hbuild⟩ | ⟨-, hparsed⟩
  · rw [hbuild] at h
    cases h
  · exact hparsed

theorem exists_isOf_of_mem {s : Surroundings} {units : List Unit} {parsed : List ParsedUnit}
    (h : List.Forall₂ (ParsedUnit.IsOf s) units parsed) {p : ParsedUnit} (hp : p ∈ parsed) :
    ∃ u ∈ units, p.IsOf s u := by
  induction h with
  | nil => cases hp
  | cons hfirst _ ih =>
      rcases List.mem_cons.mp hp with rfl | hp
      · exact ⟨_, List.mem_cons_self, hfirst⟩
      · obtain ⟨u, hu, hpu⟩ := ih hp
        exact ⟨u, List.mem_cons_of_mem _ hu, hpu⟩

def programOf (parsed : List ParsedUnit) : List (Text × List Command) :=
  parsed.map fun p => (p.unit.name, p.commands)

theorem generator_writeUnits_eq_lower (options : Options) (parsed : List ParsedUnit) :
    (writeUnits options parsed).generator = lower options (programOf parsed) :=
  generator_writeUnits options parsed

/-- What a build that succeeds reports and writes. -/
theorem reports_of_build {s : Surroundings} {options : Options} {units : List Unit} {out : Text}
    {reports : List Report} (h : (build s options units out).result = .ok reports) :
    ∃ parsed, List.Forall₂ (ParsedUnit.IsOf s) units parsed ∧
      reports = parsed.map ParsedUnit.report ∧
      (build s options units out).written = (lower options (programOf parsed)).text ∧
      ((lower options (programOf parsed)).counter : Int) =
        (Generator.new options).counter + (reports.map Report.instructions).sum := by
  obtain ⟨herror, rfl⟩ := error_reports_of_result h
  obtain ⟨parsed, hall, hbuild⟩ := exists_emitUnits_of_build herror
  rw [hbuild] at herror ⊢
  have hvalid : ∀ p ∈ parsed, ∀ c ∈ p.commands, c.isValid = true := by
    intro p hp
    obtain ⟨u, -, hu⟩ := exists_isOf_of_mem hall hp
    exact hu.isValid
  obtain ⟨hreports, hcounter⟩ :=
    writeUnits_reports hvalid ⟨Generator.new options, #[], #[]⟩
  have hmap : (emitUnits s options parsed out).outcome.reports = parsed.map ParsedUnit.report :=
    ((reports_emitUnits s options parsed out).2 herror).trans hreports
  refine ⟨parsed, hall, hmap, ?_, ?_⟩
  · rw [← generator_writeUnits_eq_lower]
    exact (emitUnits_delivers s options parsed out).whole herror
  · rw [← generator_writeUnits_eq_lower, hmap]
    exact hcounter

theorem isOn_of_build {s : Surroundings} {options : Options} {units : List Unit} {out : Text}
    {reports : List Report} (h : (build s options units out).result = .ok reports) :
    List.Forall₂ (Report.IsOn s) units reports := by
  obtain ⟨parsed, hall, rfl, -, -⟩ := reports_of_build h
  rw [List.forall₂_map_right_iff]
  exact hall.imp fun u p hp => hp.isOn

theorem valid_programActions {s : Surroundings} {units : List Unit} {parsed : List ParsedUnit}
    (hunits : ∀ u ∈ units, isIdentifier u.name = true)
    (hall : List.Forall₂ (ParsedUnit.IsOf s) units parsed) :
    ∀ a ∈ programActions (programOf parsed), a.Valid := by
  intro a ha
  obtain ⟨v, hv, ha⟩ := List.mem_flatMap.mp ha
  obtain ⟨p, hp, rfl⟩ := List.mem_map.mp hv
  obtain ⟨u, hu, hpu⟩ := exists_isOf_of_mem hall hp
  have hname : isIdentifier p.unit.name = true := hpu.1 ▸ hunits u hu
  exact valid_unitActions hname hpu.isValid a ha

/-- The instructions of the output are those of the start-up code and those of the units. -/
theorem sum_instructions_of_build {s : Surroundings} {options : Options} {units : List Unit}
    {out : Text} {reports : List Report} (hentry : isFunctionName options.entryName = true)
    (hunits : ∀ u ∈ units, isIdentifier u.name = true)
    (h : (build s options units out).result = .ok reports) :
    (reports.map Report.instructions).sum + (if options.bootstrap then 53 else 0) =
      (instructionLines (build s options units out).written).length := by
  obtain ⟨parsed, hall, -, hwritten, hcounter⟩ := reports_of_build h
  have hlines : (instructionLines (lower options (programOf parsed)).text).length =
      (lower options (programOf parsed)).counter := by
    rw [lower_eq_run]
    exact Generator.length_instructionLines_run hentry (valid_programActions hunits hall)
  rw [hwritten, hlines, hcounter, Generator.counter_new hentry, Int.add_comm]
  split <;> rfl

theorem isFunctionName_entryName {settings : Settings} (h : settings.fault? = none) :
    isFunctionName settings.options.entryName = true := by
  unfold Settings.fault? at h
  split at h
  · cases h
  · next hentry =>
      have hname : isFunctionName settings.entry = true := by simpa using hentry
      have hne : settings.entry.isEmpty = false := by
        cases hempty : settings.entry with
        | nil =>
            rw [hempty] at hname
            cases hname
        | cons b t => rfl
      rw [Options.entryName, Settings.options, if_neg (by simp [hne])]
      exact hname

/-- **Reports.** With settings without fault and identifiers for names of units, a build that
succeeds reports on its units in order: how many commands are parsed from each source, and how many
instructions these come to. The instructions of all units, and the 53 of the start-up code if there
is one, are the instruction lines of the output. No other unit, and nothing else about a build, has
a say in the report on a unit: units with the same commands have as many instructions in any two
builds, and units in another order have the same reports. -/
theorem reports_exact {s : Surroundings} {settings : Settings} {units : List Unit} {out : Text}
    {reports : List Report} (hsettings : settings.fault? = none)
    (hunits : ∀ u ∈ units, isIdentifier u.name = true)
    (hok : (build s settings.options units out).result = .ok reports) :
    List.Forall₂ (Report.IsOn s) units reports ∧
    (reports.map Report.instructions).sum + (if settings.bootstrap then 53 else 0) =
      (instructionLines (build s settings.options units out).written).length ∧
    ∀ {s' : Surroundings} {options' : Options} {units' : List Unit} {out' : Text}
      {reports' : List Report}, (build s' options' units' out').result = .ok reports' →
      (∀ u r u' r' cs, (u, r) ∈ units.zip reports → (u', r') ∈ units'.zip reports' →
        u.HasCommands s cs → u'.HasCommands s' cs → r.instructions = r'.instructions) ∧
      ((∀ u ∈ units, s'.source u.path = s.source u.path) → units'.Perm units →
        (units'.zip reports').Perm (units.zip reports)) := by
  have hon := isOn_of_build hok
  refine ⟨hon, ?_, ?_⟩
  · exact sum_instructions_of_build (isFunctionName_entryName hsettings) hunits hok
  · intro s' options' units' out' reports' hok'
    have hon' := isOn_of_build hok'
    refine ⟨?_, perm_zip_reports hon hon'⟩
    intro u r u' r' cs hr hr' hcs hcs'
    exact (List.forall₂_zip hon hr).instructions_eq (List.forall₂_zip hon' hr') hcs hcs'

/-- A function and a unit that calls it, with nothing in the way of a build. -/
def callerAndCallee : Surroundings where
  source path :=
    if path = "A.vm" then .ok "function A.f 2\npush argument 0\nreturn\n"
    else if path = "B.vm" then .ok "push constant 7\ncall A.f 1\n"
    else .error ⟨"missing", true⟩
  createFailure _ := none
  limit := none
  closeFailure := none

theorem reports_callerAndCallee :
    (instructionLines (build callerAndCallee
      { Settings.standard with bootstrap := true }.options [⟨"A", "A.vm"⟩, ⟨"B", "B.vm"⟩]
        "Out.asm").written).length = 77 + 56 + 53 ∧
    (build callerAndCallee ⟨false, "", true⟩ [⟨"B", "B.vm"⟩, ⟨"A", "A.vm"⟩] "Out.asm").result =
      .ok [⟨"B", "B.vm", 2, 56⟩, ⟨"A", "A.vm", 3, 77⟩] ∧
    ([(⟨"B", "B.vm"⟩, ⟨"B", "B.vm", 2, 56⟩), (⟨"A", "A.vm"⟩, ⟨"A", "A.vm", 3, 77⟩)] :
      List (Unit × Report)).Perm
        [(⟨"A", "A.vm"⟩, ⟨"A", "A.vm", 3, 77⟩), (⟨"B", "B.vm"⟩, ⟨"B", "B.vm", 2, 56⟩)] := by
  have hok : (build callerAndCallee { Settings.standard with bootstrap := true }.options
      [⟨"A", "A.vm"⟩, ⟨"B", "B.vm"⟩] "Out.asm").result =
        .ok [⟨"A", "A.vm", 3, 77⟩, ⟨"B", "B.vm", 2, 56⟩] := by decide +kernel
  have hok' : (build callerAndCallee ⟨false, "", true⟩ [⟨"B", "B.vm"⟩, ⟨"A", "A.vm"⟩]
      "Out.asm").result = .ok [⟨"B", "B.vm", 2, 56⟩, ⟨"A", "A.vm", 3, 77⟩] := by decide +kernel
  obtain ⟨-, hsum, htwo⟩ := reports_exact (by decide +kernel) (by decide +kernel) hok
  refine ⟨?_, hok', ?_⟩
  · exact (Int.ofNat.inj hsum).symm
  · exact (htwo hok').2 (fun _ _ => rfl) (List.Perm.swap _ _ _)

end HackStack.Build
