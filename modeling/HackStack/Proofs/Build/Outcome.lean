import HackStack.Build.Run
import HackStack.Proofs.Lowering.Sources

/-!
# Outcomes of builds

A build can fail in four places: a unit cannot be read or parsed, the output cannot be created, it
has not enough room, or it cannot be closed. Each step has a lemma on what it does and which results
it leaves; in particular closing an output, the last step, replaces the results only if they are
those of a success (`Building.run_finish`). `Delivers` says which of the failures is the error where
several occur together, what becomes of the output, and that nothing but the whole code counts as
success.

`Device` is an output that is sent the code piece by piece and stops at its first failure. A build
takes account of the code as a whole; `Device.sendAll_eq` shows that this is the same, however the
code is cut into pieces.
-/

namespace HackStack.Build

open HackStack.Lowering
open HackStack.Vm

/-! ## Outputs that fill up -/

/-- An output that is written to piece by piece. -/
structure Device where
  /-- For how many bytes there is room in all, if that is limited. -/
  room : Option Nat
  taken : Text
  failed : Bool

namespace Device

def empty (room : Option Nat) : Device := ⟨room, [], false⟩

/-- Sends a piece to an output. It takes as much as there is room for, and fails if that is not all;
once it has failed, nothing is sent to it any more. -/
def send (d : Device) (piece : Text) : Device :=
  if d.failed then d
  else
    match d.room with
    | none => { d with taken := d.taken ++ piece }
    | some room =>
      { d with
        taken := d.taken ++ piece.take (room - d.taken.length)
        failed := room < d.taken.length + piece.length }

end Device

def exceeds (room : Option Nat) (text : Text) : Bool := room.any (· < text.length)

def fitting (room : Option Nat) (text : Text) : Text :=
  match room with
  | none => text
  | some room => text.take room

theorem fitting_prefix (room : Option Nat) (text : Text) : fitting room text <+: text := by
  cases room with
  | none => exact List.prefix_rfl
  | some room => exact List.take_prefix room text

theorem fitting_of_not_exceeds {room : Option Nat} {text : Text} (h : exceeds room text = false) :
    fitting room text = text := by
  cases room with
  | none => rfl
  | some room =>
      have hle : text.length ≤ room := by simpa [exceeds] using h
      exact List.take_of_length_le hle

/-- One more piece sent to an output that has been sent `text`. -/
theorem Device.send_eq (room : Option Nat) (text piece : Text) :
    (Device.mk room (fitting room text) (exceeds room text)).send piece =
      ⟨room, fitting room (text ++ piece), exceeds room (text ++ piece)⟩ := by
  cases room with
  | none => rfl
  | some room =>
      by_cases hfull : room < text.length
      · -- it is full, and stays as it is
        have hmore : room < text.length + piece.length := by omega
        simp [send, exceeds, fitting, hfull, hmore,
          List.take_append_of_le_length (Nat.le_of_lt hfull)]
      · simp only [send, exceeds, fitting, Option.any_some, hfull, decide_false, Bool.false_eq_true,
          if_false, List.length_append, List.take_append,
          List.take_of_length_le (Nat.le_of_not_lt hfull)]

/-- **Pieces.** What an output takes of a text, and whether it fails, does not depend on how the
text is cut into pieces. -/
theorem Device.sendAll_eq (room : Option Nat) (pieces : List Text) :
    pieces.foldl send (empty room) =
      ⟨room, fitting room pieces.flatten, exceeds room pieces.flatten⟩ := by
  have hsend : ∀ text, pieces.foldl send ⟨room, fitting room text, exceeds room text⟩ =
      ⟨room, fitting room (text ++ pieces.flatten), exceeds room (text ++ pieces.flatten)⟩ := by
    induction pieces with
    | nil => simp
    | cons piece pieces ih =>
        intro text
        rw [List.foldl_cons, send_eq, ih, List.flatten_cons, List.append_assoc]
  have hempty : empty room = ⟨room, fitting room [], exceeds room []⟩ := by
    cases room <;> simp [empty, fitting, exceeds]
  rw [hempty, hsend]
  rfl

/-! ## Units that fail -/

/-- Why a unit cannot be built: its source cannot be read, or it cannot be parsed. -/
def unitError? (s : Surroundings) (u : Unit) : Option BuildError :=
  match s.source u.path with
  | .error f => some (.unopened f)
  | .ok src =>
    match parse src with
    | .error e => some (.unparsed u.path e)
    | .ok _ => none

/-- The commands of a unit are those of its source. -/
def ParsedUnit.IsOf (s : Surroundings) (u : Unit) (p : ParsedUnit) : Prop :=
  p.unit = u ∧ ∃ src, s.source u.path = .ok src ∧ parse src = .ok p.commands

theorem exists_isOf {s : Surroundings} {u : Unit} (h : unitError? s u = none) :
    ∃ p, ParsedUnit.IsOf s u p := by
  unfold unitError? at h
  cases hsource : s.source u.path with
  | error f => simp [hsource] at h
  | ok src =>
      cases hparse : parse src with
      | error e => simp [hsource, hparse] at h
      | ok cs => exact ⟨⟨u, cs⟩, rfl, src, hsource, hparse⟩

theorem parseUnits_cons_of_isOf {s : Surroundings} {u : Unit} {p : ParsedUnit}
    (h : p.IsOf s u) (found : Array ParsedUnit) (rest : List Unit) :
    parseUnits s.source found (u :: rest) = parseUnits s.source (found.push p) rest := by
  obtain ⟨rfl, src, hsource, hparse⟩ := h
  rw [parseUnits, hsource]
  simp only [hparse]

/-- The first unit that fails ends the reading of units. -/
theorem parseUnits_of_unitError {s : Surroundings} {before after : List Unit} {u : Unit}
    {e : BuildError} (hbefore : ∀ v ∈ before, unitError? s v = none)
    (hu : unitError? s u = some e) (found : Array ParsedUnit) :
    parseUnits s.source found (before ++ u :: after) = .error e := by
  induction before generalizing found with
  | nil =>
      unfold unitError? at hu
      rw [List.nil_append, parseUnits]
      cases hsource : s.source u.path with
      | error f =>
          rw [hsource] at hu
          cases hu
          rfl
      | ok src =>
          cases hparse : parse src with
          | error e =>
              simp only [hsource, hparse] at hu
              cases hu
              simp [hparse]
          | ok cs => simp [hsource, hparse] at hu
  | cons v before ih =>
      obtain ⟨hv, hbefore⟩ := List.forall_mem_cons.mp hbefore
      obtain ⟨p, hp⟩ := exists_isOf hv
      rw [List.cons_append, parseUnits_cons_of_isOf hp]
      exact ih hbefore (found.push p)

theorem parseUnits_of_none {s : Surroundings} {units : List Unit}
    (h : ∀ u ∈ units, unitError? s u = none) (found : Array ParsedUnit) :
    ∃ parsed, parseUnits s.source found units = .ok (found.toList ++ parsed) ∧
      List.Forall₂ (ParsedUnit.IsOf s) units parsed := by
  induction units generalizing found with
  | nil => exact ⟨[], by simp [parseUnits], .nil⟩
  | cons u units ih =>
      obtain ⟨hu, hunits⟩ := List.forall_mem_cons.mp h
      obtain ⟨p, hp⟩ := exists_isOf hu
      obtain ⟨parsed, hparsed, hall⟩ := ih hunits (found.push p)
      refine ⟨p :: parsed, ?_, .cons hp hall⟩
      rw [parseUnits_cons_of_isOf hp, hparsed, Array.toList_push, List.append_assoc]
      rfl

/-! ## The code of the units -/

/-- The units by name and source; what cannot be read counts as empty. -/
def namedSources (s : Surroundings) (units : List Unit) : List (Text × Text) :=
  units.map fun u => (u.name, (s.source u.path).toOption.getD [])

theorem generator_writeCommand (unit : Text) (cs : List Command) (e : Generator)
    (log : Array Log.Record) : (cs.foldl (writeCommand unit) (e, log)).1 = e.writeAll cs := by
  induction cs generalizing e log with
  | nil => rfl
  | cons c cs ih => exact ih (e.write c).1 _

theorem generator_writeUnit (w : Work) (p : ParsedUnit) :
    (writeUnit w p).generator = (w.generator.writeUnit p.unit.name p.commands).1 :=
  generator_writeCommand _ _ _ _

theorem generator_writeUnits (options : Options) (parsed : List ParsedUnit) :
    (writeUnits options parsed).generator =
      (parsed.map fun p => (p.unit.name, p.commands)).foldl
        (fun e u => (e.writeUnit u.1 u.2).1) (Generator.new options) := by
  have hfold : ∀ w : Work, (parsed.foldl writeUnit w).generator =
      (parsed.map fun p => (p.unit.name, p.commands)).foldl
        (fun e u => (e.writeUnit u.1 u.2).1) w.generator := by
    induction parsed with
    | nil => exact fun w => rfl
    | cons p parsed ih =>
        intro w
        rw [List.foldl_cons, ih, generator_writeUnit]
        rfl
  exact hfold _

/-- The generator of a build is the one that writes the sources of its units. -/
theorem generateUnits_of_isOf {s : Surroundings} {units : List Unit} {parsed : List ParsedUnit}
    (h : List.Forall₂ (ParsedUnit.IsOf s) units parsed) (options : Options) :
    ∃ counts, generateUnits options (namedSources s units) =
      .ok ((writeUnits options parsed).generator, counts) := by
  rw [generator_writeUnits]
  refine Generator.writeSources_of_parse ?_ _ _
  rw [namedSources, List.forall₂_map_left_iff, List.forall₂_map_right_iff]
  refine h.imp ?_
  rintro u p ⟨rfl, src, hsource, hparse⟩
  rw [hsource]
  exact ⟨rfl, hparse⟩

/-- A report is made on each unit, in order. -/
theorem units_writeUnits (options : Options) (parsed : List ParsedUnit) :
    (writeUnits options parsed).reports.toList.map (fun r => (⟨r.name, r.path⟩ : Unit)) =
      parsed.map ParsedUnit.unit := by
  have hfold : ∀ w : Work,
      (parsed.foldl writeUnit w).reports.toList.map (fun r => (⟨r.name, r.path⟩ : Unit)) =
        w.reports.toList.map (fun r => ⟨r.name, r.path⟩) ++ parsed.map ParsedUnit.unit := by
    induction parsed with
    | nil => simp
    | cons p parsed ih =>
        intro w
        rw [List.foldl_cons, ih, List.map_cons, List.append_cons]
        simp [writeUnit]
  exact hfold _

/-! ## The output -/

/-- For how many bytes the output has room; a negative number leaves room for none. -/
def Surroundings.capacity (s : Surroundings) : Option Nat := s.limit.map fun l => l.room.toNat

/-- The limit that a text goes beyond. -/
theorem filter_isExceeded (s : Surroundings) (text : Text) :
    s.limit.filter (fun l => l.isExceeded text.length) =
      if exceeds s.capacity text then s.limit else none := by
  unfold exceeds Surroundings.capacity
  cases s.limit with
  | none => rfl
  | some l =>
      have hiff : l.isExceeded text.length = decide (l.room.toNat < text.length) := by
        rw [Limit.isExceeded, Bool.eq_iff_iff]
        simp only [Bool.and_eq_true, decide_eq_true_eq]
        omega
      simp [Option.filter, hiff]

namespace Building

theorem run_then {α β : Type} {m : Building α} {next : α → Building β} {a : α} {t t' : Effects}
    (h : m.run t = (a, t')) : (m >>= next).run t = (next a).run t' := by
  rw [StateT.run_bind, h]
  rfl

theorem run_record (log : List Log.Record) (t : Effects) :
    (record log).run t = (⟨⟩, { t with log := t.log ++ log }) := rfl

theorem run_create (s : Surroundings) (path : Text) (t : Effects) :
    (create s path).run t = (s.createFailure path, { t with created := t.created ++ [path] }) := rfl

theorem run_close (s : Surroundings) (t : Effects) :
    (close s).run t = (s.closeFailure, { t with closed := t.closed + 1 }) := rfl

/-- The output takes what it has room for. -/
theorem run_send (s : Surroundings) (code : Text) (t : Effects) :
    (send s code).run t =
      (if exceeds s.capacity code then s.limit.map Limit.reason else none,
        { t with written := t.written ++ fitting s.capacity code }) := by
  unfold send
  rw [filter_isExceeded]
  by_cases hfull : exceeds s.capacity code = true
  · rw [if_pos hfull, if_pos hfull]
    cases hlimit : s.limit with
    | none => simp [exceeds, Surroundings.capacity, hlimit] at hfull
    | some l =>
        rw [Surroundings.capacity, hlimit]
        rfl
  · rw [if_neg hfull, if_neg hfull, fitting_of_not_exceeds (Bool.not_eq_true _ ▸ hfull)]
    rfl

/-- Writing gives a report on each unit if the output has room for the code, and no report but an
error otherwise. -/
theorem run_write (s : Surroundings) (options : Options) (parsed : List ParsedUnit) (out : Text)
    (t : Effects) :
    ∃ results t', (write s options parsed out).run t = (results, t') ∧
      t'.created = t.created ∧ t'.closed = t.closed ∧
      t'.written = t.written ++ fitting s.capacity (writeUnits options parsed).generator.text ∧
      ((exceeds s.capacity (writeUnits options parsed).generator.text = true ∧
          ∃ reason, s.limit.map Limit.reason = some reason ∧
            results = ⟨[], some (.unwritten out reason)⟩) ∨
        (exceeds s.capacity (writeUnits options parsed).generator.text = false ∧
          results = ⟨(writeUnits options parsed).reports.toList, none⟩)) := by
  have hsent : (write s options parsed out).run t = _ :=
    (run_then (run_record _ t)).trans (run_then (run_send s _ _))
  by_cases hfull : exceeds s.capacity (writeUnits options parsed).generator.text = true
  · obtain ⟨reason, hreason⟩ : ∃ reason, s.limit.map Limit.reason = some reason := by
      cases hlimit : s.limit with
      | none => simp [exceeds, Surroundings.capacity, hlimit] at hfull
      | some l => exact ⟨l.reason, rfl⟩
    rw [if_pos hfull, hreason] at hsent
    exact ⟨_, _, hsent, rfl, rfl, rfl, Or.inl ⟨hfull, reason, hreason, rfl⟩⟩
  · rw [if_neg hfull] at hsent
    exact ⟨_, _, hsent, rfl, rfl, rfl, Or.inr ⟨Bool.not_eq_true _ ▸ hfull, rfl⟩⟩

/-- Closing the output replaces the results if it fails and nothing has failed before. -/
theorem run_finish (s : Surroundings) (out : Text) (results : Results) (t : Effects) :
    ∃ results', (finish s out results).run t = (results', { t with closed := t.closed + 1 }) ∧
      ((results.error = none ∧ ∃ reason, s.closeFailure = some reason ∧
          results' = ⟨[], some (.unclosed out reason)⟩) ∨
        ((results.error ≠ none ∨ s.closeFailure = none) ∧ results' = results)) := by
  have hclosed : (finish s out results).run t = _ := run_then (run_close s t)
  cases hclose : s.closeFailure with
  | none =>
      rw [hclose] at hclosed
      exact ⟨results, hclosed, Or.inr ⟨Or.inr rfl, rfl⟩⟩
  | some reason =>
      rw [hclose] at hclosed
      cases herror : results.error with
      | none =>
          simp only [herror] at hclosed
          exact ⟨_, hclosed, Or.inl ⟨rfl, reason, rfl, rfl⟩⟩
      | some e =>
          simp only [herror] at hclosed
          exact ⟨_, hclosed, Or.inr ⟨Or.inl (by simp), rfl⟩⟩

end Building

/-- What writing parsed units can come to. -/
theorem emitUnits_cases (s : Surroundings) (options : Options) (parsed : List ParsedUnit)
    (out : Text) {text : Text} {o : Outcome}
    (htext : (writeUnits options parsed).generator.text = text)
    (ho : (emitUnits s options parsed out).outcome = o) :
    (∃ f, s.createFailure out = some f ∧ o.toResults = ⟨[], some (.uncreated out f)⟩ ∧
      o.created = [out] ∧ o.closed = 0 ∧ o.written = []) ∨
    (s.createFailure out = none ∧ o.created = [out] ∧ o.closed = 1 ∧
      o.written = fitting s.capacity text ∧
      ((exceeds s.capacity text = true ∧ ∃ reason, s.limit.map Limit.reason = some reason ∧
          o.toResults = ⟨[], some (.unwritten out reason)⟩) ∨
        (exceeds s.capacity text = false ∧ ∃ reason, s.closeFailure = some reason ∧
          o.toResults = ⟨[], some (.unclosed out reason)⟩) ∨
        (exceeds s.capacity text = false ∧ s.closeFailure = none ∧
          o.toResults = ⟨(writeUnits options parsed).reports.toList, none⟩))) := by
  subst ho htext
  have hcreated : (emitUnits s options parsed out).run .none = _ :=
    Building.run_then (Building.run_create s out .none)
  cases hcreate : s.createFailure out with
  | some f =>
      rw [hcreate] at hcreated
      rw [Building.outcome, hcreated]
      exact Or.inl ⟨f, rfl, rfl, rfl, rfl, rfl⟩
  | none =>
      obtain ⟨results, t, hwrite, htcreated, htclosed, htwritten, hresults⟩ :=
        Building.run_write s options parsed out { Effects.none with created := [out] }
      obtain ⟨results', hfinish, hfinal⟩ := Building.run_finish s out results t
      rw [hcreate] at hcreated
      have hrun : (emitUnits s options parsed out).run .none =
          (results', { t with closed := t.closed + 1 }) :=
        hcreated.trans ((Building.run_then hwrite).trans hfinish)
      rw [Building.outcome, hrun]
      refine Or.inr ⟨rfl, htcreated, congrArg (· + 1) htclosed, htwritten, ?_⟩
      rcases hresults with ⟨hfull, reason, hreason, rfl⟩ | ⟨hfull, rfl⟩
      · obtain ⟨habsurd, -⟩ | ⟨-, rfl⟩ := hfinal
        · cases habsurd
        · exact Or.inl ⟨hfull, reason, hreason, rfl⟩
      · obtain ⟨-, reason, hclose, rfl⟩ | ⟨hnot | hclose, rfl⟩ := hfinal
        · exact Or.inr (Or.inl ⟨hfull, reason, hclose, rfl⟩)
        · exact absurd rfl hnot
        · exact Or.inr (Or.inr ⟨hfull, hclose, rfl⟩)

/-- What becomes of an output to which the code `text` is to be written. -/
structure Delivers (s : Surroundings) (out text : Text) (o : Outcome) : Prop where
  created : o.created = [out]
  closed : o.closed = if s.createFailure out = none then 1 else 0
  uncreated : ∀ f, s.createFailure out = some f → o.error = some (.uncreated out f)
  unwritten : s.createFailure out = none →
    ((∃ reason, o.error = some (.unwritten out reason)) ↔ exceeds s.capacity text = true)
  reason : ∀ reason, o.error = some (.unwritten out reason) →
    s.limit.map Limit.reason = some reason
  unclosed : s.createFailure out = none → exceeds s.capacity text = false →
    ∀ reason, s.closeFailure = some reason → o.error = some (.unclosed out reason)
  success : o.error = none ↔
    s.createFailure out = none ∧ exceeds s.capacity text = false ∧ s.closeFailure = none
  /-- The output has taken the beginning of the code, and all of it if the build succeeds. -/
  taken : o.written <+: text
  whole : o.error = none → o.written = text
  /-- The output is as if the code had been sent in pieces, whatever the pieces are. -/
  pieces : s.createFailure out = none → ∀ pieces : List Text, pieces.flatten = text →
    (pieces.foldl Device.send (.empty s.capacity)).taken = o.written ∧
      ((pieces.foldl Device.send (.empty s.capacity)).failed = true ↔
        ∃ reason, o.error = some (.unwritten out reason))

theorem emitUnits_delivers (s : Surroundings) (options : Options) (parsed : List ParsedUnit)
    (out : Text) :
    Delivers s out (writeUnits options parsed).generator.text
      (emitUnits s options parsed out).outcome := by
  generalize htext : (writeUnits options parsed).generator.text = text
  generalize ho : (emitUnits s options parsed out).outcome = o
  rcases emitUnits_cases s options parsed out htext ho with
    ⟨f, hcreate, hresults, hcreated, hclosed, hwritten⟩ |
      ⟨hcreate, hcreated, hclosed, hwritten, hcases⟩
  · have herror : o.error = some (.uncreated out f) := congrArg Results.error hresults
    refine ⟨hcreated, ?_, ?_, ?_, ?_, ?_, ?_, ?_, ?_, ?_⟩
    all_goals simp [hcreate, herror, hclosed, hwritten]
  · have hunwritten : (∃ reason, o.error = some (.unwritten out reason)) ↔
        exceeds s.capacity text = true := by
      rcases hcases with ⟨hfull, _, -, hresults⟩ | ⟨hfull, _, -, hresults⟩ | ⟨hfull, -, hresults⟩
      all_goals simp [hfull, hresults]
    have hreason : ∀ reason, o.error = some (.unwritten out reason) →
        s.limit.map Limit.reason = some reason := by
      intro reason herror
      rcases hcases with ⟨-, _, hlimit, hresults⟩ | ⟨-, _, -, hresults⟩ | ⟨-, -, hresults⟩
      · rw [hresults] at herror
        cases herror
        exact hlimit
      · simp [hresults] at herror
      · simp [hresults] at herror
    have hunclosed : exceeds s.capacity text = false → ∀ reason, s.closeFailure = some reason →
        o.error = some (.unclosed out reason) := by
      rcases hcases with ⟨hfull, -⟩ | ⟨-, _, hclose, hresults⟩ | ⟨-, hclose, -⟩
      · simp [hfull]
      · simp [hclose, hresults]
      · simp [hclose]
    have hsuccess : o.error = none ↔
        exceeds s.capacity text = false ∧ s.closeFailure = none := by
      rcases hcases with ⟨hfull, _, -, hresults⟩ | ⟨hfull, _, hclose, hresults⟩ |
        ⟨hfull, hclose, hresults⟩
      · simp [hfull, hresults]
      · simp [hclose, hresults]
      · simp [hfull, hclose, hresults]
    have hwhole : o.error = none → o.written = text := by
      intro hok
      rw [hwritten, fitting_of_not_exceeds (hsuccess.mp hok).1]
    have htaken : o.written <+: text := by
      rw [hwritten]
      exact fitting_prefix _ _
    refine ⟨hcreated, ?_, ?_, fun _ => hunwritten, hreason, fun _ => hunclosed, ?_, htaken, hwhole,
      ?_⟩
    · rw [hclosed, if_pos hcreate]
    · simp [hcreate]
    · simpa [hcreate] using hsuccess
    · rintro - pieces rfl
      rw [Device.sendAll_eq, hwritten]
      exact ⟨rfl, hunwritten.symm⟩

/-- There are reports, one on each unit, only without an error. -/
theorem reports_emitUnits (s : Surroundings) (options : Options) (parsed : List ParsedUnit)
    (out : Text) :
    (∀ e, (emitUnits s options parsed out).outcome.error = some e →
      (emitUnits s options parsed out).outcome.reports = []) ∧
    ((emitUnits s options parsed out).outcome.error = none →
      (emitUnits s options parsed out).outcome.reports =
        (writeUnits options parsed).reports.toList) := by
  generalize ho : (emitUnits s options parsed out).outcome = o
  rcases emitUnits_cases s options parsed out rfl ho with
    ⟨f, -, hresults, -⟩ | ⟨-, -, -, -, ⟨-, _, -, hresults⟩ | ⟨-, _, -, hresults⟩ | ⟨-, -, hresults⟩⟩
  all_goals simp [hresults]

/-! ## Builds -/

theorem build_of_unitError {s : Surroundings} {before after : List Unit} {u : Unit}
    {e : BuildError} (hbefore : ∀ v ∈ before, unitError? s v = none)
    (hu : unitError? s u = some e) (options : Options) (out : Text) :
    build s options (before ++ u :: after) out = ⟨⟨[], some e⟩, .none⟩ := by
  rw [build, parseUnits_of_unitError hbefore hu]
  simp

theorem build_eq_emitUnits {s : Surroundings} {units : List Unit} (hne : units ≠ [])
    (h : ∀ u ∈ units, unitError? s u = none) (options : Options) (out : Text) :
    ∃ parsed, List.Forall₂ (ParsedUnit.IsOf s) units parsed ∧
      build s options units out = (emitUnits s options parsed out).outcome := by
  obtain ⟨parsed, hparsed, hall⟩ := parseUnits_of_none h #[]
  refine ⟨parsed, hall, ?_⟩
  rw [build, hparsed]
  simp [hne]

theorem build_of_none {s : Surroundings} {units : List Unit} (hne : units ≠ [])
    (h : ∀ u ∈ units, unitError? s u = none) (options : Options) (out : Text) :
    ∃ e counts, generateUnits options (namedSources s units) = .ok (e, counts) ∧
      Delivers s out e.text (build s options units out) := by
  obtain ⟨parsed, hall, hbuild⟩ := build_eq_emitUnits hne h options out
  obtain ⟨counts, hgenerate⟩ := generateUnits_of_isOf hall options
  refine ⟨_, counts, hgenerate, ?_⟩
  rw [hbuild]
  exact emitUnits_delivers s options parsed out

/-- The first of several units that fails. -/
theorem exists_first_unitError {s : Surroundings} {units : List Unit}
    (h : ∃ u ∈ units, unitError? s u ≠ none) :
    ∃ before u after e, units = before ++ u :: after ∧ (∀ v ∈ before, unitError? s v = none) ∧
      unitError? s u = some e := by
  induction units with
  | nil =>
      obtain ⟨u, hu, -⟩ := h
      cases hu
  | cons v units ih =>
      cases hv : unitError? s v with
      | some e => exact ⟨[], v, units, e, rfl, by simp, hv⟩
      | none =>
          have hrest : ∃ u ∈ units, unitError? s u ≠ none := by
            obtain ⟨u, hu, hne⟩ := h
            rcases List.mem_cons.mp hu with rfl | hu
            · exact absurd hv hne
            · exact ⟨u, hu, hne⟩
          obtain ⟨before, u, after, e, rfl, hbefore, hu⟩ := ih hrest
          exact ⟨v :: before, u, after, e, rfl, List.forall_mem_cons.mpr ⟨hv, hbefore⟩, hu⟩

/-- A build fails at one of its units, or comes to what writing its parsed units comes to. -/
theorem build_cases (s : Surroundings) (options : Options) (units : List Unit) (out : Text) :
    (∃ e, build s options units out = ⟨⟨[], some e⟩, .none⟩) ∨
    (units ≠ [] ∧ ∃ parsed, List.Forall₂ (ParsedUnit.IsOf s) units parsed ∧
      build s options units out = (emitUnits s options parsed out).outcome) := by
  by_cases hne : units = []
  · subst hne
    exact Or.inl ⟨.noUnits, rfl⟩
  by_cases hfails : ∃ u ∈ units, unitError? s u ≠ none
  · obtain ⟨before, u, after, e, rfl, hbefore, hu⟩ := exists_first_unitError hfails
    exact Or.inl ⟨e, build_of_unitError hbefore hu options out⟩
  · push Not at hfails
    exact Or.inr ⟨hne, build_eq_emitUnits hne hfails options out⟩

theorem units_of_isOf {s : Surroundings} {units : List Unit} {parsed : List ParsedUnit}
    (h : List.Forall₂ (ParsedUnit.IsOf s) units parsed) : parsed.map ParsedUnit.unit = units := by
  induction h with
  | nil => rfl
  | cons hfirst _ ih => rw [List.map_cons, ih, hfirst.1]

/-- **All or nothing.** Without units, or with a unit that cannot be read or parsed, a build fails
with the error of the first such unit and leaves its output alone. Otherwise the output is created
once, closed once if it could be created, and takes the beginning of the code that one generator
makes of the units in order; a failure to create comes before a lack of room, which comes before a
failure to close. The build succeeds exactly if none of these occurs, and then the output has the
whole code. It reports on all of its units in order if it succeeds, and on none if it fails. -/
theorem build_all_or_nothing (s : Surroundings) (options : Options) (units : List Unit)
    (out : Text) :
    (units = [] → (build s options units out).error = some .noUnits) ∧
    (∀ before u after e, units = before ++ u :: after → (∀ v ∈ before, unitError? s v = none) →
      unitError? s u = some e → (build s options units out).error = some e) ∧
    ((units = [] ∨ ∃ u ∈ units, unitError? s u ≠ none) →
      (build s options units out).created = [] ∧ (build s options units out).closed = 0 ∧
        (build s options units out).written = []) ∧
    (units ≠ [] → (∀ u ∈ units, unitError? s u = none) →
      ∃ e counts, generateUnits options (namedSources s units) = .ok (e, counts) ∧
        Delivers s out e.text (build s options units out)) ∧
    (∀ e, (build s options units out).error = some e → (build s options units out).reports = []) ∧
    ((build s options units out).error = none → units ≠ [] ∧
      (build s options units out).reports.map (fun r => ⟨r.name, r.path⟩) = units) := by
  refine ⟨?_, ?_, ?_, fun hne h => build_of_none hne h options out, ?_⟩
  · rintro rfl
    rfl
  · rintro before u after e rfl hbefore hu
    rw [build_of_unitError hbefore hu]
  · rintro (rfl | hfails)
    · exact ⟨rfl, rfl, rfl⟩
    · obtain ⟨before, u, after, e, rfl, hbefore, hu⟩ := exists_first_unitError hfails
      rw [build_of_unitError hbefore hu]
      exact ⟨rfl, rfl, rfl⟩
  · rcases build_cases s options units out with ⟨e, hbuild⟩ | ⟨hne, parsed, hall, hbuild⟩
    · simp [hbuild]
    · obtain ⟨hnone, hreports⟩ := reports_emitUnits s options parsed out
      rw [hbuild]
      refine ⟨hnone, fun hok => ⟨hne, ?_⟩⟩
      rw [hreports hok, units_writeUnits, units_of_isOf hall]

/-- Two sources, and an output that has room for 20 bytes and cannot be closed. -/
def crampedOutput : Surroundings where
  source path :=
    if path = "A.vm" then .ok "push constant 1\n"
    else if path = "B.vm" then .ok "pop static 0\n"
    else .error ⟨"missing", true⟩
  createFailure _ := none
  limit := some ⟨20, "disk full"⟩
  closeFailure := some "gone"

theorem build_crampedOutput :
    ((build crampedOutput ⟨false, "", true⟩ [⟨"A", "A.vm"⟩, ⟨"C", "C.vm"⟩, ⟨"D", "D.vm"⟩]
        "Out.asm").error = some (.unopened ⟨"missing", true⟩) ∧
      (build crampedOutput ⟨false, "", true⟩ [⟨"A", "A.vm"⟩, ⟨"C", "C.vm"⟩, ⟨"D", "D.vm"⟩]
        "Out.asm").created = []) ∧
    (build crampedOutput ⟨false, "", true⟩ [⟨"A", "A.vm"⟩, ⟨"B", "B.vm"⟩] "Out.asm").error =
        some (.unwritten "Out.asm" "disk full") ∧
      (build crampedOutput ⟨false, "", true⟩ [⟨"A", "A.vm"⟩, ⟨"B", "B.vm"⟩]
        "Out.asm").closed = 1 ∧
      (build crampedOutput ⟨false, "", true⟩ [⟨"A", "A.vm"⟩, ⟨"B", "B.vm"⟩]
        "Out.asm").reports = [] := by
  constructor
  · obtain ⟨-, hfirst, halone, -⟩ := build_all_or_nothing crampedOutput ⟨false, "", true⟩
      [⟨"A", "A.vm"⟩, ⟨"C", "C.vm"⟩, ⟨"D", "D.vm"⟩] "Out.asm"
    exact ⟨hfirst [⟨"A", "A.vm"⟩] ⟨"C", "C.vm"⟩ [⟨"D", "D.vm"⟩] _ rfl (by decide +kernel)
      (by decide +kernel), (halone (Or.inr ⟨⟨"C", "C.vm"⟩, by decide, by decide +kernel⟩)).1⟩
  · obtain ⟨-, -, -, hdelivers, hnone, -⟩ := build_all_or_nothing crampedOutput ⟨false, "", true⟩
      [⟨"A", "A.vm"⟩, ⟨"B", "B.vm"⟩] "Out.asm"
    obtain ⟨e, counts, hgenerate, hdelivered⟩ := hdelivers (by simp) (by decide +kernel)
    have hlong : (generateUnits ⟨false, "", true⟩ (namedSources crampedOutput
        [⟨"A", "A.vm"⟩, ⟨"B", "B.vm"⟩])).toOption.any
          (fun r => exceeds crampedOutput.capacity r.1.text) = true := by decide +kernel
    rw [hgenerate] at hlong
    obtain ⟨reason, herror⟩ := (hdelivered.unwritten rfl).mpr hlong
    cases hdelivered.reason reason herror
    exact ⟨herror, hdelivered.closed, hnone _ herror⟩

end HackStack.Build
