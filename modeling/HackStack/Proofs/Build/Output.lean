import HackStack.Build.OnDisk
import HackStack.Proofs.Build.Outcome
import HackStack.Proofs.Files.Tree

/-!
# Outputs beside their sources

The output that belongs to an input lies in the directory of the sources, so it must not be one of
them. Its name ends with `.asm` and theirs with the ending of the settings. If these endings differ,
a build leaves its sources alone and a second build does the same again. The settings also accept
`.asm` as the ending of sources; then a file is its own output.
-/

namespace HackStack.Build

open HackStack.Files

def outputExtension : Text := ".asm"

/-! ## Units of an input -/

def isSource (ext : Text) (p : Text × Bool) : Bool := !p.2 && extension p.1 == ext

theorem unitsIn_filter (l : Location) (ext : Text) (found : Array Unit)
    (names : List (Text × Bool)) :
    unitsIn l ext found (names.filter (isSource ext)) = unitsIn l ext found names := by
  induction names generalizing found with
  | nil => rfl
  | cons p names ih =>
      obtain ⟨name, isDirectory⟩ := p
      by_cases hp : isSource ext (name, isDirectory) = true
      · have hkept : (isDirectory || extension name != ext) = false := by
          simpa [isSource] using hp
        rw [List.filter_cons_of_pos hp, unitsIn, unitsIn]
        simp only [hkept, ih]
      · have hleft : (isDirectory || extension name != ext) = true := by
          cases isDirectory <;> simp_all [isSource]
        rw [List.filter_cons_of_neg hp, ih, unitsIn]
        simp only [hleft, if_true]

theorem dropEnding_append {t ending : Text} (h : ending <:+ t) :
    t.dropEnding ending ++ ending = t := by
  obtain ⟨stem, rfl⟩ := h
  rw [Text.dropEnding, if_pos (by simp)]
  simp

/-- A unit is a file in a directory, named by its name without the ending. -/
structure Unit.LiesIn (l : Location) (ext : Text) (u : Unit) : Prop where
  name : Vm.isIdentifier u.name = true
  ending : extension u.path = ext
  path : u.path = (l ++ [u.name ++ ext] : Location).path

theorem liesIn_of_unitsIn {l : Location} {ext : Text} (hext : ext ≠ [])
    {names : List (Text × Bool)} {found : Array Unit} {units : List Unit}
    (h : unitsIn l ext found names = .ok units) (hfound : ∀ u ∈ found, u.LiesIn l ext) :
    ∀ u ∈ units, u.LiesIn l ext := by
  fun_induction unitsIn l ext found names with
  | case1 found =>
      cases h
      simpa using hfound
  | case2 found name isDirectory rest hout ih => exact ih h hfound
  | case3 found name isDirectory rest hin u hname ih =>
      refine ih h fun v hv => ?_
      rcases Array.mem_push.mp hv with hv | rfl
      · exact hfound v hv
      · have hending : extension name = ext := by
          simp_all
        have hpath : u.path = (l.flatMap (slash :: ·) ++ [slash]) ++ name := by
          simp [u, Location.path_snoc]
        refine ⟨hname, ?_, ?_⟩
        · rw [hpath, extension_append _ (by rw [hending]; exact hext), hending]
        · rw [dropEnding_append (extension_suffix hending hext)]
  | case4 => cases h

/-- What it takes for an input to have units. -/
theorem resolve_cases {files : Tree} {cwd : Location} {path ext own : Text} {units : List Unit}
    (h : resolve files cwd path ext = .ok (units, own)) :
    (∃ c, files.find cwd (Location.ofPath cwd path).path = .ok (.file c) ∧
      extension (Location.ofPath cwd path).base = ext ∧
      units = [⟨(Location.ofPath cwd path).base.dropEnding ext, (Location.ofPath cwd path).path⟩] ∧
      own = (Location.ofPath cwd path).path.dropEnding ext ++ outputExtension) ∨
    (files.find cwd (Location.ofPath cwd path).path = .ok .directory ∧
      unitsIn (Location.ofPath cwd path) ext #[] (files.list (Location.ofPath cwd path)) =
        .ok units ∧
      own = ((Location.ofPath cwd path).descend
        ((Location.ofPath cwd path).base ++ outputExtension)).path) := by
  unfold resolve InputPlace.ofPath Tree.stat at h
  generalize Location.ofPath cwd path = l at *
  cases hfind : files.find cwd l.path with
  | error r => simp [hfind, Except.mapError, Except.map] at h
  | ok e =>
      simp only [hfind, Except.mapError, Except.map] at h
      cases e with
      | file c =>
          refine Or.inl ⟨c, rfl, ?_⟩
          simp only [reduceCtorEq, decide_false] at h
          by_cases hending : extension l.base = ext
          · by_cases hname : Vm.isIdentifier (l.base.dropEnding ext) = true
            · simp [hending, hname] at h
              exact ⟨hending, h.1.symm, h.2.symm⟩
            · simp [hending, hname] at h
          · simp [hending] at h
      | directory =>
          refine Or.inr ⟨rfl, ?_⟩
          simp only [decide_true] at h
          cases hunits : unitsIn l ext #[] (files.list l) with
          | error e => simp [hunits] at h
          | ok found =>
              cases found with
              | nil => simp [hunits] at h
              | cons u found =>
                  simp only [hunits] at h
                  cases h
                  exact ⟨rfl, rfl⟩

/-- An input has the same units in two trees if the same is at its place and the directories list
the same sources. -/
theorem resolve_congr {files files' : Tree} {cwd : Location} {path ext : Text}
    (hfind : files'.find cwd (Location.ofPath cwd path).path =
      files.find cwd (Location.ofPath cwd path).path)
    (hlist : ∀ l, (files'.list l).filter (isSource ext) = (files.list l).filter (isSource ext)) :
    resolve files' cwd path ext = resolve files cwd path ext := by
  have hunits : ∀ l, unitsIn l ext #[] (files'.list l) = unitsIn l ext #[] (files.list l) := by
    intro l
    rw [← unitsIn_filter, hlist, unitsIn_filter]
  have hplace : InputPlace.ofPath files' cwd path = InputPlace.ofPath files cwd path := by
    simp only [InputPlace.ofPath, Tree.stat, hfind]
  unfold resolve
  rw [hplace]
  simp only [hunits]

/-- A name with the ending of outputs is none of the names with a meaning of their own. -/
theorem outputName_ne (stem : Text) :
    stem ++ outputExtension ≠ "" ∧ stem ++ outputExtension ≠ "." ∧
      stem ++ outputExtension ≠ ".." := by
  have hlong : 2 < (stem ++ outputExtension).length := by
    rw [List.length_append]
    exact Nat.lt_of_lt_of_le (by decide) (Nat.le_add_left _ _)
  refine ⟨?_, ?_, ?_⟩ <;>
    · intro h
      rw [h] at hlong
      exact absurd hlong (by decide)

section Resolved

variable {files : Tree} {cwd : Location} {path ext own : Text} {units : List Unit}

theorem extension_of_resolve (h : resolve files cwd path ext = .ok (units, own)) (hext : ext ≠ []) :
    ∀ u ∈ units, extension u.path = ext := by
  rcases resolve_cases h with ⟨c, -, hending, rfl, -⟩ | ⟨-, hunits, -⟩
  · intro u hu
    rw [List.mem_singleton.mp hu]
    obtain ⟨before, hbefore⟩ := Location.base_suffix_path (Location.ofPath cwd path)
    rw [← hbefore, extension_append before (by rw [hending]; exact hext), hending]
  · exact fun u hu => (liesIn_of_unitsIn hext hunits (by simp) u hu).ending

theorem own_of_resolve (h : resolve files cwd path ext = .ok (units, own)) :
    ∃ stem, own = stem ++ outputExtension := by
  rcases resolve_cases h with ⟨c, -, -, -, rfl⟩ | ⟨-, -, rfl⟩
  · exact ⟨_, rfl⟩
  · generalize Location.ofPath cwd path = l
    have hslash : slash ∉ outputExtension := by decide
    obtain ⟨before, y, hsegments, -, -⟩ := segments_append l.base hslash
    refine ⟨(before.foldl Location.follow l).flatMap (slash :: ·) ++ slash :: y, ?_⟩
    rw [Location.descend, hsegments, List.foldl_concat, Location.follow_of_ne (outputName_ne y),
      Location.path_snoc, List.append_assoc, List.cons_append]

end Resolved

/-! ## Builds that read the same -/

theorem parseUnits_congr {source source' : Text → Except Failure Text} {units : List Unit}
    (h : ∀ u ∈ units, source' u.path = source u.path) (found : Array ParsedUnit) :
    parseUnits source' found units = parseUnits source found units := by
  induction units generalizing found with
  | nil => rfl
  | cons u units ih =>
      obtain ⟨hu, hunits⟩ := List.forall_mem_cons.mp h
      unfold parseUnits
      rw [hu]
      simp only [ih hunits]

/-- A build depends on the surroundings only by what it reads and by how the output takes its
code. -/
theorem build_congr {s s' : Surroundings} {units : List Unit} {out : Text}
    (hsource : ∀ u ∈ units, s'.source u.path = s.source u.path)
    (hcreate : s'.createFailure out = s.createFailure out) (hlimit : s'.limit = s.limit)
    (hclose : s'.closeFailure = s.closeFailure) (options : Lowering.Options) :
    build s' options units out = build s options units out := by
  have hemit : ∀ parsed, emitUnits s' options parsed out = emitUnits s options parsed out := by
    intro parsed
    simp only [emitUnits, Building.create, Building.write, Building.send, Building.finish,
      Building.close, hcreate, hlimit, hclose]
  simp only [build, parseUnits_congr hsource, hemit]

/-! ## The output among the files -/

section Written

variable {files : Tree} {cwd l : Location} {own : Text}

/-- The place of an output has its ending. -/
theorem getLast?_of_creatable {stem : Text}
    (h : files.creatable cwd (stem ++ outputExtension) = .ok l) :
    ∃ y, l.getLast? = some (y ++ outputExtension) := by
  obtain ⟨-, e, hlocate, -⟩ := Tree.creatable_eq_ok_iff.mp h
  have hslash : slash ∉ outputExtension := by decide
  obtain ⟨before, y, hsegments, -, -⟩ := segments_append stem hslash
  exact ⟨y, Tree.getLast?_of_locate hlocate hsegments (outputName_ne y)⟩

theorem not_directory_of_creatable (h : files.creatable cwd own = .ok l) :
    files.entry? l ≠ some .directory := by
  obtain ⟨-, e, hlocate, hne⟩ := Tree.creatable_eq_ok_iff.mp h
  obtain ⟨start, names, -, hwalk, -⟩ := Tree.locate_eq_ok_iff.mp hlocate
  rw [← Tree.eq_entry_of_walk hwalk]
  exact hne

theorem creatable_put (h : files.creatable cwd own = .ok l) (c : Text) :
    (files.put l (.file c)).creatable cwd own = .ok l := by
  obtain ⟨hslash, e, hlocate, -⟩ := Tree.creatable_eq_ok_iff.mp h
  exact Tree.creatable_eq_ok_iff.mpr ⟨hslash, _,
    Tree.locate_put_self (not_directory_of_creatable h) c hlocate hslash, nofun⟩

theorem find_directory_put (h : files.creatable cwd own = .ok l) (c : Text) {path : Text}
    (hpath : files.find cwd path = .ok .directory) :
    (files.put l (.file c)).find cwd path = .ok .directory := by
  obtain ⟨m, hlocate⟩ := Tree.find_eq_ok_iff.mp hpath
  have hm : m ≠ l := by
    rintro rfl
    obtain ⟨start, names, -, hwalk, -⟩ := Tree.locate_eq_ok_iff.mp hlocate
    exact not_directory_of_creatable h (Tree.eq_entry_of_walk hwalk).symm
  exact Tree.find_eq_ok_iff.mpr ⟨m, Tree.locate_put (not_directory_of_creatable h) c hlocate hm⟩

/-- A source is not touched when an output is written, because its name ends differently. -/
theorem find_source_put {stem : Text} (h : files.creatable cwd (stem ++ outputExtension) = .ok l)
    (c : Text) {path src : Text} (hpath : files.find cwd path = .ok (.file src))
    (hdot : extension path ≠ ".") (hending : extension path ≠ outputExtension) :
    (files.put l (.file c)).find cwd path = .ok (.file src) := by
  obtain ⟨m, hlocate⟩ := Tree.find_eq_ok_iff.mp hpath
  have hm : m ≠ l := by
    rintro rfl
    obtain ⟨y, hy⟩ := getLast?_of_creatable h
    obtain ⟨name, hname, before, hsuffix⟩ := Tree.getLast?_of_file hlocate hdot
    rw [hname, Option.some.injEq] at hy
    rw [← hsuffix, hy, ← List.append_assoc] at hending
    exact hending (extension_of_dot _ (by decide))
  exact Tree.find_eq_ok_iff.mpr ⟨m, Tree.locate_put (not_directory_of_creatable h) c hlocate hm⟩

theorem list_sources_put {stem ext : Text}
    (h : files.creatable cwd (stem ++ outputExtension) = .ok l) (c : Text)
    (hext : ext ≠ outputExtension) (m : Location) :
    ((files.put l (.file c)).list m).filter (isSource ext) =
      (files.list m).filter (isSource ext) := by
  obtain ⟨y, hy⟩ := getLast?_of_creatable h
  refine Tree.filter_list_put (Tree.ne_nil_of_not_directory (not_directory_of_creatable h)) files
    _ m fun name b hname => ?_
  rw [hy, Option.some.injEq] at hname
  subst hname
  have hending : extension (y ++ outputExtension) = outputExtension :=
    extension_of_dot y (by decide)
  simp [isSource, hending, hext.symm]

end Written

/-! ## Builds of files -/

section BuildFiles

variable {files : Tree} {cwd : Location} {settings : Settings} {path own : Text}
  {units : List Unit}

/-- The files after a build: either nothing was written, or all sources could be read and the code
was written to the output. -/
theorem buildFiles_files (h : resolve files cwd path settings.extension = .ok (units, own)) :
    (buildFiles files cwd settings path []).files = files ∨
    ∃ l, files.creatable cwd own = .ok l ∧
      (∀ u ∈ units, unitError? (.ofTree files cwd) u = none) ∧
      (build (.ofTree files cwd) settings.options units own).closed ≠ 0 ∧
      (buildFiles files cwd settings path []).files =
        files.put l (.file (build (.ofTree files cwd) settings.options units own).written) := by
  unfold buildFiles
  rw [h]
  simp only [List.isEmpty_nil, if_true]
  by_cases hclosed : (build (.ofTree files cwd) settings.options units own).closed = 0
  · exact Or.inl (if_pos hclosed)
  · simp only [if_neg hclosed]
    cases hcreate : files.creatable cwd own with
    | error e => exact Or.inl rfl
    | ok l =>
        refine Or.inr ⟨l, rfl, ?_, hclosed, rfl⟩
        by_contra hfails
        simp only [not_forall, exists_prop] at hfails
        obtain ⟨before, u, after, e, rfl, hbefore, hu⟩ := exists_first_unitError hfails
        rw [build_of_unitError hbefore hu] at hclosed
        exact hclosed rfl

theorem find_of_unitError {u : Unit} (h : unitError? (.ofTree files cwd) u = none) :
    ∃ src, files.find cwd u.path = .ok (.file src) := by
  obtain ⟨p, -, src, hsource, -⟩ := exists_isOf h
  refine ⟨src, ?_⟩
  simp only [Surroundings.ofTree, Tree.readFile, Tree.openFile] at hsource
  rcases hfind : files.find cwd u.path with r | c | _
  · simp [hfind, Except.mapError] at hsource
  · simp only [hfind, Except.mapError] at hsource
    cases hsource
    rfl
  · simp [hfind, Except.mapError] at hsource

theorem isExtension_of_fault? (h : settings.fault? = none) :
    Settings.isExtension settings.extension = true := by
  unfold Settings.fault? at h
  split at h
  · cases h
  · split at h
    · cases h
    · next hext => simpa using hext

theorem isExtension_ne {ext : Text} (h : Settings.isExtension ext = true) :
    ext ≠ [] ∧ ext ≠ "." := by
  constructor <;>
    · rintro rfl
      exact absurd h (by decide)

/-- The sources are the same for a build after an output was written. -/
theorem sources_put (hs : settings.fault? = none) (hext : settings.extension ≠ outputExtension)
    (h : resolve files cwd path settings.extension = .ok (units, own)) {l : Location}
    (hcreate : files.creatable cwd own = .ok l)
    (hread : ∀ u ∈ units, ∃ src, files.find cwd u.path = .ok (.file src)) (c : Text) :
    (∀ u ∈ units, (files.put l (.file c)).find cwd u.path = files.find cwd u.path) ∧
      resolve (files.put l (.file c)) cwd path settings.extension = .ok (units, own) := by
  obtain ⟨hnil, hdot⟩ := isExtension_ne (isExtension_of_fault? hs)
  have hending := extension_of_resolve h hnil
  obtain ⟨stem, rfl⟩ := own_of_resolve h
  have hunits : ∀ u ∈ units, (files.put l (.file c)).find cwd u.path = files.find cwd u.path := by
    intro u hu
    obtain ⟨src, hsrc⟩ := hread u hu
    rw [hsrc]
    exact find_source_put hcreate c hsrc (by rw [hending u hu]; exact hdot)
      (by rw [hending u hu]; exact hext)
  refine ⟨hunits, ?_⟩
  rw [← h]
  refine resolve_congr ?_ (list_sources_put hcreate c hext)
  rcases resolve_cases h with ⟨_, -, -, rfl, -⟩ | ⟨hdirectory, -, -⟩
  · exact hunits _ (List.mem_singleton.mpr rfl)
  · rw [hdirectory]
    exact find_directory_put hcreate c hdirectory

theorem buildFiles_put (h : resolve files cwd path settings.extension = .ok (units, own))
    {l : Location} {c : Text} (hcreate : files.creatable cwd own = .ok l)
    (hunits : ∀ u ∈ units, (files.put l (.file c)).find cwd u.path = files.find cwd u.path)
    (hresolve : resolve (files.put l (.file c)) cwd path settings.extension = .ok (units, own))
    (hclosed : (build (.ofTree files cwd) settings.options units own).closed ≠ 0)
    (hc : (build (.ofTree files cwd) settings.options units own).written = c) :
    buildFiles (files.put l (.file c)) cwd settings path [] =
      buildFiles files cwd settings path [] := by
  have hbuild : build (.ofTree (files.put l (.file c)) cwd) settings.options units own =
      build (.ofTree files cwd) settings.options units own := by
    refine build_congr (fun u hu => ?_) ?_ ?_ ?_ _
    · simp only [Surroundings.ofTree, Tree.readFile, Tree.openFile, hunits u hu]
    · simp only [Surroundings.ofTree, creatable_put hcreate c, hcreate]
    · rfl
    · rfl
  unfold buildFiles
  rw [h, hresolve]
  simp only [List.isEmpty_nil, if_true, hbuild, if_neg hclosed, creatable_put hcreate c, hcreate,
    hc, Tree.put_put]

/-- A file with the ending of outputs is its own output. -/
theorem own_of_file (h : resolve files cwd path outputExtension = .ok (units, own)) {c : Text}
    (hfile : files.find cwd (Location.ofPath cwd path).path = .ok (.file c)) :
    units.map (·.path) = [own] := by
  rcases resolve_cases h with ⟨_, -, hending, rfl, rfl⟩ | ⟨hdirectory, -, -⟩
  · have hsuffix : outputExtension <:+ (Location.ofPath cwd path).path :=
      (extension_suffix hending (by decide)).trans (Location.base_suffix_path _)
    rw [dropEnding_append hsuffix]
    rfl
  · rw [hfile] at hdirectory
    cases hdirectory

/-- The output of a directory lies in it and has its name. -/
theorem descend_output {l : Location} (hl : ∀ name ∈ l, slash ∉ name) (hne : l ≠ []) :
    l.descend (l.base ++ outputExtension) = l ++ [l.base ++ outputExtension] := by
  have hbase : slash ∉ l.base ++ outputExtension := by
    have hlast : slash ∉ l.base := by
      rw [Location.base, List.getLast?_eq_some_getLast hne, Option.getD_some]
      exact hl _ (List.getLast_mem hne)
    simp only [List.mem_append, not_or]
    exact ⟨hlast, by decide⟩
  rw [Location.descend, segments_of_notMem hbase]
  exact Location.follow_of_ne (outputName_ne l.base)

/-- The sources of a directory that end as outputs do are spared exactly if none of them has the
name of the directory. -/
theorem own_of_directory (h : resolve files cwd path outputExtension = .ok (units, own))
    (hcwd : ∀ name ∈ cwd, slash ∉ name)
    (hdirectory : files.find cwd (Location.ofPath cwd path).path = .ok .directory) :
    (∃ u ∈ units, u.path = own) ↔ ∃ u ∈ units, u.name = (Location.ofPath cwd path).base := by
  have hnames := Location.slash_notMem_ofPath hcwd path
  rcases resolve_cases h with ⟨_, hfile, -⟩ | ⟨-, hunits, rfl⟩
  · rw [hdirectory] at hfile
    cases hfile
  · have hlies := liesIn_of_unitsIn (by decide) hunits (by simp)
    generalize Location.ofPath cwd path = l at *
    refine exists_congr fun u => and_congr_right fun hu => ?_
    rw [(hlies u hu).path]
    by_cases hroot : l = []
    · -- the name would have to be empty or a slash, and neither is an identifier
      subst hroot
      have hroot : (Location.descend [] (Location.base [] ++ outputExtension)) =
          [outputExtension] := by decide
      have hname := (hlies u hu).name
      constructor
      · intro hpath
        rw [hroot] at hpath
        have hempty : u.name = [] := by simpa [Location.path] using hpath
        rw [hempty] at hname
        cases hname
      · intro hbase
        rw [hbase] at hname
        cases hname
    · rw [descend_output hnames hroot, Location.path_snoc, Location.path_snoc]
      simp

end BuildFiles

/-- **Sources are spared.** If the sources do not end as outputs do, the output that belongs to an
input is none of its sources. A build leaves them as they were, the input stands for the same units
afterwards, and a second build comes to the same as the first. Sources that end as outputs do are
accepted too. Then a file is its own output, and that of a directory is one of its sources exactly
if one has the name of the directory. -/
theorem build_spares_sources {files : Tree} {cwd : Location} {settings : Settings} {path own : Text}
    {units : List Unit} (hs : settings.fault? = none)
    (h : resolve files cwd path settings.extension = .ok (units, own)) :
    (settings.extension ≠ outputExtension →
      (∀ u ∈ units, u.path ≠ own) ∧
      (∀ u ∈ units, (buildFiles files cwd settings path []).files.readFile cwd u.path =
        files.readFile cwd u.path) ∧
      resolve (buildFiles files cwd settings path []).files cwd path settings.extension =
        .ok (units, own) ∧
      buildFiles (buildFiles files cwd settings path []).files cwd settings path [] =
        buildFiles files cwd settings path []) ∧
    (settings.extension = outputExtension →
      (∀ c, files.find cwd (Location.ofPath cwd path).path = .ok (.file c) →
        units.map (·.path) = [own]) ∧
      (files.find cwd (Location.ofPath cwd path).path = .ok .directory →
        (∀ name ∈ cwd, slash ∉ name) →
          ((∃ u ∈ units, u.path = own) ↔
            ∃ u ∈ units, u.name = (Location.ofPath cwd path).base))) := by
  refine ⟨fun hext => ⟨?_, ?_⟩, fun hext => ?_⟩
  · intro u hu hown
    obtain ⟨stem, rfl⟩ := own_of_resolve h
    have hending := extension_of_resolve h (isExtension_ne (isExtension_of_fault? hs)).1 u hu
    rw [hown] at hending
    exact hext (hending.symm.trans (extension_of_dot stem (by decide)))
  · rcases buildFiles_files h with hsame | ⟨l, hcreate, hnone, hclosed, hfiles⟩
    · rw [hsame]
      exact ⟨fun _ _ => rfl, h, rfl⟩
    · obtain ⟨hunits, hresolve⟩ := sources_put hs hext h hcreate
        (fun u hu => find_of_unitError (hnone u hu)) _
      rw [hfiles]
      refine ⟨fun u hu => ?_, hresolve, buildFiles_put h hcreate hunits hresolve hclosed rfl⟩
      simp only [Tree.readFile, Tree.openFile, hunits u hu]
  · rw [hext] at h
    exact ⟨fun c hfile => own_of_file h hfile, fun hdirectory hcwd =>
      own_of_directory h hcwd hdirectory⟩

/-- A directory with two sources and an older output. -/
def workspaceFiles : Tree where
  entries := [(["Prog"], .directory), (["Prog", "Main.vm"], .file "push constant 1\n"),
    (["Prog", "Prog.asm"], .file "old"), (["Prog", "Util.vm"], .file "pop static 0\n")]

theorem list_workspaceFiles : workspaceFiles.list ["Prog"] =
    ([("Main.vm", false), ("Prog.asm", false), ("Util.vm", false)] : List (Text × Bool)) := by
  have hinside : workspaceFiles.entries.filterMap (Tree.child? ["Prog"]) =
      ([("Main.vm", false), ("Prog.asm", false), ("Util.vm", false)] : List (Text × Bool)) := by
    decide +kernel
  rw [Tree.list_eq, hinside]
  exact List.mergeSort_of_pairwise (by decide +kernel)

theorem resolve_workspaceFiles : resolve workspaceFiles [] "Prog" ".vm" =
    .ok ([⟨"Main", "/Prog/Main.vm"⟩, ⟨"Util", "/Prog/Util.vm"⟩], "/Prog/Prog.asm") := by
  have hplace : InputPlace.ofPath workspaceFiles [] "Prog" = .ok ⟨["Prog"], true⟩ := by
    decide +kernel
  rw [resolve, hplace]
  simp only [list_workspaceFiles]
  decide +kernel

theorem build_spares_workspaceFiles :
    Settings.standard.fault? = none ∧
    resolve workspaceFiles [] "Prog" ".vm" =
      .ok ([⟨"Main", "/Prog/Main.vm"⟩, ⟨"Util", "/Prog/Util.vm"⟩], "/Prog/Prog.asm") ∧
    (buildFiles workspaceFiles [] .standard "Prog" []).files.readFile [] "/Prog/Main.vm" =
      .ok "push constant 1\n" ∧
    buildFiles (buildFiles workspaceFiles [] .standard "Prog" []).files [] .standard "Prog" [] =
      buildFiles workspaceFiles [] .standard "Prog" [] := by
  have hs : Settings.standard.fault? = none := by decide +kernel
  obtain ⟨hspared, -⟩ := build_spares_sources hs resolve_workspaceFiles
  obtain ⟨-, hkept, -, hagain⟩ := hspared (by decide)
  refine ⟨hs, resolve_workspaceFiles, ?_, hagain⟩
  rw [hkept ⟨"Main", "/Prog/Main.vm"⟩ (by simp)]
  decide +kernel

/-- A source that ends as outputs do. -/
def assemblySource : Tree where
  entries := [(["Foo.asm"], .file "push constant 1\n")]

/-- Settings under which sources end as outputs do. -/
def assemblySettings : Settings := { Settings.standard with extension := outputExtension }

/-- The settings are accepted, the build succeeds, and the source is lost: a second build cannot
read it. -/
theorem build_overwrites_assemblySource :
    assemblySettings.fault? = none ∧
    resolve assemblySource [] "Foo.asm" assemblySettings.extension =
      .ok ([⟨"Foo", "/Foo.asm"⟩], "/Foo.asm") ∧
    (buildFiles assemblySource [] assemblySettings "Foo.asm" []).result.isOk = true ∧
    (buildFiles assemblySource [] assemblySettings "Foo.asm" []).files.readFile [] "/Foo.asm" ≠
      assemblySource.readFile [] "/Foo.asm" ∧
    (buildFiles (buildFiles assemblySource [] assemblySettings "Foo.asm" []).files []
      assemblySettings "Foo.asm" []).result.isOk = false := by
  decide +kernel

end HackStack.Build
