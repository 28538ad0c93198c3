import HackStack.Proofs.Files.Path
import Mathlib.Data.List.Basic

/-!
# Writing one file

What a tree of files looks like after one file was written. A path that leads somewhere leads there
still (`locate_put`), and a directory lists the same names but for that of the file
(`filter_list_put`).
-/

namespace HackStack.Files

/-! ## The order of names -/

theorem textLe_total (s t : Text) : (textLe s t || textLe t s) = true := by
  induction s generalizing t with
  | nil => rfl
  | cons a s ih =>
      cases t with
      | nil => rfl
      | cons b t =>
          have hrest := ih t
          simp only [textLe, Bool.or_eq_true, Bool.and_eq_true, decide_eq_true_eq, beq_iff_eq]
            at hrest ⊢
          by_cases hab : a = b
          · rcases hrest with hrest | hrest
            · exact Or.inl (Or.inr ⟨hab, hrest⟩)
            · exact Or.inr (Or.inr ⟨hab.symm, hrest⟩)
          · rcases UInt8.lt_or_lt_of_ne hab with h | h
            · exact Or.inl (Or.inl h)
            · exact Or.inr (Or.inl h)

theorem textLe_trans {s t u : Text} (h : textLe s t = true) (h' : textLe t u = true) :
    textLe s u = true := by
  induction s generalizing t u with
  | nil => rfl
  | cons a s ih =>
      cases t with
      | nil => cases h
      | cons b t =>
          cases u with
          | nil => cases h'
          | cons c u =>
              simp only [textLe, Bool.or_eq_true, Bool.and_eq_true, decide_eq_true_eq,
                beq_iff_eq] at h h' ⊢
              rcases h with h | ⟨rfl, h⟩
              · rcases h' with h' | ⟨rfl, -⟩
                · exact Or.inl (UInt8.lt_trans h h')
                · exact Or.inl h
              · rcases h' with h' | ⟨rfl, h'⟩
                · exact Or.inl h'
                · exact Or.inr ⟨rfl, ih h h'⟩

section Sorting

variable {α : Type} {le : α → α → Bool}

/-- A list cut where the elements begin that are not below `a`. -/
theorem filter_cut {a : α} {low high : List α} (hlow : ∀ b ∈ low, (!le a b) = true)
    (hhigh : ∀ b ∈ high, le a b = true) :
    (low ++ high).filter (!le a ·) = low ∧ (low ++ high).filter (le a ·) = high := by
  have hlow' : ∀ b ∈ low, ¬ le a b = true := fun b hb => by simpa using hlow b hb
  have hhigh' : ∀ b ∈ high, ¬ (!le a b) = true := fun b hb => by simpa using hhigh b hb
  rw [List.filter_append, List.filter_append, List.filter_eq_self.mpr hlow,
    List.filter_eq_self.mpr hhigh, List.filter_eq_nil_iff.mpr hlow',
    List.filter_eq_nil_iff.mpr hhigh', List.append_nil, List.nil_append]
  exact ⟨rfl, rfl⟩

theorem exists_mergeSort_cut (htrans : ∀ a b c, le a b = true → le b c = true → le a c = true)
    (htotal : ∀ a b, (le a b || le b a) = true) (a : α) (l : List α) :
    ∃ low high, (a :: l).mergeSort le = low ++ a :: high ∧ l.mergeSort le = low ++ high ∧
      (∀ b ∈ low, (!le a b) = true) ∧ ∀ b ∈ high, le a b = true := by
  obtain ⟨low, high, hsort, hrest, hlow⟩ := List.mergeSort_cons htrans htotal a l
  have hsorted := List.pairwise_mergeSort htrans htotal (a :: l)
  rw [hsort] at hsorted
  exact ⟨low, high, hsort, hrest, hlow,
    (List.pairwise_cons.mp (List.pairwise_append.mp hsorted).2.1).1⟩

/-- Leaving elements out of a list and sorting it can be done in either order. -/
theorem filter_mergeSort (htrans : ∀ a b c, le a b = true → le b c = true → le a c = true)
    (htotal : ∀ a b, (le a b || le b a) = true) (p : α → Bool) (l : List α) :
    (l.mergeSort le).filter p = (l.filter p).mergeSort le := by
  induction l with
  | nil => simp
  | cons a l ih =>
      obtain ⟨low, high, hsort, hrest, hlow, hhigh⟩ := exists_mergeSort_cut htrans htotal a l
      rw [hrest, List.filter_append] at ih
      rw [hsort, List.filter_append]
      by_cases ha : p a = true
      · -- `a` cuts both sorted lists where the elements begin that are not below it
        obtain ⟨low', high', hsort', hrest', hlow', hhigh'⟩ :=
          exists_mergeSort_cut htrans htotal a (l.filter p)
        rw [hrest'] at ih
        have hlowp : ∀ b ∈ low.filter p, (!le a b) = true :=
          fun b hb => hlow b (List.mem_filter.mp hb).1
        have hhighp : ∀ b ∈ high.filter p, le a b = true :=
          fun b hb => hhigh b (List.mem_filter.mp hb).1
        obtain ⟨hl, hh⟩ := filter_cut hlowp hhighp
        obtain ⟨hl', hh'⟩ := filter_cut hlow' hhigh'
        rw [ih] at hl hh
        rw [List.filter_cons_of_pos ha, List.filter_cons_of_pos ha, hsort', ← hl, ← hh, hl', hh']
      · rw [List.filter_cons_of_neg ha, List.filter_cons_of_neg ha, ih]

end Sorting

namespace Tree

/-! ## Entries -/

theorem lookup_replace (entries : List (Location × Entry)) (l m : Location) (e : Entry) :
    (entries.map fun p => if p.1 = l then (l, e) else p).lookup m =
      if m = l then (entries.lookup l).map fun _ => e else entries.lookup m := by
  induction entries with
  | nil => simp
  | cons p entries ih =>
      obtain ⟨k, d⟩ := p
      by_cases hk : k = l
      · subst hk
        by_cases hm : m = k
        · subst hm
          simp
        · have hne : (m == k) = false := by simpa using hm
          simp only [List.map_cons, if_true, List.lookup_cons, hne, ih, hm, if_false]
      · by_cases hm : m = l
        · subst hm
          have hne : (m == k) = false := by simpa using Ne.symm hk
          simp only [List.map_cons, hk, if_false, List.lookup_cons, hne, ih, if_true]
        · simp only [List.map_cons, hk, if_false, List.lookup_cons, ih, hm]

theorem entry?_of_ne {l : Location} (hl : l ≠ []) (t : Tree) :
    t.entry? l = t.entries.lookup l := by
  unfold entry?
  rw [if_neg (by simpa using hl)]

theorem put_of_some {t : Tree} {l : Location} {d : Entry} (hl : l ≠ [])
    (h : t.entry? l = some d) (e : Entry) :
    t.put l e = ⟨t.entries.map fun p => if p.1 = l then (l, e) else p⟩ := by
  rw [entry?_of_ne hl] at h
  rw [put, if_neg (by simpa using hl), h]
  rfl

theorem put_of_none {t : Tree} {l : Location} (hl : l ≠ []) (h : t.entry? l = none) (e : Entry) :
    t.put l e = ⟨t.entries ++ [(l, e)]⟩ := by
  rw [entry?_of_ne hl] at h
  rw [put, if_neg (by simpa using hl), h]
  rfl

theorem entry?_put {l : Location} (hl : l ≠ []) (t : Tree) (e : Entry) (m : Location) :
    entry? (t.put l e) m = if m = l then some e else t.entry? m := by
  by_cases hm : m = []
  · subst hm
    rw [if_neg hl.symm]
    rfl
  · rw [entry?_of_ne hm, entry?_of_ne hm]
    cases hfound : t.entry? l with
    | some d =>
        rw [put_of_some hl hfound, lookup_replace, ← entry?_of_ne hl, hfound]
        rfl
    | none =>
        rw [put_of_none hl hfound, List.lookup_append]
        rw [entry?_of_ne hl] at hfound
        by_cases hml : m = l
        · subst hml
          simp [hfound]
        · have hne : (m == l) = false := by simpa using hml
          simp [hml, List.lookup_cons, hne]

/-- A file that is written a second time with the same content changes nothing. -/
theorem put_put (t : Tree) (l : Location) (e : Entry) : (t.put l e).put l e = t.put l e := by
  by_cases hl : l = []
  · subst hl
    rfl
  · have hkept : ∀ p ∈ (t.put l e).entries, (if p.1 = l then (l, e) else p) = p := by
      intro p hp
      split
      · next hkey =>
          cases hfound : t.entry? l with
          | some d =>
              rw [put_of_some hl hfound] at hp
              obtain ⟨q, -, rfl⟩ := List.mem_map.mp hp
              by_cases hq : q.1 = l
              · rw [if_pos hq]
              · rw [if_neg hq] at hkey
                exact absurd hkey hq
          | none =>
              rw [put_of_none hl hfound] at hp
              rcases List.mem_append.mp hp with hp | hp
              · rw [entry?_of_ne hl, List.lookup_eq_none_iff] at hfound
                exact absurd (hfound p hp) (by simp [hkey])
              · exact (List.mem_singleton.mp hp).symm
      · rfl
    have hfound : entry? (t.put l e) l = some e := by rw [entry?_put hl, if_pos rfl]
    rw [put_of_some hl hfound, List.map_congr_left hkept, List.map_id']

/-! ## Paths -/

theorem walk_cons_eq_ok_iff {t : Tree} {start : Location} {name : Text} {names : List Text}
    {found : Location × Option Entry} :
    t.walk start (name :: names) = .ok found ↔ t.entry? start = some .directory ∧
      ¬ maxName < name.length ∧ t.walk (start.follow name) names = .ok found := by
  rw [walk]
  rcases t.entry? start with _ | c | _
  · simp
  · simp
  · by_cases hlong : maxName < name.length <;> simp [hlong]

theorem eq_entry_of_walk {t : Tree} {start m : Location} {names : List Text} {e : Option Entry}
    (h : t.walk start names = .ok (m, e)) : e = t.entry? m := by
  induction names generalizing start with
  | nil =>
      cases h
      rfl
  | cons name names ih => exact ih (walk_cons_eq_ok_iff.mp h).2.2

theorem walk_snoc {t : Tree} {start : Location} {names : List Text} {name : Text}
    {found : Location × Option Entry} (h : t.walk start (names ++ [name]) = .ok found) :
    ∃ k : Location, found.1 = k.follow name := by
  induction names generalizing start with
  | nil =>
      obtain ⟨-, -, hwalk⟩ := walk_cons_eq_ok_iff.mp h
      cases hwalk
      exact ⟨start, rfl⟩
  | cons first names ih => exact ih (walk_cons_eq_ok_iff.mp h).2.2

theorem of_route {cwd start : Location} {path : Text} {names : List Text}
    (h : route cwd path = .ok (start, names)) :
    path ≠ [] ∧ names = (segments path).filter (!·.isEmpty) := by
  unfold route at h
  split at h
  · cases h
  · next hempty =>
      split at h
      · cases h
      · split at h
        · cases h
        · cases h
          exact ⟨by simpa using hempty, rfl⟩

theorem locate_eq_ok_iff {t : Tree} {cwd m : Location} {path : Text} {e : Option Entry} :
    t.locate cwd path = .ok (m, e) ↔ ∃ start names, route cwd path = .ok (start, names) ∧
      t.walk start names = .ok (m, e) ∧ (endsWithSlash path = true → ∀ c, e ≠ some (.file c)) := by
  unfold locate
  cases hroute : route cwd path with
  | error r => simp [bind, Except.bind]
  | ok r =>
      obtain ⟨start, names⟩ := r
      simp only [bind, Except.bind, Except.ok.injEq, Prod.mk.injEq, exists_and_left,
        exists_eq_left', and_assoc]
      cases hwalk : t.walk start names with
      | error r => simp
      | ok found =>
          obtain ⟨k, d⟩ := found
          rcases d with _ | c | _
          · refine (and_iff_left_of_imp ?_).symm
            rintro h - c
            cases h
            exact nofun
          · by_cases hslash : endsWithSlash path = true
            · simp only [hslash, if_true, true_imp_iff, reduceCtorEq, false_iff]
              rintro ⟨h, hfile⟩
              cases h
              exact hfile c rfl
            · simp [hslash]
          · refine (and_iff_left_of_imp ?_).symm
            rintro h - c
            cases h
            exact nofun

section Written

variable {t : Tree} {l : Location}

theorem ne_nil_of_not_directory (hl : t.entry? l ≠ some .directory) : l ≠ [] := by
  rintro rfl
  exact hl rfl

/-- Names that lead somewhere lead there still: on the way there are directories only, and no file
was written in the place of one. -/
theorem walk_put (hl : t.entry? l ≠ some .directory) (c : Text) {start m : Location}
    {names : List Text} {e : Option Entry} (h : t.walk start names = .ok (m, e)) :
    (t.put l (.file c)).walk start names = .ok (m, entry? (t.put l (.file c)) m) := by
  induction names generalizing start with
  | nil =>
      cases h
      rfl
  | cons name names ih =>
      obtain ⟨hstart, hname, hwalk⟩ := walk_cons_eq_ok_iff.mp h
      have hne : start ≠ l := by
        rintro rfl
        exact hl hstart
      refine walk_cons_eq_ok_iff.mpr ⟨?_, hname, ih hwalk⟩
      rw [entry?_put (ne_nil_of_not_directory hl), if_neg hne, hstart]

theorem locate_put (hl : t.entry? l ≠ some .directory) (c : Text) {cwd m : Location} {path : Text}
    {e : Option Entry} (h : t.locate cwd path = .ok (m, e)) (hm : m ≠ l) :
    (t.put l (.file c)).locate cwd path = .ok (m, e) := by
  obtain ⟨start, names, hroute, hwalk, hslash⟩ := locate_eq_ok_iff.mp h
  refine locate_eq_ok_iff.mpr ⟨start, names, hroute, ?_, hslash⟩
  rw [walk_put hl c hwalk, entry?_put (ne_nil_of_not_directory hl), if_neg hm,
    eq_entry_of_walk hwalk]

theorem locate_put_self (hl : t.entry? l ≠ some .directory) (c : Text) {cwd : Location}
    {path : Text} {e : Option Entry} (h : t.locate cwd path = .ok (l, e))
    (hpath : endsWithSlash path = false) :
    (t.put l (.file c)).locate cwd path = .ok (l, some (.file c)) := by
  obtain ⟨start, names, hroute, hwalk, -⟩ := locate_eq_ok_iff.mp h
  refine locate_eq_ok_iff.mpr ⟨start, names, hroute, ?_, by simp [hpath]⟩
  rw [walk_put hl c hwalk, entry?_put (ne_nil_of_not_directory hl), if_pos rfl]

end Written

/-- The place that a path leads to has the last name of the path. -/
theorem getLast?_of_locate {t : Tree} {cwd m : Location} {path name : Text} {before : List Text}
    {e : Option Entry} (h : t.locate cwd path = .ok (m, e))
    (hpath : segments path = before ++ [name]) (hname : name ≠ "" ∧ name ≠ "." ∧ name ≠ "..") :
    m.getLast? = some name := by
  obtain ⟨start, names, hroute, hwalk, -⟩ := locate_eq_ok_iff.mp h
  have hnames : names = before.filter (!·.isEmpty) ++ [name] := by
    have hsolid : name.isEmpty = false := List.isEmpty_eq_false_iff.mpr hname.1
    rw [(of_route hroute).2, hpath]
    simp [hsolid]
  rw [hnames] at hwalk
  obtain ⟨k, hk⟩ := walk_snoc hwalk
  rw [show m = k.follow name from hk, Location.follow_of_ne hname, List.getLast?_concat]

/-- The last name of a file's place is an ending of every path that leads to it, if the path does
not end with a lone dot. -/
theorem getLast?_of_file {t : Tree} {cwd m : Location} {path c : Text}
    (h : t.locate cwd path = .ok (m, some (.file c))) (hdot : extension path ≠ ".") :
    ∃ name, m.getLast? = some name ∧ name <:+ path := by
  obtain ⟨start, names, hroute, -, hslash⟩ := locate_eq_ok_iff.mp h
  obtain ⟨before, name, hsegments, hsuffix, hempty⟩ := segments_append path (s := []) (by simp)
  rw [List.append_nil, List.append_nil] at hsegments
  have hpath := (of_route hroute).1
  have hends : endsWithSlash path ≠ true := fun hends => hslash hends c rfl
  have hname : name ≠ "" ∧ name ≠ "." ∧ name ≠ ".." := by
    refine ⟨fun hnil => ?_, ?_, ?_⟩
    · rcases hempty hnil with h | h
      · exact hpath h
      · exact hends h
    · rintro rfl
      obtain ⟨stem, rfl⟩ := hsuffix
      exact hdot (extension_of_dot stem (s := []) (by simp))
    · rintro rfl
      obtain ⟨stem, rfl⟩ := hsuffix
      have hlast : stem ++ ".." = (stem ++ ".") ++ "." := (List.append_assoc stem "." ".").symm
      rw [hlast] at hdot
      exact hdot (extension_of_dot (stem ++ ".") (s := []) (by simp))
  exact ⟨name, getLast?_of_locate h hsegments hname, hsuffix⟩

theorem find_eq_ok_iff {t : Tree} {cwd : Location} {path : Text} {e : Entry} :
    t.find cwd path = .ok e ↔ ∃ m, t.locate cwd path = .ok (m, some e) := by
  unfold find
  rcases t.locate cwd path with r | ⟨m, _ | d⟩ <;> simp

theorem creatable_eq_ok_iff {t : Tree} {cwd l : Location} {path : Text} :
    t.creatable cwd path = .ok l ↔ endsWithSlash path = false ∧
      ∃ e, t.locate cwd path = .ok (l, e) ∧ e ≠ some .directory := by
  unfold creatable
  by_cases hslash : endsWithSlash path = true
  · simp [hslash]
  · rcases t.locate cwd path with r | ⟨m, _ | c | _⟩ <;> simp [hslash]

/-! ## Listings -/

/-- The name of an entry in a directory, with whether it is a directory itself. -/
def child? (l : Location) (p : Location × Entry) : Option (Text × Bool) :=
  match p.1.getLast? with
  | some name => if p.1.dropLast = l then some (name, decide (p.2 = .directory)) else none
  | none => none

theorem list_eq (t : Tree) (l : Location) :
    t.list l = (t.entries.filterMap (child? l)).mergeSort fun a b => textLe a.1 b.1 := rfl

theorem child?_eq_some {l : Location} {p : Location × Entry} {name : Text} {b : Bool}
    (h : child? l p = some (name, b)) : p.1.getLast? = some name := by
  unfold child? at h
  split at h
  · next hlast =>
      split at h
      · cases h
        exact hlast
      · cases h
  · cases h

/-- A directory lists the same names after a file was written, but for the name of that file. -/
theorem filter_list_put {l : Location} (hl : l ≠ []) (t : Tree) (e : Entry) (m : Location)
    {p : Text × Bool → Bool} (hp : ∀ name b, l.getLast? = some name → p (name, b) = false) :
    ((t.put l e).list m).filter p = (t.list m).filter p := by
  have hout : ∀ q : Location × Entry, q.1 = l → (child? m q).filter p = none := by
    rintro q rfl
    cases hchild : child? m q with
    | none => rfl
    | some r =>
        obtain ⟨name, b⟩ := r
        have hname := hp name b (child?_eq_some hchild)
        simp [Option.filter, hname]
  have hentries : (t.put l e).entries.filterMap (fun q => (child? m q).filter p) =
      t.entries.filterMap fun q => (child? m q).filter p := by
    cases hfound : t.entry? l with
    | some d =>
        rw [put_of_some hl hfound, List.filterMap_map]
        refine List.filterMap_congr fun q _ => ?_
        by_cases hq : q.1 = l
        · rw [Function.comp, if_pos hq, hout q hq, hout (l, e) rfl]
        · rw [Function.comp, if_neg hq]
    | none => simp [put_of_none hl hfound, List.filterMap_append, hout (l, e) rfl]
  have hsort : ∀ names : List (Text × Bool),
      (names.mergeSort fun a b => textLe a.1 b.1).filter p =
        (names.filter p).mergeSort fun a b => textLe a.1 b.1 := by
    refine filter_mergeSort ?_ ?_ p
    · exact fun _ _ _ hab hbc => textLe_trans hab hbc
    · exact fun a b => textLe_total a.1 b.1
  rw [list_eq, list_eq, hsort, hsort, List.filter_filterMap, List.filter_filterMap, hentries]

end Tree

end HackStack.Files
