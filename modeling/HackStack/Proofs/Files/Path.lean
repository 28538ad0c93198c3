import HackStack.Files.Tree

/-!
# Endings of names and paths

The ending of a name is decided by its last dot, so it is also the ending of every longer text that
ends with the name (`extension_append`). The last name of a path is what follows its last slash
(`segments_append`), and the place that the path leads to has this last name.
-/

namespace HackStack.Files

/-! ## Endings -/

theorem extension_of_dot (stem : Text) {s : Text} (h : (0x2E : UInt8) ∉ s) :
    extension (stem ++ 0x2E :: s) = 0x2E :: s := by
  have htail : (stem ++ 0x2E :: s).reverse.takeWhile (· != 0x2E) = s.reverse := by
    have hs : ∀ b ∈ s.reverse, (b != 0x2E) = true := by
      intro b hb
      rw [bne_iff_ne]
      rintro rfl
      exact h (List.mem_reverse.mp hb)
    rw [List.reverse_append, List.reverse_cons, List.append_assoc,
      List.takeWhile_append_of_pos hs, List.singleton_append,
      List.takeWhile_cons_of_neg (by decide), List.append_nil]
  rw [extension, htail]
  simp only [List.length_reverse, List.length_append, List.length_cons, List.reverse_reverse]
  rw [if_pos (by omega)]

/-- A name with an ending ends with it, and the ending has one dot. -/
theorem exists_of_extension {t ext : Text} (h : extension t = ext) (hne : ext ≠ []) :
    ∃ stem s, ext = 0x2E :: s ∧ (0x2E : UInt8) ∉ s ∧ t = stem ++ 0x2E :: s := by
  rw [extension] at h
  have hsplit : t.reverse.takeWhile (· != 0x2E) ++ t.reverse.dropWhile (· != 0x2E) = t.reverse :=
    List.takeWhile_append_dropWhile
  have hplain : ∀ b ∈ t.reverse.takeWhile (· != 0x2E), (b != 0x2E) = true :=
    List.all_eq_true.mp List.all_takeWhile
  generalize t.reverse.takeWhile (· != 0x2E) = tail at *
  cases hrest : t.reverse.dropWhile (· != 0x2E) with
  | nil =>
      rw [hrest, List.append_nil] at hsplit
      have hlength : ¬ tail.length < t.length := by
        rw [hsplit, List.length_reverse]
        omega
      exact absurd (h.symm.trans (if_neg hlength)) hne
  | cons b stem =>
      have hb : b = 0x2E := by
        have hhead := List.head?_dropWhile_not (· != 0x2E) t.reverse
        rw [hrest] at hhead
        simpa using hhead
      subst hb
      rw [hrest] at hsplit
      have ht : t = stem.reverse ++ 0x2E :: tail.reverse := by
        rw [← List.reverse_reverse t, ← hsplit]
        simp
      have hdot : (0x2E : UInt8) ∉ tail.reverse := by
        intro hm
        have hbyte := hplain _ (List.mem_reverse.mp hm)
        exact absurd hbyte (by decide)
      refine ⟨stem.reverse, tail.reverse, ?_, hdot, ht⟩
      rw [← h, if_pos]
      rw [ht]
      simp
      omega

theorem extension_suffix {t ext : Text} (h : extension t = ext) (hne : ext ≠ []) : ext <:+ t := by
  obtain ⟨stem, s, rfl, -, rfl⟩ := exists_of_extension h hne
  exact ⟨stem, rfl⟩

/-- What stands before a name does not change its ending. -/
theorem extension_append (before : Text) {t : Text} (h : extension t ≠ []) :
    extension (before ++ t) = extension t := by
  obtain ⟨stem, s, hext, hdot, rfl⟩ := exists_of_extension rfl h
  rw [← List.append_assoc, extension_of_dot _ hdot, extension_of_dot _ hdot]

/-! ## Names of a path -/

theorem exists_last_slash {path : Text} (h : slash ∈ path) :
    ∃ before y, path = before ++ slash :: y ∧ slash ∉ y := by
  obtain ⟨y, before, hsplit, hy⟩ := List.eq_append_cons_of_mem (List.mem_reverse.mpr h)
  refine ⟨before.reverse, y.reverse, ?_, mt List.mem_reverse.mp hy⟩
  rw [← List.reverse_reverse path, hsplit]
  simp

theorem segments_of_notMem {path : Text} (h : slash ∉ path) : segments path = [path] :=
  List.splitOn_eq_singleton h

theorem segments_snoc (before : Text) {y : Text} (hy : slash ∉ y) :
    segments (before ++ slash :: y) = segments before ++ [y] := by
  have hcut : (before ++ slash :: y).splitOn slash = before.splitOn slash ++ y.splitOn slash :=
    List.splitOnP_append_cons before y (by simp)
  rw [segments, segments, hcut, List.splitOn_eq_singleton hy]

theorem slash_notMem_segments (path : Text) : ∀ name ∈ segments path, slash ∉ name := by
  induction hn : path.length using Nat.strongRecOn generalizing path with
  | ind n ih =>
      by_cases hslash : slash ∈ path
      · obtain ⟨before, y, rfl, hy⟩ := exists_last_slash hslash
        rw [segments_snoc before hy, List.forall_mem_append, List.forall_mem_singleton]
        have hlt : before.length < n := by
          rw [← hn]
          simp
        exact ⟨ih _ hlt before rfl, hy⟩
      · rw [segments_of_notMem hslash, List.forall_mem_singleton]
        exact hslash

/-- The last name of a path ends as the path does. It is empty only if the path is, or ends with a
slash. -/
theorem segments_append (path : Text) {s : Text} (h : slash ∉ s) :
    ∃ before y, segments (path ++ s) = before ++ [y ++ s] ∧ y <:+ path ∧
      (y = [] → path = [] ∨ Tree.endsWithSlash path = true) := by
  by_cases hslash : slash ∈ path
  · obtain ⟨before, y, rfl, hy⟩ := exists_last_slash hslash
    refine ⟨segments before, y, ?_, ⟨before ++ [slash], by simp⟩, ?_⟩
    · have hlast : slash ∉ y ++ s := by simp [hy, h]
      rw [← segments_snoc before hlast, List.append_assoc, List.cons_append]
    · rintro rfl
      exact Or.inr (by simp [Tree.endsWithSlash])
  · have hlast : slash ∉ path ++ s := by simp [hslash, h]
    exact ⟨[], path, segments_of_notMem hlast, List.suffix_rfl, Or.inl⟩

namespace Location

theorem path_snoc (l : Location) (name : Text) :
    (l ++ [name]).path = l.flatMap (slash :: ·) ++ slash :: name := by
  cases l <;> simp [path]

/-- The path of a place ends with its last name. -/
theorem base_suffix_path (l : Location) : l.base <:+ l.path := by
  rcases List.eq_nil_or_concat l with rfl | ⟨m, name, rfl⟩
  · exact ⟨[], by decide⟩
  · refine ⟨m.flatMap (slash :: ·) ++ [slash], ?_⟩
    rw [List.concat_eq_append, path_snoc]
    simp [base]

theorem slash_notMem_follow {l : Location} {s : Text} (hl : ∀ name ∈ l, slash ∉ name)
    (hs : slash ∉ s) : ∀ name ∈ l.follow s, slash ∉ name := by
  intro name hname
  unfold follow at hname
  split at hname
  · exact hl name hname
  · split at hname
    · exact hl name (List.dropLast_subset l hname)
    · rcases List.mem_append.mp hname with hname | hname
      · exact hl name hname
      · rw [List.mem_singleton.mp hname]
        exact hs

/-- The names on the way to a place have no slashes. -/
theorem slash_notMem_ofPath {cwd : Location} (hcwd : ∀ name ∈ cwd, slash ∉ name) (path : Text) :
    ∀ name ∈ ofPath cwd path, slash ∉ name := by
  have hstart : ∀ name ∈ (if path.head? = some slash then [] else cwd : Location),
      slash ∉ name := by
    split
    · simp
    · exact hcwd
  exact List.foldlRecOn (segments path) follow
    (motive := fun l : Location => ∀ name ∈ l, slash ∉ name) hstart
    fun _ hl s hs => slash_notMem_follow hl (slash_notMem_segments path s hs)

theorem follow_of_ne {l : Location} {name : Text} (h : name ≠ "" ∧ name ≠ "." ∧ name ≠ "..") :
    l.follow name = l ++ [name] := by
  rw [follow, if_neg (by simp [h.1, h.2.1]), if_neg h.2.2]

end Location

end HackStack.Files
