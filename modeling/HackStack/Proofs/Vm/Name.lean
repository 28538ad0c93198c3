import HackStack.Vm.Name

/-!
# Names and numerals on bytes

The alphabet of names is written out here, and the two forms that a name is checked for are stated
without a reader: `isIdentifier` decides `IsName`, and `hasStaticForm` decides `IsStaticForm`.
-/

namespace HackStack.Vm

/-- The characters that may start a name. -/
def nameStarts : Text := "ABCDEFGHIJKLMNOPQRSTUVWXYZabcdefghijklmnopqrstuvwxyz_.:"

def digits : Text := "0123456789"

/-- A name: a character that may start one, and after it such characters and digits. -/
def IsName (t : Text) : Prop :=
  ∃ b rest, t = b :: rest ∧ b ∈ nameStarts ∧ ∀ a ∈ rest, a ∈ nameStarts ∨ a ∈ digits

/-- A numeral: one or more digits. -/
def IsNumeral (t : Text) : Prop := t ≠ [] ∧ ∀ b ∈ t, b ∈ digits

/-- A text whose last dot is followed by a numeral and nothing else. -/
def IsStaticForm (t : Text) : Prop := ∃ stem number, t = stem ++ "." ++ number ∧ IsNumeral number

theorem forall_byte {P : UInt8 → Prop} (h : ∀ n < 256, P (UInt8.ofNat n)) (b : UInt8) : P b := by
  have hb := h b.toNat b.toNat_lt
  rwa [UInt8.ofNat_toNat] at hb

theorem mem_nameStarts (b : UInt8) : b ∈ nameStarts ↔ isNameStart b = true := by
  constructor
  · have hall : ∀ a ∈ nameStarts, isNameStart a = true := by decide +kernel
    exact hall b
  · revert b
    apply forall_byte
    decide +kernel

theorem mem_digits (b : UInt8) : b ∈ digits ↔ Text.isDigit b = true := by
  constructor
  · have hall : ∀ a ∈ digits, Text.isDigit a = true := by decide +kernel
    exact hall b
  · revert b
    apply forall_byte
    decide +kernel

theorem isIdentifier_iff {t : Text} : isIdentifier t = true ↔ IsName t := by
  cases t with
  | nil =>
      constructor
      · intro h
        cases h
      · rintro ⟨b, rest, h, -⟩
        cases h
  | cons b rest =>
      simp only [isIdentifier, isNamePart, Bool.and_eq_true, List.all_eq_true, Bool.or_eq_true,
        ← mem_nameStarts, ← mem_digits]
      constructor
      · rintro ⟨hb, hrest⟩
        exact ⟨b, rest, rfl, hb, hrest⟩
      · rintro ⟨_, _, h, hb, hrest⟩
        cases h
        exact ⟨hb, hrest⟩

theorem isNumeral_iff {t : Text} : IsNumeral t ↔ t ≠ [] ∧ t.all Text.isDigit = true := by
  simp only [IsNumeral, mem_digits, List.all_eq_true]

theorem hasStaticForm_of_isStaticForm {t : Text} (h : IsStaticForm t) :
    hasStaticForm t = true := by
  obtain ⟨stem, number, rfl, hnumeral⟩ := h
  obtain ⟨hne, hall⟩ := isNumeral_iff.mp hnumeral
  have hdigits : ∀ b ∈ number.reverse, Text.isDigit b = true := fun b hb =>
    List.all_eq_true.mp hall b (List.mem_reverse.mp hb)
  have hreverse : (stem ++ "." ++ number).reverse = number.reverse ++ 0x2E :: stem.reverse := by
    rw [List.reverse_append, List.reverse_append]
    rfl
  have htake : (stem ++ "." ++ number).reverse.takeWhile Text.isDigit = number.reverse := by
    rw [hreverse, List.takeWhile_append_of_pos hdigits, List.takeWhile_cons_of_neg (by decide),
      List.append_nil]
  rw [hasStaticForm, htake, hreverse, List.getElem?_append_right (Nat.le_refl _)]
  simp [hne]

/-- The digits at the end of the text are the numeral, and the dot stands right before them. -/
theorem isStaticForm_of_hasStaticForm {t : Text} (h : hasStaticForm t = true) :
    IsStaticForm t := by
  rw [hasStaticForm, Bool.and_eq_true, Bool.not_eq_true', beq_iff_eq] at h
  obtain ⟨hne, hdot⟩ := h
  have hsplit : t.reverse.takeWhile Text.isDigit ++ t.reverse.dropWhile Text.isDigit = t.reverse :=
    List.takeWhile_append_dropWhile
  have hcut : ∀ number rest : Text, number ++ rest = t.reverse →
      t.reverse[number.length]? = some 0x2E → ∃ stem, rest = 0x2E :: stem := by
    intro number rest hsplit hdot
    rw [← hsplit, List.getElem?_append_right (Nat.le_refl _), Nat.sub_self] at hdot
    cases rest with
    | nil => cases hdot
    | cons b stem =>
        cases hdot
        exact ⟨stem, rfl⟩
  obtain ⟨stem, hstem⟩ := hcut _ _ hsplit hdot
  refine ⟨stem.reverse, (t.reverse.takeWhile Text.isDigit).reverse, ?_, isNumeral_iff.mpr ⟨?_, ?_⟩⟩
  · have hreverse := congrArg List.reverse hsplit
    rw [hstem, List.reverse_append, List.reverse_cons, List.reverse_reverse] at hreverse
    exact hreverse.symm
  · rw [Ne, List.reverse_eq_nil_iff, ← List.isEmpty_iff, hne]
    decide
  · rw [List.all_reverse, List.all_takeWhile]

theorem hasStaticForm_iff {t : Text} : hasStaticForm t = true ↔ IsStaticForm t :=
  ⟨isStaticForm_of_hasStaticForm, hasStaticForm_of_isStaticForm⟩

end HackStack.Vm
