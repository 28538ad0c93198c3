import HackStack.Text.Basic

/-!
# Decimal numerals

`Text.ofNat` writes a number without leading zeros, and `Text.natUpTo?` reads any string of digits
up to a bound. The value of a digit string is the fold `numeralValue`; writing and reading are
related through it:

- `numeralValue_ofNat`: a written numeral has the value it was written for, so numerals are
  injective;
- `length_ofNat_numeralValue_le`: no digit string is shorter than the numeral of its value;
- `natUpTo?_eq_some_iff`: the bounded reader accepts exactly the digit strings whose value is
  within the bound, although it stops counting above it.
-/

namespace HackStack.Text

/-- The number that a string of digits spells. -/
def numeralValue (t : Text) : Nat := t.foldl (fun n b => 10 * n + (b.toNat - 0x30)) 0

/-! ## Digits of a numeral -/

def digit (n : Nat) : UInt8 := n.digitChar.toNat.toUInt8

theorem digit_facts : ∀ n < 10, isDigit (digit n) = true ∧ (digit n).toNat - 0x30 = n := by
  decide

theorem ofNat_of_lt {n : Nat} (h : n < 10) : ofNat n = [digit n] := by
  rw [ofNat, Nat.toDigits_of_lt_base h]
  rfl

theorem ofNat_of_le {n : Nat} (h : 10 ≤ n) : ofNat n = ofNat (n / 10) ++ [digit (n % 10)] := by
  rw [ofNat, Nat.toDigits_of_base_le (by decide) h, List.map_append]
  rfl

theorem ofNat_ne_nil (n : Nat) : ofNat n ≠ [] := by
  rw [ofNat, Ne, List.map_eq_nil_iff]
  exact Nat.toDigits_ne_nil

theorem all_isDigit_ofNat (n : Nat) : (ofNat n).all isDigit = true := by
  induction n using Nat.strongRecOn with
  | ind n ih =>
      rcases Nat.lt_or_ge n 10 with h | h
      · rw [ofNat_of_lt h]
        simp [(digit_facts n h).1]
      · rw [ofNat_of_le h, List.all_append, ih (n / 10) (by omega)]
        simp [(digit_facts (n % 10) (by omega)).1]

theorem numeralValue_append_digit (t : Text) (b : UInt8) :
    numeralValue (t ++ [b]) = 10 * numeralValue t + (b.toNat - 0x30) := by
  simp [numeralValue]

theorem numeralValue_ofNat (n : Nat) : numeralValue (ofNat n) = n := by
  induction n using Nat.strongRecOn with
  | ind n ih =>
      rcases Nat.lt_or_ge n 10 with h | h
      · rw [ofNat_of_lt h]
        show 10 * 0 + _ = n
        rw [(digit_facts n h).2]
        omega
      · rw [ofNat_of_le h, numeralValue_append_digit, ih (n / 10) (by omega),
          (digit_facts (n % 10) (by omega)).2]
        omega

theorem ofNat_injective {m n : Nat} (h : ofNat m = ofNat n) : m = n := by
  rw [← numeralValue_ofNat m, h, numeralValue_ofNat]

theorem ofInt_natCast (n : Nat) : ofInt n = ofNat n := by
  rw [ofInt, if_neg (by omega), Int.natAbs_natCast]

/-! ## The shortest numeral -/

theorem isDigit_value_lt {b : UInt8} (h : isDigit b = true) : b.toNat - 0x30 < 10 := by
  simp only [isDigit, Bool.and_eq_true, decide_eq_true_eq, UInt8.le_iff_toNat_le] at h
  have hlast : b.toNat ≤ 0x39 := h.2
  omega

/-- Leading zeros can only make a numeral longer. -/
theorem length_ofNat_numeralValue_le {t : Text} (hne : t ≠ []) (h : t.all isDigit = true) :
    (ofNat (numeralValue t)).length ≤ t.length := by
  -- the value grows tenfold with each digit at most
  have hgrow (n : Nat) :
      t.foldl (fun n b => 10 * n + (b.toNat - 0x30)) n < (n + 1) * 10 ^ t.length := by
    rw [List.all_eq_true] at h
    clear hne
    induction t generalizing n with
    | nil => simp
    | cons b t ih =>
        obtain ⟨hb, ht⟩ := List.forall_mem_cons.mp h
        have hdigit := isDigit_value_lt hb
        calc t.foldl (fun n b => 10 * n + (b.toNat - 0x30)) (10 * n + (b.toNat - 0x30))
            < (10 * n + (b.toNat - 0x30) + 1) * 10 ^ t.length := ih ht _
          _ ≤ ((n + 1) * 10) * 10 ^ t.length := Nat.mul_le_mul_right _ (by omega)
          _ = (n + 1) * 10 ^ (b :: t).length := by rw [List.length_cons, Nat.pow_succ]; ac_rfl
  have hlt := hgrow 0
  rw [Nat.zero_add, Nat.one_mul] at hlt
  rw [ofNat, List.length_map]
  exact (Nat.length_toDigits_le_iff (by decide) (List.length_pos_iff.mpr hne)).mpr hlt

/-! ## Reading with a bound -/

/-- A count that is cut off at `bound + 1` after every digit ends as the true count, cut off once. -/
theorem foldl_capped (bound : Nat) (t : Text) (n : Nat) :
    t.foldl (fun n b => min (bound + 1) (10 * n + (b.toNat - 0x30))) (min (bound + 1) n) =
      min (bound + 1) (t.foldl (fun n b => 10 * n + (b.toNat - 0x30)) n) := by
  induction t generalizing n with
  | nil => rfl
  | cons b t ih =>
      have hcut : min (bound + 1) (10 * min (bound + 1) n + (b.toNat - 0x30)) =
          min (bound + 1) (10 * n + (b.toNat - 0x30)) := by omega
      rw [List.foldl_cons, List.foldl_cons, hcut, ih]

theorem natUpTo?_eq_some_iff {bound : Nat} {t : Text} {n : Nat} :
    natUpTo? bound t = some n ↔
      t ≠ [] ∧ t.all isDigit = true ∧ numeralValue t = n ∧ n ≤ bound := by
  have hfold : t.foldl (fun n b => min (bound + 1) (10 * n + (b.toNat - 0x30))) 0 =
      min (bound + 1) (numeralValue t) := by
    have h := foldl_capped bound t 0
    rwa [Nat.min_zero] at h
  rw [natUpTo?, hfold]
  by_cases hd : (!t.isEmpty && t.all isDigit) = true
  · rw [if_pos hd]
    rw [Bool.and_eq_true, Bool.not_eq_true', List.isEmpty_eq_false_iff] at hd
    simp only [hd.1, hd.2, ne_eq, not_false_eq_true, true_and]
    constructor
    · intro h
      split at h
      · simp only [Option.some.injEq] at h
        omega
      · cases h
    · rintro ⟨rfl, hle⟩
      rw [if_pos (by omega), Nat.min_eq_right (by omega)]
  · rw [if_neg hd]
    rw [Bool.and_eq_true, Bool.not_eq_true', List.isEmpty_eq_false_iff] at hd
    constructor
    · intro h
      cases h
    · rintro ⟨hne, hall, _⟩
      exact absurd ⟨hne, hall⟩ hd

theorem natUpTo?_ofNat {bound n : Nat} (h : n ≤ bound) : natUpTo? bound (ofNat n) = some n :=
  natUpTo?_eq_some_iff.mpr ⟨ofNat_ne_nil n, all_isDigit_ofNat n, numeralValue_ofNat n, h⟩

end HackStack.Text
