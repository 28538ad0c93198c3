import HackStack.Assembly.Symbol
import HackStack.Lowering.Symbol
import HackStack.Proofs.Text.Numeral
import HackStack.Proofs.Vm.Name

/-!
# Symbols of generated code do not collide

Generated code names four kinds of things: static variables, user labels, return addresses and
functions. `CodeSymbol` tells them apart as data and `CodeSymbol.text` spells them.

- `CodeSymbol.text_injective`: on admissible names the spelling is injective, within each kind and
  between kinds. The number of `$` separates the kinds, up to functions and static variables, which
  have none; these two are separated by what follows the last dot.
- `CodeSymbol.text_notMem_predefined`: only a function can be spelled like a predefined symbol.
-/

namespace HackStack.Lowering

open HackStack.Assembly
open HackStack.Vm

/-- What a symbol of generated code stands for. -/
inductive CodeSymbol where
  /-- The static variable of a unit with an index. -/
  | cell (unit : Text) (index : Nat)
  /-- A label of a scope. -/
  | label (scope name : Text)
  /-- The place where the call with a number, made in a scope, goes on. -/
  | back (scope : Text) (number : Nat)
  /-- The start of a function. -/
  | function (name : Text)
  deriving DecidableEq, Repr

namespace CodeSymbol

def text : CodeSymbol → Text
  | cell unit index => cellSymbol unit index
  | label scope name => labelSymbol scope name
  | back scope number => returnSymbol scope number
  | function name => name

/-- The names in a symbol are identifiers, and a function has none of the names that are kept for
static variables. -/
def Admissible : CodeSymbol → Prop
  | cell unit _ => isIdentifier unit = true
  | label scope name => isIdentifier scope = true ∧ isIdentifier name = true
  | back scope _ => isIdentifier scope = true
  | function name => isFunctionName name = true

def isFunction : CodeSymbol → Bool
  | function _ => true
  | _ => false

/-- Whether a symbol stands for a place where a call goes on. -/
def isBack : CodeSymbol → Bool
  | back _ _ => true
  | _ => false

end CodeSymbol

/-! ## Bytes of names and numerals -/

theorem isNamePart_of_mem {t : Text} (h : isIdentifier t = true) {b : UInt8} (hb : b ∈ t) :
    isNamePart b = true := by
  cases t with
  | nil => cases hb
  | cons a t =>
      rw [isIdentifier, Bool.and_eq_true, List.all_eq_true] at h
      rcases List.mem_cons.mp hb with rfl | hb
      · rw [isNamePart, h.1, Bool.true_or]
      · exact h.2 b hb

theorem dollar_notMem_name {t : Text} (h : isIdentifier t = true) : (0x24 : UInt8) ∉ t :=
  fun hm => absurd (isNamePart_of_mem h hm) (by decide)

theorem dollar_notMem_ofNat (n : Nat) : (0x24 : UInt8) ∉ Text.ofNat n :=
  fun hm => absurd (List.all_eq_true.mp (Text.all_isDigit_ofNat n) _ hm) (by decide)

theorem dot_notMem_ofNat (n : Nat) : (0x2E : UInt8) ∉ Text.ofNat n :=
  fun hm => absurd (List.all_eq_true.mp (Text.all_isDigit_ofNat n) _ hm) (by decide)

theorem isIdentifier_of_isFunctionName {t : Text} (h : isFunctionName t = true) :
    isIdentifier t = true := by
  rw [isFunctionName, Bool.and_eq_true] at h
  exact h.1

/-! ## The three spellings, cut at their separators -/

/-- Where a separator first occurs, a text can be cut in one way only. -/
theorem eq_of_first_separator {a : UInt8} {x y z w : Text} (hx : a ∉ x) (hy : a ∉ y)
    (h : x ++ a :: z = y ++ a :: w) : x = y ∧ z = w := by
  induction x generalizing y with
  | nil =>
      cases y with
      | nil => exact ⟨rfl, (List.cons.inj h).2⟩
      | cons c y => exact absurd (List.cons.inj h).1 fun e => hy (e ▸ List.mem_cons_self)
  | cons b x ih =>
      cases y with
      | nil => exact absurd (List.cons.inj h).1.symm fun e => hx (e ▸ List.mem_cons_self)
      | cons c y =>
          obtain ⟨rfl, hrest⟩ := List.cons.inj h
          obtain ⟨rfl, rfl⟩ := ih (fun hm => hx (List.mem_cons_of_mem _ hm))
            (fun hm => hy (List.mem_cons_of_mem _ hm)) hrest
          exact ⟨rfl, rfl⟩

theorem cellSymbol_eq (unit : Text) (index : Nat) :
    cellSymbol unit index = unit ++ 0x2E :: Text.ofNat index := by
  rw [cellSymbol, Text.ofInt_natCast, List.append_assoc]
  rfl

theorem labelSymbol_eq (scope name : Text) : labelSymbol scope name = scope ++ 0x24 :: name := by
  rw [labelSymbol, List.append_assoc]
  rfl

theorem returnSymbol_eq (scope : Text) (number : Nat) :
    returnSymbol scope number =
      scope ++ 0x24 :: (("ret" : Text) ++ 0x24 :: Text.ofNat number) := by
  rw [returnSymbol, labelSymbol_eq, Text.ofInt_natCast]
  simp only [List.append_assoc, List.cons_append]
  rfl

/-- A numeral ends at the last dot, whatever stands before it. -/
theorem cellSymbol_injective {u v : Text} {i j : Nat} (h : cellSymbol u i = cellSymbol v j) :
    u = v ∧ i = j := by
  rw [cellSymbol_eq, cellSymbol_eq] at h
  have hr := congrArg List.reverse h
  simp only [List.reverse_append, List.reverse_cons, List.append_assoc, List.cons_append,
    List.nil_append] at hr
  obtain ⟨hnum, hunit⟩ := eq_of_first_separator (mt List.mem_reverse.mp (dot_notMem_ofNat i))
    (mt List.mem_reverse.mp (dot_notMem_ofNat j)) hr
  exact ⟨List.reverse_inj.mp hunit, Text.ofNat_injective (List.reverse_inj.mp hnum)⟩

theorem labelSymbol_injective {s t m n : Text} (hs : isIdentifier s = true)
    (ht : isIdentifier t = true) (h : labelSymbol s m = labelSymbol t n) : s = t ∧ m = n := by
  rw [labelSymbol_eq, labelSymbol_eq] at h
  exact eq_of_first_separator (dollar_notMem_name hs) (dollar_notMem_name ht) h

theorem returnSymbol_injective {s t : Text} {m n : Nat} (hs : isIdentifier s = true)
    (ht : isIdentifier t = true) (h : returnSymbol s m = returnSymbol t n) : s = t ∧ m = n := by
  rw [returnSymbol_eq, returnSymbol_eq] at h
  obtain ⟨hscope, hrest⟩ := eq_of_first_separator (dollar_notMem_name hs) (dollar_notMem_name ht) h
  have hnum := (List.cons.inj (List.append_cancel_left hrest)).2
  exact ⟨hscope, Text.ofNat_injective hnum⟩

/-- What follows the last dot of a static variable's symbol is a numeral. -/
theorem hasStaticForm_cellSymbol (u : Text) (i : Nat) : hasStaticForm (cellSymbol u i) = true := by
  rw [hasStaticForm_iff]
  refine ⟨u, Text.ofNat i, ?_, isNumeral_iff.mpr ⟨Text.ofNat_ne_nil i, Text.all_isDigit_ofNat i⟩⟩
  rw [cellSymbol, Text.ofInt_natCast]

namespace CodeSymbol

/-! ## Kinds are told apart by the number of `$` -/

def dollars : CodeSymbol → Nat
  | label _ _ => 1
  | back _ _ => 2
  | _ => 0

theorem count_dollar_text {s : CodeSymbol} (h : s.Admissible) :
    s.text.count 0x24 = s.dollars := by
  cases s with
  | cell unit index =>
      rw [text, cellSymbol_eq, List.count_append, List.count_cons,
        List.count_eq_zero.mpr (dollar_notMem_name h),
        List.count_eq_zero.mpr (dollar_notMem_ofNat index)]
      rfl
  | label scope name =>
      rw [text, labelSymbol_eq, List.count_append, List.count_cons_self,
        List.count_eq_zero.mpr (dollar_notMem_name h.1),
        List.count_eq_zero.mpr (dollar_notMem_name h.2)]
      rfl
  | back scope number =>
      rw [text, returnSymbol_eq, List.count_append, List.count_cons_self, List.count_append,
        List.count_cons_self, List.count_eq_zero.mpr (dollar_notMem_name h),
        List.count_eq_zero.mpr (dollar_notMem_ofNat number)]
      rfl
  | function name =>
      exact List.count_eq_zero.mpr (dollar_notMem_name (isIdentifier_of_isFunctionName h))

theorem cell_text_ne_function {unit name : Text} {index : Nat} (h : isFunctionName name = true) :
    cellSymbol unit index ≠ name := by
  rintro rfl
  rw [isFunctionName, hasStaticForm_cellSymbol] at h
  simp at h

/-- **Symbols are spelled apart.** -/
theorem text_injective {s t : CodeSymbol} (hs : s.Admissible) (ht : t.Admissible)
    (h : s.text = t.text) : s = t := by
  -- the dollar signs tell most kinds apart; a cell and a function differ in what follows the last dot
  have hcount : s.dollars = t.dollars := by
    rw [← count_dollar_text hs, ← count_dollar_text ht, h]
  cases s with
  | cell unit index =>
      cases t with
      | cell unit' index' =>
          obtain ⟨rfl, rfl⟩ := cellSymbol_injective h
          rfl
      | function name => exact absurd h (cell_text_ne_function ht)
      | label => cases hcount
      | back => cases hcount
  | label scope name =>
      cases t with
      | label scope' name' =>
          obtain ⟨rfl, rfl⟩ := labelSymbol_injective hs.1 ht.1 h
          rfl
      | cell => cases hcount
      | back => cases hcount
      | function => cases hcount
  | back scope number =>
      cases t with
      | back scope' number' =>
          obtain ⟨rfl, rfl⟩ := returnSymbol_injective hs ht h
          rfl
      | cell => cases hcount
      | label => cases hcount
      | function => cases hcount
  | function name =>
      cases t with
      | function name' =>
          cases h
          rfl
      | cell unit index => exact absurd h.symm (cell_text_ne_function hs)
      | label => cases hcount
      | back => cases hcount

/-! ## Predefined symbols -/

theorem predefined_plain :
    ∀ t ∈ predefined.map Prod.fst, (0x2E : UInt8) ∉ t ∧ (0x24 : UInt8) ∉ t := by
  decide

/-- The other kinds of symbols contain a separator, which no predefined symbol does. -/
theorem text_notMem_predefined {s : CodeSymbol} (h : s.isFunction = false) :
    s.text ∉ predefined.map Prod.fst := by
  intro hm
  obtain ⟨hdot, hdollar⟩ := predefined_plain _ hm
  cases s with
  | cell unit index => exact hdot (by simp [text, cellSymbol_eq])
  | label scope name => exact hdollar (by simp [text, labelSymbol_eq])
  | back scope number => exact hdollar (by simp [text, returnSymbol_eq])
  | function name => cases h

end CodeSymbol

end HackStack.Lowering
