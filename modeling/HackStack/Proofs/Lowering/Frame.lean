import Mathlib.Tactic.IntervalCases
import HackStack.Proofs.Lowering.Effect

/-!
# Memory around a call

A call saves the frame of the caller, the entry of a function clears its local words, and a return
puts the frame of the caller back. `CallEffect`, `EntryEffect` and `ReturnEffect` say cell by cell
what the three do to memory, and they hold of the chains of writes `called`, `entered` and
`returned` that the code comes to. What is shown about calls elsewhere rests on them and does not
look at the writes.
-/

namespace HackStack.Lowering

open HackStack.Machine

/-! ## Calls -/

/-- The frame of a caller whose memory was `before` is saved at `sp`, and `LCL` and `ARG` are those
of the function. -/
structure HoldsFrame (before ram : Ram) (sp args : Nat) (back : Word) : Prop where
  lcl : ram.peek 1 = BitVec.ofNat 16 (sp + 5)
  arg : ram.peek 2 = BitVec.ofNat 16 (sp - args)
  back : ram.peek sp = back
  /-- `LCL`, `ARG`, `THIS` and `THAT` of the caller. -/
  saved : ∀ i < 4, ram.peek (sp + 1 + i) = before.peek (1 + i)

/-- What a call does to memory. -/
structure CallEffect (before after : Ram) (sp args : Nat) (back : Word) : Prop where
  frame : HoldsFrame before after sp args back
  pointer : after.peek 0 = BitVec.ofNat 16 (sp + 5)
  others : ∀ m < ramCells, m ≠ 0 → m ≠ 1 → m ≠ 2 → (m < sp ∨ sp + 5 ≤ m) →
    after.peek m = before.peek m

theorem callEffect_called (ram : Ram) {sp args : Nat} (back : Word) (hlow : 16 ≤ sp)
    (hhigh : sp + 5 < ramCells) : CallEffect ram (called ram sp args back) sp args back := by
  have hcells : ramCells = 0x8000 := rfl
  refine ⟨⟨?_, ?_, ?_, ?_⟩, ?_, ?_⟩
  · simp (disch := omega) only [called, framed, Ram.peek_poke_self]
  · simp (disch := omega) only [called, framed, Ram.peek_poke_of_ne, Ram.peek_poke_self]
  · simp (disch := omega) only [called, framed, Ram.peek_poke_of_ne, Ram.peek_poke_self]
  · intro i hi
    interval_cases i <;>
      simp (disch := omega) only [called, framed, Ram.peek_poke_of_ne, Ram.peek_poke_self]
  · simp (disch := omega) only [called, framed, Ram.peek_poke_of_ne, Ram.peek_poke_self]
  · intro m hm hzero hone htwo houtside
    simp (disch := omega) only [called, framed, Ram.peek_poke_of_ne]

/-! ## Function entry -/

/-- What entering a function with `locals` local words does to memory, if `LCL` is `lcl`. -/
structure EntryEffect (before after : Ram) (lcl locals : Nat) : Prop where
  cleared : ∀ i < locals, after.peek (lcl + i) = 0
  pointer : after.peek 0 = if locals = 0 then before.peek 0 else BitVec.ofNat 16 (lcl + locals)
  others : ∀ m < ramCells, m ≠ 0 → (m < lcl ∨ lcl + locals ≤ m) → after.peek m = before.peek m

theorem entryEffect_entered (ram : Ram) {lcl locals : Nat} (hlow : 0 < lcl)
    (hhigh : lcl + locals ≤ ramCells) : EntryEffect ram (entered ram lcl locals) lcl locals := by
  have hcells : ramCells = 0x8000 := rfl
  by_cases hzero : locals = 0
  · subst hzero
    exact ⟨fun i hi => absurd hi (Nat.not_lt_zero i), rfl, fun m _ _ _ => rfl⟩
  · have hkept : ∀ m < ramCells, m ≠ 0 → (entered ram lcl locals).peek m =
        if lcl ≤ m ∧ m < lcl + locals then 0 else ram.peek m := by
      intro m hm hne
      rw [entered, if_neg hzero, Ram.peek_poke_of_ne _ _ (by decide) hm (Ne.symm hne),
        peek_cleared ram hhigh hm]
    refine ⟨?_, ?_, ?_⟩
    · intro i hi
      rw [hkept _ (by omega) (by omega), if_pos (by omega)]
    · rw [entered, if_neg hzero, if_neg hzero, Ram.peek_poke_self]
    · intro m hm hne hout
      rw [hkept m hm hne, if_neg (by omega)]

/-- If `SP` is where `LCL` is on entry, it is behind the local words afterwards. -/
theorem EntryEffect.stack {before after : Ram} {lcl locals : Nat}
    (h : EntryEffect before after lcl locals) (hsp : before.peek 0 = BitVec.ofNat 16 lcl) :
    after.peek 0 = BitVec.ofNat 16 (lcl + locals) := by
  rw [h.pointer]
  split
  · next hzero => rw [hsp, hzero, Nat.add_zero]
  · rfl

/-! ## Returns -/

/-- Memory after a return has put its value in place of the arguments, before it restores the
registers. -/
def delivered (ram : Ram) (lcl arg sp : Nat) : Ram :=
  (((((ram.poke 14 (BitVec.ofNat 16 lcl)).poke 15 (ram.peek (lcl - 5))).poke 0
    (BitVec.ofNat 16 sp)).poke sp 0).poke arg (ram.peek sp)).poke 0 (BitVec.ofNat 16 (arg + 1))

theorem returned_eq (ram : Ram) (lcl arg sp : Nat) :
    returned ram lcl arg sp = restored (delivered ram lcl arg sp) lcl := rfl

/-- The registers are restored from the four words below `lcl`. -/
theorem peek_restored_register (ram : Ram) (saved : Nat) {i : Nat} (hi : i < 4) :
    (restored ram (saved + 4)).peek (1 + i) = ram.peek (saved + i) := by
  interval_cases i <;>
    simp (disch := decide) only [restored, Ram.peek_poke_of_ne, Ram.peek_poke_self] <;> rfl

theorem peek_restored_of_ne (ram : Ram) (lcl : Nat) {m : Nat} (hm : m < ramCells)
    (hne : m = 0 ∨ 4 < m) : (restored ram lcl).peek m = ram.peek m := by
  have hcells : ramCells = 0x8000 := rfl
  simp (disch := omega) only [restored, Ram.peek_poke_of_ne]

section

variable (ram : Ram) {lcl arg sp : Nat} (hlow : 15 < arg) (hframe : arg + 5 ≤ lcl)
  (hstack : lcl ≤ sp) (hlt : sp < ramCells)
include hlow hframe hstack hlt

theorem peek_delivered_of_ne {m : Nat} (hm : m < ramCells) (hzero : m ≠ 0) (hend : m ≠ 14)
    (hback : m ≠ 15) (harg : m ≠ arg) (hsp : m ≠ sp) :
    (delivered ram lcl arg sp).peek m = ram.peek m := by
  have hcells : ramCells = 0x8000 := rfl
  simp (disch := omega) only [delivered, Ram.peek_poke_of_ne]

theorem peek_returned_value : (returned ram lcl arg sp).peek arg = ram.peek sp := by
  rw [returned_eq, peek_restored_of_ne _ _ (by omega) (by omega), delivered,
    Ram.peek_poke_of_ne _ _ (by decide) (by omega) (by omega), Ram.peek_poke_self]

omit hlow hframe hstack hlt in
theorem peek_returned_pointer :
    (returned ram lcl arg sp).peek 0 = BitVec.ofNat 16 (arg + 1) := by
  rw [returned_eq, peek_restored_of_ne _ _ (by decide) (Or.inl rfl), delivered, Ram.peek_poke_self]

/-- The value of the call lies below the saved registers, even if there are no arguments. -/
theorem peek_returned_register {i : Nat} (hi : i < 4) :
    (returned ram lcl arg sp).peek (1 + i) = ram.peek (lcl - 4 + i) := by
  obtain ⟨saved, rfl⟩ : ∃ saved, lcl = saved + 4 := ⟨lcl - 4, by omega⟩
  rw [returned_eq, peek_restored_register _ saved hi, Nat.add_sub_cancel]
  exact peek_delivered_of_ne ram hlow hframe hstack hlt (by omega) (by omega) (by omega) (by omega)
    (by omega) (by omega)

theorem peek_returned_top : (returned ram lcl arg sp).peek sp = 0 := by
  rw [returned_eq, peek_restored_of_ne _ _ hlt (by omega), delivered,
    Ram.peek_poke_of_ne _ _ (by decide) hlt (by omega),
    Ram.peek_poke_of_ne _ _ (by omega) hlt (by omega), Ram.peek_poke_self]

theorem peek_returned_of_ne {m : Nat} (hm : m < ramCells) (hregister : 4 < m) (hend : m ≠ 14)
    (hback : m ≠ 15) (harg : m ≠ arg) (hsp : m ≠ sp) :
    (returned ram lcl arg sp).peek m = ram.peek m := by
  rw [returned_eq, peek_restored_of_ne _ _ hm (Or.inr hregister)]
  exact peek_delivered_of_ne ram hlow hframe hstack hlt hm (by omega) hend hback harg hsp

end

/-- What a return does to memory, if `SP` is `top + 1`: the caller whose memory was `before` finds
the word at `top` in place of the arguments. -/
structure ReturnEffect (before ram after : Ram) (sp args top : Nat) : Prop where
  value : after.peek (sp - args) = ram.peek top
  pointer : after.peek 0 = BitVec.ofNat 16 (sp - args + 1)
  registers : ∀ i < 4, after.peek (1 + i) = before.peek (1 + i)
  cleared : after.peek top = 0
  others : ∀ m < ramCells, 4 < m → m ≠ 14 → m ≠ 15 → m ≠ sp - args → m ≠ top →
    after.peek m = ram.peek m

theorem returnEffect_returned {before ram : Ram} {sp args top : Nat} {back : Word}
    (h : HoldsFrame before ram sp args back) (hlow : 16 + args ≤ sp) (htop : sp + 5 ≤ top)
    (hhigh : top < ramCells) :
    ReturnEffect before ram (returned ram (sp + 5) (sp - args) top) sp args top := by
  have harg : 15 < sp - args := by omega
  have hframe : sp - args + 5 ≤ sp + 5 := by omega
  refine ⟨peek_returned_value ram harg hframe htop hhigh, peek_returned_pointer ram, ?_,
    peek_returned_top ram harg hframe htop hhigh, ?_⟩
  · intro i hi
    rw [← h.saved i hi]
    exact peek_returned_register ram harg hframe htop hhigh hi
  · intro m hm
    exact peek_returned_of_ne ram harg hframe htop hhigh hm

end HackStack.Lowering
