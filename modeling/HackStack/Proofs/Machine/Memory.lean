import HackStack.Machine.Ram

/-!
# Memory by number

Generated code addresses memory by small numbers. `peek` and `poke` read and write by number; two
numbers below `ramCells` are different cells, so `peek_poke` decides every read after a write.
-/

namespace HackStack.Machine

namespace Ram

/-- The word at an address given as a number. -/
def peek (ram : Ram) (n : Nat) : Word := ram.read (BitVec.ofNat 16 n)

/-- Memory with another word at an address given as a number. -/
def poke (ram : Ram) (n : Nat) (v : Word) : Ram := ram.write (BitVec.ofNat 16 n) v

theorem cell_ofNat {n : Nat} (h : n < ramCells) : (cell (BitVec.ofNat 16 n)).1 = n := by
  have hcells : ramCells = 0x8000 := rfl
  show (BitVec.ofNat 16 n).toNat % ramCells = n
  rw [BitVec.toNat_ofNat, Nat.mod_eq_of_lt (by omega : n < 2 ^ 16), Nat.mod_eq_of_lt h]

theorem peek_poke_self (ram : Ram) (n : Nat) (v : Word) : (ram.poke n v).peek n = v :=
  read_write_self ram _ v

theorem peek_poke_of_ne (ram : Ram) {n m : Nat} (v : Word) (hn : n < ramCells) (hm : m < ramCells)
    (h : n ≠ m) : (ram.poke n v).peek m = ram.peek m := by
  apply read_write_of_ne
  intro heq
  have hval := congrArg Fin.val heq
  rw [cell_ofNat hn, cell_ofNat hm] at hval
  exact h hval

/-- Reading after a write. -/
theorem peek_poke (ram : Ram) {n m : Nat} (v : Word) (hn : n < ramCells) (hm : m < ramCells) :
    (ram.poke n v).peek m = if m = n then v else ram.peek m := by
  split
  · next h =>
      rw [h]
      exact peek_poke_self ram n v
  · next h => exact peek_poke_of_ne ram v hn hm (Ne.symm h)

theorem peek_zero (n : Nat) : zero.peek n = 0 := by
  show (Vector.replicate ramCells (0 : Word))[_] = 0
  exact Vector.getElem_replicate _

theorem write_ofNat (ram : Ram) (n : Nat) (v : Word) :
    ram.write (BitVec.ofNat 16 n) v = ram.poke n v := rfl

theorem read_ofNat (ram : Ram) (n : Nat) : ram.read (BitVec.ofNat 16 n) = ram.peek n := rfl

/-- Any address means the cell with its number, the top bit dropped. -/
theorem cell_eq (address : Word) :
    cell (BitVec.ofNat 16 (address.toNat % ramCells)) = cell address :=
  Fin.ext (cell_ofNat (Nat.mod_lt _ (by decide)))

theorem read_eq_peek (ram : Ram) (address : Word) :
    ram.read address = ram.peek (address.toNat % ramCells) := by
  simp only [peek, read, cell_eq]

theorem write_eq_poke (ram : Ram) (address v : Word) :
    ram.write address v = ram.poke (address.toNat % ramCells) v := by
  simp only [poke, write, cell_eq]

theorem ext_peek {ram other : Ram} (h : ∀ m < ramCells, ram.peek m = other.peek m) :
    ram = other := by
  obtain ⟨cells⟩ := ram
  obtain ⟨cells'⟩ := other
  congr 1
  apply Vector.ext
  intro m hm
  have hpeek := h m hm
  have hcell : cell (BitVec.ofNat 16 m) = ⟨m, hm⟩ := Fin.ext (cell_ofNat hm)
  simp only [peek, read, hcell] at hpeek
  exact hpeek

theorem poke_poke_self (ram : Ram) {n : Nat} (v w : Word) (hn : n < ramCells) :
    (ram.poke n v).poke n w = ram.poke n w := by
  apply ext_peek
  intro m hm
  rw [peek_poke _ _ hn hm, peek_poke _ _ hn hm, peek_poke _ _ hn hm]
  split <;> rfl

theorem poke_comm (ram : Ram) {n m : Nat} (v w : Word) (hn : n < ramCells) (hm : m < ramCells)
    (h : n ≠ m) : (ram.poke n v).poke m w = (ram.poke m w).poke n v := by
  apply ext_peek
  intro i hi
  rw [peek_poke _ _ hm hi, peek_poke _ _ hn hi, peek_poke _ _ hn hi, peek_poke _ _ hm hi]
  split
  · next him => rw [if_neg (fun hin => h (hin.symm.trans him))]
  · rfl

theorem poke_peek_self (ram : Ram) {n : Nat} (hn : n < ramCells) :
    ram.poke n (ram.peek n) = ram := by
  apply ext_peek
  intro m hm
  rw [peek_poke _ _ hn hm]
  split
  · next h => rw [h]
  · rfl

end Ram

end HackStack.Machine
