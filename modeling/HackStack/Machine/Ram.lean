import HackStack.Machine.Word

/-!
# Data memory

The machine has 32768 words of memory; the top bit of an address is ignored.
-/

namespace HackStack.Machine

def ramCells : Nat := 0x8000

structure Ram where
  cells : Vector Word ramCells

namespace Ram

/-- The cell that an address means. -/
def cell (address : Word) : Fin ramCells := ⟨address.toNat % ramCells, Nat.mod_lt _ (by decide)⟩

def zero : Ram := ⟨Vector.replicate ramCells 0⟩

def read (ram : Ram) (address : Word) : Word := ram.cells[cell address]

def write (ram : Ram) (address value : Word) : Ram :=
  ⟨ram.cells.set (cell address).1 value (cell address).2⟩

theorem read_write_self (ram : Ram) (a v : Word) : (ram.write a v).read a = v := by
  simp [read, write]

theorem read_write_of_ne (ram : Ram) {a b : Word} (v : Word) (h : cell a ≠ cell b) :
    (ram.write a v).read b = ram.read b := by
  have h' : (cell a).1 ≠ (cell b).1 := fun e => h (Fin.ext e)
  simp [read, write, Vector.getElem_set_ne, h']

end Ram

end HackStack.Machine
