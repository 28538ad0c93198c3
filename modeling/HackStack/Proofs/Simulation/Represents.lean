import HackStack.Proofs.Lowering.Control
import HackStack.Proofs.Simulation.Placement
import HackStack.Proofs.Simulation.Stack

/-!
# States of the stack machine in memory

`Target.Related` says how memory holds a state of the stack machine. The frames lie one above the
other: arguments, the caller's place and registers, locals, operands. `Target.Represents` adds that
the processor stands at the code of the next command.

Every word of a segment has an address (`Target.locate`), which is the one that generated code
computes (`Loaded.location_of_locate`); reading it gives what the stack machine reads and writing it
is what the stack machine writes (`Related.peek_of_read`, `Related.of_write`).
-/

namespace HackStack.Vm

open HackStack.Machine

/-- The first address behind the frames of callers. -/
def frameBase (results : List Word) (callers : List Frame) : Nat :=
  stackBegin + (results.length + (callers.map Frame.size).sum)

/-- The registers `LCL`, `ARG`, `THIS` and `THAT`. -/
def frameRegisters (results : List Word) : List Frame → List Word
  | [] => [0, 0, 0, 0]
  | f :: callers =>
    [BitVec.ofNat 16 (frameBase results callers + f.args.length + 5),
      BitVec.ofNat 16 (frameBase results callers), f.this, f.that]

end HackStack.Vm

namespace HackStack.Lowering

open HackStack.Assembly
open HackStack.Machine
open HackStack.Vm

namespace Target

variable (t : Target)

def cells (results : List Word) : List Frame → List Word
  | [] => results.reverse
  | f :: callers =>
    cells results callers ++ f.args ++
      (BitVec.ofNat 16 (t.address f.back) :: frameRegisters results callers) ++ f.locals ++
        f.stack.reverse

/-- Memory outside of the stack. -/
structure Globals (ram : Ram) (words : Vector Word 8) (cell : Text → Nat → Word)
    (beyond : Nat → Word) : Prop where
  temps : ram.Holds 5 words.toList
  statics : ∀ p ∈ t.statics, ram.peek (cellAddress t.symbols p) = cell p.1 p.2
  heap : ∀ m, stackEnd ≤ m → m < heapEnd → ram.peek m = beyond m

/-- A program address behind a jump. -/
def IsBehindJump (n : Nat) : Prop := ∃ q, n = q + 1 ∧ q < programSize ∧ t.rom[q]? = some jumpWord

/-- Memory holds a state. -/
structure Related (ram : Ram) (s : State) : Prop where
  stack : HoldsStack ram (frameRegisters s.results s.frames) (t.cells s.results s.frames)
  globals : t.Globals ram s.temps s.statics s.heap
  returns : ∀ f ∈ s.frames, t.IsBehindJump (t.address f.back)

/-- **The processor represents a state**: it has come to the code of the next command, and its
memory holds the state. -/
structure Represents (c : Cpu) (s : State) : Prop where
  arrived : Arrived t.rom (t.address s.point) c.ram c
  related : t.Related c.ram s

/-! ## Frames -/

theorem length_frameRegisters (results : List Word) (frames : List Frame) :
    (frameRegisters results frames).length = 4 := by
  cases frames <;> rfl

theorem length_cells (results : List Word) (frames : List Frame) :
    stackBegin + (t.cells results frames).length = frameBase results frames := by
  unfold frameBase
  congr 1
  induction frames with
  | nil => simp [cells]
  | cons f callers ih =>
      simp only [cells, List.length_append, List.length_cons, List.length_reverse,
        length_frameRegisters, List.map_cons, List.sum_cons, Frame.size, ih]
      omega

/-- A frame with one more operand. -/
theorem cells_push (results : List Word) (f : Frame) (callers : List Frame) (v : Word)
    (rest : List Word) :
    t.cells results ({ f with stack := v :: rest } :: callers) =
      t.cells results ({ f with stack := rest } :: callers) ++ [v] := by
  simp only [cells, List.reverse_cons, List.append_assoc]

theorem cells_of_stack {results : List Word} {f : Frame} {callers : List Frame} {v : Word}
    {rest : List Word} (hstack : f.stack = v :: rest) :
    t.cells results (f :: callers) =
      t.cells results ({ f with stack := rest } :: callers) ++ [v] := by
  rw [← cells_push, ← hstack]

/-- The topmost operands are apart from the frame that is left without them. -/
theorem cells_drop (results : List Word) (f : Frame) (callers : List Frame) (n : Nat) :
    t.cells results ({ f with stack := f.stack.drop n } :: callers) ++ (f.stack.take n).reverse =
      t.cells results (f :: callers) := by
  simp only [cells, List.append_assoc, ← List.reverse_append, List.take_append_drop]

theorem set_middle {xs ys zs : List Word} {i : Nat} (v : Word) (hi : i < ys.length) :
    (xs ++ ys ++ zs).set (xs.length + i) v = xs ++ ys.set i v ++ zs := by
  rw [List.set_append_left _ _ (by rw [List.length_append]; omega),
    List.set_append_right _ _ (Nat.le_add_right _ _), Nat.add_sub_cancel_left]

theorem cells_set_local (results : List Word) (f : Frame) (callers : List Frame) {i : Nat}
    (v : Word) (hi : i < f.locals.length) :
    t.cells results ({ f with locals := f.locals.set i v } :: callers) =
      (t.cells results (f :: callers)).set
        ((t.cells results callers).length + f.args.length + 5 + i) v := by
  have hlength : (t.cells results callers).length + f.args.length + 5 =
      (t.cells results callers ++ f.args ++
        (BitVec.ofNat 16 (t.address f.back) :: frameRegisters results callers)).length := by
    simp only [List.length_append, List.length_cons, length_frameRegisters]
  rw [hlength]
  exact (set_middle v hi).symm

theorem cells_set_arg (results : List Word) (f : Frame) (callers : List Frame) {i : Nat}
    (v : Word) (hi : i < f.args.length) :
    t.cells results ({ f with args := f.args.set i v } :: callers) =
      (t.cells results (f :: callers)).set ((t.cells results callers).length + i) v := by
  have hmiddle := @set_middle (t.cells results callers) f.args
    ((BitVec.ofNat 16 (t.address f.back) :: frameRegisters results callers) ++ f.locals ++
      f.stack.reverse) i v hi
  simp only [cells, List.append_assoc] at hmiddle ⊢
  exact hmiddle.symm

/-- A call puts the frame of the function on the stack. -/
theorem holdsStack_enter {ram : Ram} {results : List Word} {callers : List Frame}
    {args : List Word} {l a this that : Word} {back : Option Point} {n : Nat}
    (hregisters : frameRegisters results callers = [l, a, this, that])
    (hstack : HoldsStack ram [l, a, this, that] (t.cells results callers ++ args))
    (hroom : stackBegin + (t.cells results callers ++ args).length + 5 + n ≤ stackEnd) :
    HoldsStack
      (entered
        (called ram (stackBegin + (t.cells results callers ++ args).length) args.length
          (BitVec.ofNat 16 (t.address back)))
        (stackBegin + (t.cells results callers ++ args).length + 5) n)
      (frameRegisters results (⟨args, List.replicate n 0, this, that, [], back⟩ :: callers))
      (t.cells results (⟨args, List.replicate n 0, this, that, [], back⟩ :: callers)) := by
  have hentered := hstack.entered_called args.length n (BitVec.ofNat 16 (t.address back)) hroom
  have hcells : t.cells results (⟨args, List.replicate n 0, this, that, [], back⟩ :: callers) =
      t.cells results callers ++ args ++ [BitVec.ofNat 16 (t.address back), l, a, this, that] ++
        List.replicate n 0 := by
    simp only [cells, hregisters, List.reverse_nil, List.append_nil]
  have hsp : stackBegin + (t.cells results callers ++ args).length =
      frameBase results callers + args.length := by
    rw [List.length_append, ← t.length_cells, Nat.add_assoc]
  rw [hcells]
  rw [hsp, Nat.add_sub_cancel] at hentered
  rw [hsp]
  exact hentered

/-- What memory holds of the innermost frame. -/
theorem Related.frame {t : Target} {ram : Ram} {s : State} {f : Frame} {callers : List Frame}
    (h : t.Related ram s) (hframes : s.frames = f :: callers) :
    ram.Holds 1 [BitVec.ofNat 16 (frameBase s.results callers + f.args.length + 5),
        BitVec.ofNat 16 (frameBase s.results callers), f.this, f.that] ∧
      ram.Holds (frameBase s.results callers) f.args ∧
      ram.Holds (frameBase s.results callers + f.args.length + 5) f.locals ∧
      frameBase s.results callers + f.args.length + 5 + f.locals.length ≤ stackEnd := by
  have hcells := h.stack.cells
  have hroom := h.stack.room
  have hregisters := h.stack.registers
  rw [hframes] at hcells hroom hregisters
  rw [t.length_cells] at hroom
  simp only [cells, Ram.Holds.append_iff, List.length_append, List.length_cons,
    length_frameRegisters, ← Nat.add_assoc, t.length_cells] at hcells
  refine ⟨hregisters, hcells.1.1.1.2, ?_, ?_⟩
  · exact hcells.1.2
  · simp only [frameBase, List.map_cons, List.sum_cons, Frame.size] at hroom ⊢
    omega

theorem Globals.agree {t : Target} {entry : Text} (hload : t.Loaded entry) {ram ram' : Ram}
    {words : Vector Word 8} {cell : Text → Nat → Word} {beyond : Nat → Word}
    (h : t.Globals ram words cell beyond) (hagree : ∀ m, IsGlobal m → ram'.peek m = ram.peek m) :
    t.Globals ram' words cell beyond := by
  refine ⟨h.temps.agree ?_, ?_, ?_⟩
  · intro m hlow hm
    rw [Vector.length_toList] at hm
    exact hagree m (Or.inl ⟨hlow, hm⟩)
  · intro p hp
    obtain ⟨-, hlow, hhigh⟩ := hload.statics p hp
    rw [hagree _ (Or.inr (Or.inl ⟨hlow, hhigh⟩)), h.statics p hp]
  · intro m hlow hm
    rw [hagree m (Or.inr (Or.inr ⟨hlow, hm⟩)), h.heap m hlow hm]

/-- Another innermost frame, with the same place to return to, and nothing else changed. -/
theorem Related.of_frame {t : Target} {entry : Text} (hload : t.Loaded entry) {ram ram' : Ram}
    {s : State} {f f' : Frame} {callers : List Frame} (hrel : t.Related ram s)
    (hframes : s.frames = f :: callers) {point : Option Point} (hback : f'.back = f.back)
    (hstack : HoldsStack ram' (frameRegisters s.results (f' :: callers))
      (t.cells s.results (f' :: callers)))
    (hagree : ∀ m, IsGlobal m → ram'.peek m = ram.peek m) :
    t.Related ram' { s with point := point, frames := f' :: callers } := by
  refine ⟨hstack, hrel.globals.agree hload hagree, ?_⟩
  have hreturns := hrel.returns
  rw [hframes, List.forall_mem_cons] at hreturns
  refine List.forall_mem_cons.mpr ⟨?_, hreturns.2⟩
  rw [hback]
  exact hreturns.1

section

variable {t : Target} {entry : Text} (hload : t.Loaded entry) {ram : Ram} {words : Vector Word 8}
  {cell : Text → Nat → Word} {beyond : Nat → Word} (h : t.Globals ram words cell beyond)
include hload h

theorem Globals.poke_temp {i : Nat} (v : Word) (hi : i < 8) :
    t.Globals (ram.poke (5 + i) v) (words.set i v hi) cell beyond := by
  have hmap := memory_map
  refine ⟨?_, ?_, ?_⟩
  · rw [Vector.toList_set]
    exact h.temps.poke_set v (by simpa using hi) (by simp [hmap])
  · intro p hp
    obtain ⟨-, hlow, hhigh⟩ := hload.statics p hp
    rw [Ram.peek_poke_of_ne _ _ (by omega) (by omega) (by omega), h.statics p hp]
  · intro m hlow hm
    rw [Ram.peek_poke_of_ne _ _ (by omega) (by omega) (by omega), h.heap m hlow hm]

theorem Globals.poke_static {p : Text × Nat} (v : Word) (hp : p ∈ t.statics) :
    t.Globals (ram.poke (cellAddress t.symbols p) v) words
      (fun u j => if u = p.1 ∧ j = p.2 then v else cell u j) beyond := by
  have hmap := memory_map
  obtain ⟨-, hlow, hhigh⟩ := hload.statics p hp
  refine ⟨h.temps.agree ?_, ?_, ?_⟩
  · intro m hm hm'
    rw [Vector.length_toList] at hm'
    exact Ram.peek_poke_of_ne _ _ (by omega) (by omega) (by omega)
  · intro q hq
    obtain ⟨-, hlow', hhigh'⟩ := hload.statics q hq
    by_cases heq : q = p
    · rw [heq, Ram.peek_poke_self, if_pos ⟨rfl, rfl⟩]
    · -- different variables have different words
      have hne : cellAddress t.symbols p ≠ cellAddress t.symbols q := fun hsame =>
        heq (hload.injective p hp q hq hsame).symm
      rw [Ram.peek_poke_of_ne _ _ (by omega) (by omega) hne, h.statics q hq, if_neg]
      rintro ⟨hunit, hindex⟩
      exact heq (Prod.ext hunit hindex)
  · intro m hlow' hm
    rw [Ram.peek_poke_of_ne _ _ (by omega) (by omega) (by omega), h.heap m hlow' hm]

theorem Globals.poke_heap {a : Nat} (v : Word) (hlow : stackEnd ≤ a) (hhigh : a < heapEnd) :
    t.Globals (ram.poke a v) words cell (fun m => if m = a then v else beyond m) := by
  have hmap := memory_map
  refine ⟨h.temps.agree ?_, ?_, ?_⟩
  · intro m hm hm'
    rw [Vector.length_toList] at hm'
    exact Ram.peek_poke_of_ne _ _ (by omega) (by omega) (by omega)
  · intro p hp
    obtain ⟨-, hlow', hhigh'⟩ := hload.statics p hp
    rw [Ram.peek_poke_of_ne _ _ (by omega) (by omega) (by omega), h.statics p hp]
  · intro m hlow' hm
    rw [Ram.peek_poke _ _ (by omega) (by omega)]
    by_cases heq : m = a
    · rw [if_pos heq, if_pos heq]
    · rw [if_neg heq, if_neg heq, h.heap m hlow' hm]

end

/-! ## Segments -/

/-- The address of the word at an index of a segment, as the call `f` in a unit sees it. -/
def locate (results : List Word) (f : Frame) (callers : List Frame) (unit : Text)
    (segment : Segment) (i : Nat) : Option Nat :=
  match segment with
  | .constant => none
  | .local =>
    if i < f.locals.length then some (frameBase results callers + f.args.length + 5 + i) else none
  | .argument => if i < f.args.length then some (frameBase results callers + i) else none
  | .this => heapAddress f.this i
  | .that => heapAddress f.that i
  | .temp => if i < 8 then some (5 + i) else none
  | .pointer => if i < 2 then some (3 + i) else none
  | .static => some (cellAddress t.symbols (unit, i))

theorem heapAddress_eq_some {base : Word} {i a : Nat} (h : heapAddress base i = some a) :
    base + BitVec.ofNat 16 i = BitVec.ofNat 16 a ∧ stackEnd ≤ a ∧ a < heapEnd := by
  rw [heapAddress] at h
  split at h
  · next hrange =>
      cases h
      exact ⟨by rw [BitVec.ofNat_toNat, BitVec.setWidth_eq], hrange⟩
  · cases h

section

variable {t : Target} {entry : Text} (hload : t.Loaded entry) {ram : Ram} {s : State} {f : Frame}
  {callers : List Frame} (hrel : t.Related ram s) (hframes : s.frames = f :: callers)
  {unit : Text} {segment : Segment}
include hload hrel hframes

/-- Generated code computes the address of a word as `locate` does. -/
theorem location_of_locate {i : Int} {p : Place} {a : Nat} (hplace : place unit segment i = .ok p)
    (hi : 0 ≤ i) (hstatic : segment = .static → (unit, i.toNat) ∈ t.statics)
    (hlocate : t.locate s.results f callers unit segment i.toNat = some a) :
    p.location t.symbols ram = BitVec.ofNat 16 a := by
  obtain ⟨hregisters, -, -, -⟩ := hrel.frame hframes
  simp only [Ram.Holds.cons_iff] at hregisters
  obtain ⟨hlcl, harg, hthis, hthat, -⟩ := hregisters
  -- frames are addressed from a register that holds a number, the heap from one that holds any word
  have hoffset : ∀ (register : Text) (r base : Nat),
      t.symbols[register]? = some (BitVec.ofNat 16 r) → ram.peek r = BitVec.ofNat 16 base →
      (Place.offset register i).location t.symbols ram = BitVec.ofNat 16 (base + i.toNat) := by
    intro register r base hr hbase
    rw [Place.location, hr, Option.getD_some, Ram.read_ofNat, hbase, ← BitVec.ofNat_add]
  have hheap : ∀ (register : Text) (r : Nat) (base : Word),
      t.symbols[register]? = some (BitVec.ofNat 16 r) → ram.peek r = base →
      heapAddress base i.toNat = some a →
      (Place.offset register i).location t.symbols ram = BitVec.ofNat 16 a := by
    intro register r base hr hbase ha
    rw [Place.location, hr, Option.getD_some, Ram.read_ofNat, hbase, (heapAddress_eq_some ha).1]
  cases segment with
  | constant => cases hlocate
  | «local» =>
      cases hplace
      simp only [locate] at hlocate
      split at hlocate
      · cases hlocate
        exact hoffset "LCL" 1 _ hload.registers.lcl hlcl
      · cases hlocate
  | argument =>
      cases hplace
      simp only [locate] at hlocate
      split at hlocate
      · cases hlocate
        exact hoffset "ARG" 2 _ hload.registers.arg harg
      · cases hlocate
  | this =>
      cases hplace
      exact hheap "THIS" 3 _ hload.registers.this hthis hlocate
  | that =>
      cases hplace
      exact hheap "THAT" 4 _ hload.registers.that hthat hlocate
  | temp =>
      simp only [place] at hplace
      split at hplace
      · cases hplace
        simp only [locate] at hlocate
        split at hlocate
        · cases hlocate
          show BitVec.ofNat 16 (tempStart + i).toNat = _
          congr 1
          rw [tempStart]
          omega
        · cases hlocate
      · cases hplace
  | pointer =>
      simp only [place] at hplace
      split at hplace
      · cases hplace
        simp only [locate] at hlocate
        split at hlocate
        · cases hlocate
          show BitVec.ofNat 16 (pointerStart + i).toNat = _
          congr 1
          rw [pointerStart]
          omega
        · cases hlocate
      · cases hplace
  | static =>
      cases hplace
      cases hlocate
      obtain ⟨hvalue, -, -⟩ := hload.statics _ (hstatic rfl)
      dsimp only at hvalue
      rw [Int.toNat_of_nonneg hi] at hvalue
      show (t.symbols[cellSymbol unit i]?).getD 0 = _
      rw [hvalue]
      rfl

omit hload in
/-- **Reading.** The word that a command reads is at the address of its place. -/
theorem Related.peek_of_read {i : Nat} {v : Word} (hconstant : segment ≠ .constant)
    (hstatic : segment = .static → (unit, i) ∈ t.statics)
    (hread : s.read f unit segment i = some v) :
    ∃ a, t.locate s.results f callers unit segment i = some a ∧ ram.peek a = v := by
  obtain ⟨hregisters, hargs, hlocals, -⟩ := hrel.frame hframes
  simp only [Ram.Holds.cons_iff] at hregisters
  obtain ⟨-, -, hthis, hthat, -⟩ := hregisters
  have hheap : ∀ base : Word, (heapAddress base i).map s.heap = some v →
      ∃ a, heapAddress base i = some a ∧ ram.peek a = v := by
    intro base hbase
    obtain ⟨a, ha, rfl⟩ := Option.map_eq_some_iff.mp hbase
    obtain ⟨-, hlow, hhigh⟩ := heapAddress_eq_some ha
    exact ⟨a, ha, hrel.globals.heap a hlow hhigh⟩
  cases segment with
  | constant => exact absurd rfl hconstant
  | «local» =>
      have hi := (List.getElem?_eq_some_iff.mp hread).1
      exact ⟨_, if_pos hi, hlocals i v hread⟩
  | argument =>
      have hi := (List.getElem?_eq_some_iff.mp hread).1
      exact ⟨_, if_pos hi, hargs i v hread⟩
  | this => exact hheap f.this hread
  | that => exact hheap f.that hread
  | temp =>
      change s.temps[i]? = some v at hread
      obtain ⟨hi, -⟩ := Vector.getElem?_eq_some_iff.mp hread
      rw [← Vector.getElem?_toList] at hread
      exact ⟨_, if_pos hi, hrel.globals.temps i v hread⟩
  | pointer =>
      change [f.this, f.that][i]? = some v at hread
      have hi : i < 2 := (List.getElem?_eq_some_iff.mp hread).1
      refine ⟨_, if_pos hi, ?_⟩
      have hpair : ram.Holds 3 [f.this, f.that] :=
        Ram.Holds.cons_iff.mpr ⟨hthis, Ram.Holds.cons_iff.mpr ⟨hthat, Ram.Holds.nil _ _⟩⟩
      exact hpair i v hread
  | static =>
      cases hread
      exact ⟨_, rfl, hrel.globals.statics _ (hstatic rfl)⟩

omit hload hrel hframes in
theorem peek_poke_global {a m : Nat} (v : Word) (ha : ¬IsGlobal a) (hlt : a < ramCells)
    (hm : IsGlobal m) : (ram.poke a v).peek m = ram.peek m := by
  have hmap := memory_map
  refine Ram.peek_poke_of_ne _ _ hlt ?_ fun heq => ha (heq ▸ hm)
  rcases hm with hm | hm | hm <;> omega

/-- A write to a word of the innermost frame. -/
theorem Related.of_cell {f' : Frame} {k : Nat} {v : Word}
    (hcells : t.cells s.results (f' :: callers) = (t.cells s.results (f :: callers)).set k v)
    (hk : k < (t.cells s.results (f :: callers)).length) (hback : f'.back = f.back)
    (hregisters : frameRegisters s.results (f' :: callers) =
      frameRegisters s.results (f :: callers)) :
    t.Related (ram.poke (stackBegin + k) v) { s with frames := f' :: callers } := by
  have hmap := memory_map
  have hstack := hrel.stack
  rw [hframes] at hstack
  have hroom := hstack.room
  refine hrel.of_frame hload hframes hback ?_ fun m => peek_poke_global v ?_ (by omega)
  · rw [hregisters, hcells]
    exact hstack.set_cell v hk
  · unfold IsGlobal
    omega

/-- A write to `THIS` or `THAT`. -/
theorem Related.of_pointer {f' : Frame} {i : Nat} {v : Word} (hi : i < 2) (hback : f'.back = f.back)
    (hregisters : frameRegisters s.results (f' :: callers) =
      (frameRegisters s.results (f :: callers)).set (2 + i) v)
    (hcells : t.cells s.results (f' :: callers) = t.cells s.results (f :: callers)) :
    t.Related (ram.poke (3 + i) v) { s with frames := f' :: callers } := by
  have hmap := memory_map
  have hstack := hrel.stack
  rw [hframes] at hstack
  have haddress : 3 + i = 1 + (2 + i) := by omega
  refine hrel.of_frame hload hframes hback ?_ fun m => peek_poke_global v ?_ (by omega)
  · rw [hregisters, hcells, haddress]
    exact hstack.set_register v (by omega)
  · unfold IsGlobal
    omega

omit hframes in
theorem Related.of_setHeap {base : Word} {s' : State} {i : Nat} {v : Word}
    (h : (heapAddress base i).map (s.setHeap v) = some s') :
    ∃ a, heapAddress base i = some a ∧ t.Related (ram.poke a v) s' ∧ s'.point = s.point := by
  have hmap := memory_map
  have hroom := hrel.stack.room
  obtain ⟨a, ha, rfl⟩ := Option.map_eq_some_iff.mp h
  obtain ⟨-, hlow, hhigh⟩ := heapAddress_eq_some ha
  exact ⟨a, ha, ⟨hrel.stack.poke_outside v (by omega) (Or.inr (by omega)) (by omega),
    hrel.globals.poke_heap hload v hlow hhigh, hrel.returns⟩, rfl⟩

/-- **Writing.** If the word of a place is written at its address, memory holds the state that the
stack machine writes. -/
theorem Related.of_write {s' : State} {i : Nat} {v : Word}
    (hstatic : segment = .static → (unit, i) ∈ t.statics)
    (hwrite : s.write f callers unit segment i v = some s') :
    ∃ a, t.locate s.results f callers unit segment i = some a ∧ t.Related (ram.poke a v) s' ∧
      s'.point = s.point := by
  have hmap := memory_map
  have hbase := t.length_cells s.results callers
  have hcells := t.length_cells s.results (f :: callers)
  have hsize : frameBase s.results (f :: callers) = frameBase s.results callers +
      (f.args.length + 5 + f.locals.length + f.stack.length) := by
    simp only [frameBase, List.map_cons, List.sum_cons, Frame.size]
    omega
  cases segment with
  | constant => cases hwrite
  | «local» =>
      simp only [State.write] at hwrite
      split at hwrite
      · next hi =>
          cases hwrite
          refine ⟨_, if_pos hi, ?_, rfl⟩
          have hcell := hrel.of_cell hload hframes (t.cells_set_local s.results f callers v hi)
            (by omega) rfl rfl
          rwa [← Nat.add_assoc, ← Nat.add_assoc, ← Nat.add_assoc, hbase] at hcell
      · cases hwrite
  | argument =>
      simp only [State.write] at hwrite
      split at hwrite
      · next hi =>
          cases hwrite
          refine ⟨_, if_pos hi, ?_, rfl⟩
          have hcell := hrel.of_cell hload hframes (t.cells_set_arg s.results f callers v hi)
            (by omega) rfl (by rw [frameRegisters, List.length_set]; rfl)
          rwa [← Nat.add_assoc, hbase] at hcell
      · cases hwrite
  | this => exact hrel.of_setHeap hload hwrite
  | that => exact hrel.of_setHeap hload hwrite
  | temp =>
      simp only [State.write] at hwrite
      split at hwrite
      · next hi =>
          cases hwrite
          exact ⟨_, if_pos hi, ⟨hrel.stack.poke_outside v (by omega) (Or.inl (by omega)) (by omega),
            hrel.globals.poke_temp hload v hi, hrel.returns⟩, rfl⟩
      · cases hwrite
  | pointer =>
      simp only [State.write] at hwrite
      split at hwrite
      · next hi =>
          subst hi
          cases hwrite
          exact ⟨3, rfl, hrel.of_pointer hload hframes (i := 0) (by decide) rfl rfl rfl, rfl⟩
      · split at hwrite
        · next hi =>
            subst hi
            cases hwrite
            exact ⟨4, rfl, hrel.of_pointer hload hframes (i := 1) (by decide) rfl rfl rfl, rfl⟩
        · cases hwrite
  | static =>
      cases hwrite
      have hmem := hstatic rfl
      obtain ⟨-, hlow, hhigh⟩ := hload.statics _ hmem
      exact ⟨_, rfl, ⟨hrel.stack.poke_outside v (by omega) (Or.inl (by omega)) (by omega),
        hrel.globals.poke_static hload v hmem, hrel.returns⟩, rfl⟩

end

end Target

end HackStack.Lowering
