import HackStack.Proofs.Lowering.Frame
import HackStack.Proofs.Simulation.Reference

/-!
# The stack in memory

`Ram.Holds` says that memory holds a list of words from an address on, and `HoldsStack` that it holds
the registers and the stack: `SP` at 0, four registers behind it, and the words of the stack from
`stackBegin` on. The effects of pushes, pops, calls and returns on memory are here turned into what
they do to the two lists. Nothing else in memory is touched, apart from the scratch registers: these
are the lemmas `IsGlobal.peek_entered_called` and `IsGlobal.peek_returned`.
-/

namespace HackStack.Machine

open HackStack.Lowering
open HackStack.Vm

/-- Where the parts of memory are. -/
theorem memory_map :
    stackBegin = 256 ∧ stackEnd = 2048 ∧ heapEnd = 0x8000 ∧ ramCells = 0x8000 :=
  ⟨rfl, rfl, rfl, rfl⟩

/-- Memory holds words from an address on. -/
def Ram.Holds (ram : Ram) (base : Nat) (words : List Word) : Prop :=
  ∀ k v, words[k]? = some v → ram.peek (base + k) = v

namespace Ram.Holds

variable {ram ram' : Ram} {base : Nat} {words : List Word}

theorem nil (ram : Ram) (base : Nat) : ram.Holds base [] := by
  intro k v hk
  cases hk

theorem append_iff {first second : List Word} :
    ram.Holds base (first ++ second) ↔
      ram.Holds base first ∧ ram.Holds (base + first.length) second := by
  constructor
  · intro h
    constructor
    · intro k v hk
      apply h k v
      rw [List.getElem?_append_left (List.getElem?_eq_some_iff.mp hk).1, hk]
    · intro k v hk
      rw [Nat.add_assoc]
      apply h (first.length + k) v
      rw [List.getElem?_append_right (Nat.le_add_right _ _), Nat.add_sub_cancel_left, hk]
  · rintro ⟨hfirst, hsecond⟩ k v hk
    by_cases hlt : k < first.length
    · rw [List.getElem?_append_left hlt] at hk
      exact hfirst k v hk
    · rw [List.getElem?_append_right (by omega)] at hk
      have hpeek := hsecond _ v hk
      rwa [Nat.add_assoc, Nat.add_sub_cancel' (by omega)] at hpeek

theorem cons_iff {v : Word} :
    ram.Holds base (v :: words) ↔ ram.peek base = v ∧ ram.Holds (base + 1) words := by
  rw [← List.singleton_append, append_iff]
  refine and_congr_left fun _ => ⟨fun h => h 0 v rfl, fun h k w hk => ?_⟩
  obtain ⟨hlt, hw⟩ := List.getElem?_eq_some_iff.mp hk
  rw [List.length_singleton] at hlt
  obtain rfl : k = 0 := by omega
  exact h.trans hw

theorem snoc_iff {v : Word} :
    ram.Holds base (words ++ [v]) ↔ ram.Holds base words ∧ ram.peek (base + words.length) = v := by
  rw [append_iff, cons_iff]
  exact and_congr_right fun _ => and_iff_left (nil _ _)

/-- It is a matter of the words in the range alone. -/
theorem agree (h : ram.Holds base words)
    (hagree : ∀ m, base ≤ m → m < base + words.length → ram'.peek m = ram.peek m) :
    ram'.Holds base words := by
  intro k v hk
  have hlt := (List.getElem?_eq_some_iff.mp hk).1
  rw [hagree _ (by omega) (by omega), h k v hk]

theorem poke_set (h : ram.Holds base words) {i : Nat} (v : Word) (hi : i < words.length)
    (hlt : base + words.length ≤ ramCells) :
    (ram.poke (base + i) v).Holds base (words.set i v) := by
  intro k w hk
  have hk' := (List.getElem?_eq_some_iff.mp hk).1
  rw [List.length_set] at hk'
  rw [List.getElem?_set] at hk
  by_cases heq : i = k
  · subst heq
    rw [if_pos rfl, if_pos hi] at hk
    rw [peek_poke_self]
    exact Option.some.inj hk
  · rw [if_neg heq] at hk
    rw [peek_poke_of_ne _ _ (by omega) (by omega) (by omega), h k w hk]

end Ram.Holds

/-- Memory holds the registers and the stack. -/
structure HoldsStack (ram : Ram) (regs stack : List Word) : Prop where
  sp : ram.peek 0 = BitVec.ofNat 16 (stackBegin + stack.length)
  registers : ram.Holds 1 regs
  cells : ram.Holds stackBegin stack
  count : regs.length = 4
  room : stackBegin + stack.length ≤ stackEnd

namespace HoldsStack

variable {ram ram' : Ram} {registers cells : List Word}

/-- The stack is a matter of the registers and of the words below `SP` alone. -/
theorem agree (h : HoldsStack ram registers cells)
    (hregisters : ∀ m, m < 5 → ram'.peek m = ram.peek m)
    (hcells : ∀ m, stackBegin ≤ m → m < stackBegin + cells.length → ram'.peek m = ram.peek m) :
    HoldsStack ram' registers cells := by
  refine ⟨(hregisters 0 (by omega)).trans h.sp, h.registers.agree ?_, h.cells.agree hcells, h.count,
    h.room⟩
  intro m _ hm
  rw [h.count] at hm
  exact hregisters m (by omega)

theorem poke_outside (h : HoldsStack ram registers cells) {n : Nat} (v : Word) (hlow : 5 ≤ n)
    (hn : n < stackBegin ∨ stackBegin + cells.length ≤ n) (hlt : n < ramCells) :
    HoldsStack (ram.poke n v) registers cells := by
  have hroom := h.room
  have hmap := memory_map
  refine h.agree ?_ ?_
  · intro m hm
    exact Ram.peek_poke_of_ne _ _ hlt (by omega) (by omega)
  · intro m _ hm
    exact Ram.peek_poke_of_ne _ _ hlt (by omega) (by omega)

theorem push (h : HoldsStack ram registers cells) (v : Word)
    (hroom : stackBegin + cells.length < stackEnd) :
    HoldsStack ((ram.poke (stackBegin + cells.length) v).poke 0
      (BitVec.ofNat 16 (stackBegin + cells.length + 1))) registers (cells ++ [v]) := by
  have hmap := memory_map
  refine ⟨?_, h.registers.agree ?_, Ram.Holds.snoc_iff.mpr ⟨h.cells.agree ?_, ?_⟩, h.count, ?_⟩
  · rw [Ram.peek_poke_self, List.length_append]
    rfl
  · intro m hlow hm
    rw [h.count] at hm
    simp (disch := omega) only [Ram.peek_poke_of_ne]
  · intro m hlow hm
    simp (disch := omega) only [Ram.peek_poke_of_ne]
  · simp (disch := omega) only [Ram.peek_poke_of_ne, Ram.peek_poke_self]
  · rw [List.length_append, List.length_singleton]
    omega

theorem top {v : Word} (h : HoldsStack ram registers (cells ++ [v])) :
    ram.peek 0 = BitVec.ofNat 16 (stackBegin + cells.length + 1) ∧
      ram.peek (stackBegin + cells.length) = v ∧ stackBegin + cells.length < stackEnd := by
  have hsp := h.sp
  have hroom := h.room
  rw [List.length_append, List.length_singleton] at hsp hroom
  exact ⟨hsp, (Ram.Holds.snoc_iff.mp h.cells).2, by omega⟩

theorem pop {v : Word} (h : HoldsStack ram registers (cells ++ [v])) :
    HoldsStack ((ram.poke 0 (BitVec.ofNat 16 (stackBegin + cells.length))).poke
      (stackBegin + cells.length) 0) registers cells := by
  have hmap := memory_map
  obtain ⟨-, -, hroom⟩ := h.top
  refine ⟨?_, h.registers.agree ?_, (Ram.Holds.snoc_iff.mp h.cells).1.agree ?_, h.count, by omega⟩
  · simp (disch := omega) only [Ram.peek_poke_of_ne, Ram.peek_poke_self]
  · intro m hlow hm
    rw [h.count] at hm
    simp (disch := omega) only [Ram.peek_poke_of_ne]
  · intro m hlow hm
    simp (disch := omega) only [Ram.peek_poke_of_ne]

theorem set_cell (h : HoldsStack ram registers cells) {i : Nat} (v : Word) (hi : i < cells.length) :
    HoldsStack (ram.poke (stackBegin + i) v) registers (cells.set i v) := by
  have hmap := memory_map
  have hroom := h.room
  refine ⟨?_, h.registers.agree ?_, h.cells.poke_set v hi (by omega), h.count, ?_⟩
  · rw [List.length_set, ← h.sp]
    exact Ram.peek_poke_of_ne _ _ (by omega) (by omega) (by omega)
  · intro m hlow hm
    rw [h.count] at hm
    exact Ram.peek_poke_of_ne _ _ (by omega) (by omega) (by omega)
  · rwa [List.length_set]

theorem set_register (h : HoldsStack ram registers cells) {i : Nat} (v : Word) (hi : i < 4) :
    HoldsStack (ram.poke (1 + i) v) (registers.set i v) cells := by
  have hmap := memory_map
  have hroom := h.room
  have hcount := h.count
  refine ⟨?_, h.registers.poke_set v (by omega) (by omega), h.cells.agree ?_, ?_, h.room⟩
  · rw [← h.sp]
    exact Ram.peek_poke_of_ne _ _ (by omega) (by omega) (by omega)
  · intro m hlow hm
    exact Ram.peek_poke_of_ne _ _ (by omega) (by omega) (by omega)
  · rwa [List.length_set]

/-- The topmost word is replaced. -/
theorem replace {v : Word} (h : HoldsStack ram registers (cells ++ [v])) (w : Word) :
    HoldsStack (ram.poke (stackBegin + cells.length) w) registers (cells ++ [w]) := by
  have hset := h.set_cell (i := cells.length) w (by simp)
  have hsame : (cells ++ [v]).set cells.length w = cells ++ [w] := by simp
  rwa [hsame] at hset

/-! ## Calls -/

theorem called {l a this that : Word} (h : HoldsStack ram [l, a, this, that] cells) (args : Nat)
    (w : Word) (hroom : stackBegin + cells.length + 5 ≤ stackEnd) :
    HoldsStack (called ram (stackBegin + cells.length) args w)
      [BitVec.ofNat 16 (stackBegin + cells.length + 5),
        BitVec.ofNat 16 (stackBegin + cells.length - args), this, that]
      (cells ++ [w, l, a, this, that]) := by
  have hmap := memory_map
  have hregisters := h.registers
  simp only [Ram.Holds.cons_iff] at hregisters
  obtain ⟨hl, ha, hthis, hthat, -⟩ := hregisters
  have heffect : CallEffect ram (Lowering.called ram (stackBegin + cells.length) args w)
      (stackBegin + cells.length) args w := callEffect_called ram w (by omega) (by omega)
  have hframe := heffect.frame
  refine ⟨?_, ?_, Ram.Holds.append_iff.mpr ⟨h.cells.agree ?_, ?_⟩, rfl, ?_⟩
  · rw [heffect.pointer, List.length_append]
    rfl
  · simp only [Ram.Holds.cons_iff]
    refine ⟨hframe.lcl, hframe.arg, ?_, ?_, Ram.Holds.nil _ _⟩
    · exact (heffect.others 3 (by decide) (by decide) (by decide) (by decide) (by omega)).trans hthis
    · exact (heffect.others 4 (by decide) (by decide) (by decide) (by decide) (by omega)).trans hthat
  · intro m hlow hm
    exact heffect.others m (by omega) (by omega) (by omega) (by omega) (by omega)
  · simp only [Ram.Holds.cons_iff]
    exact ⟨hframe.back, (hframe.saved 0 (by decide)).trans hl, (hframe.saved 1 (by decide)).trans ha,
      (hframe.saved 2 (by decide)).trans hthis, (hframe.saved 3 (by decide)).trans hthat,
      Ram.Holds.nil _ _⟩
  · rw [List.length_append]
    exact hroom

theorem entered {n : Nat} (h : HoldsStack ram registers cells)
    (hroom : stackBegin + cells.length + n ≤ stackEnd) :
    HoldsStack (entered ram (stackBegin + cells.length) n) registers
      (cells ++ List.replicate n 0) := by
  have hmap := memory_map
  have heffect : EntryEffect ram (Lowering.entered ram (stackBegin + cells.length) n)
      (stackBegin + cells.length) n := entryEffect_entered ram (by omega) (by omega)
  refine ⟨?_, h.registers.agree ?_, Ram.Holds.append_iff.mpr ⟨h.cells.agree ?_, ?_⟩, h.count, ?_⟩
  · rw [heffect.stack h.sp, List.length_append, List.length_replicate, Nat.add_assoc]
  · intro m hlow hm
    rw [h.count] at hm
    exact heffect.others m (by omega) (by omega) (by omega)
  · intro m hlow hm
    exact heffect.others m (by omega) (by omega) (by omega)
  · intro k v hk
    rw [List.getElem?_replicate] at hk
    split at hk
    · next hlt =>
        rw [heffect.cleared k hlt]
        exact Option.some.inj hk
    · cases hk
  · rw [List.length_append, List.length_replicate]
    omega

/-- A whole call. -/
theorem entered_called {l a this that : Word} (h : HoldsStack ram [l, a, this, that] cells)
    (args n : Nat) (w : Word) (hroom : stackBegin + cells.length + 5 + n ≤ stackEnd) :
    HoldsStack
      (Lowering.entered (Lowering.called ram (stackBegin + cells.length) args w)
        (stackBegin + cells.length + 5) n)
      [BitVec.ofNat 16 (stackBegin + cells.length + 5),
        BitVec.ofNat 16 (stackBegin + cells.length - args), this, that]
      (cells ++ [w, l, a, this, that] ++ List.replicate n 0) := by
  have hcalled := h.called args w (by omega)
  have hlength : stackBegin + (cells ++ [w, l, a, this, that]).length =
      stackBegin + cells.length + 5 := by
    rw [List.length_append, ← Nat.add_assoc]
    rfl
  have hentered := hcalled.entered (n := n) (by omega)
  rwa [hlength] at hentered

/-! ## Returns -/

section

variable {below args locals operands : List Word} {back l a this that v this' that' : Word}

/-- What a return finds in memory. -/
theorem frame
    (h : HoldsStack ram
      [BitVec.ofNat 16 (stackBegin + below.length + args.length + 5),
        BitVec.ofNat 16 (stackBegin + below.length), this', that']
      (below ++ args ++ [back, l, a, this, that] ++ locals ++ operands ++ [v])) :
    ram.peek 1 = BitVec.ofNat 16 (stackBegin + below.length + args.length + 5) ∧
      ram.peek 2 = BitVec.ofNat 16 (stackBegin + below.length) ∧
      ram.Holds (stackBegin + below.length + args.length) [back, l, a, this, that] := by
  have hregisters := h.registers
  simp only [Ram.Holds.cons_iff] at hregisters
  have hcells := h.cells
  simp only [Ram.Holds.append_iff] at hcells
  refine ⟨hregisters.1, hregisters.2.1, ?_⟩
  have hsaved := hcells.1.1.1.2
  rwa [List.length_append, ← Nat.add_assoc] at hsaved

theorem returned
    (h : HoldsStack ram
      [BitVec.ofNat 16 (stackBegin + below.length + args.length + 5),
        BitVec.ofNat 16 (stackBegin + below.length), this', that']
      (below ++ args ++ [back, l, a, this, that] ++ locals ++ operands ++ [v])) :
    HoldsStack
      (returned ram (stackBegin + below.length + args.length + 5) (stackBegin + below.length)
        (stackBegin + (below ++ args ++ [back, l, a, this, that] ++ locals ++ operands).length))
      [l, a, this, that] (below ++ [v]) := by
  have hmap := memory_map
  obtain ⟨-, -, hsaved⟩ := h.frame
  obtain ⟨-, htop, hroom⟩ := h.top
  have hbelow : ram.Holds stackBegin below := by
    have hcells := h.cells
    simp only [Ram.Holds.append_iff] at hcells
    exact hcells.1.1.1.1.1
  have hlow : stackBegin + below.length + args.length + 5 ≤
      stackBegin + (below ++ args ++ [back, l, a, this, that] ++ locals ++ operands).length := by
    simp only [List.length_append, List.length_cons, List.length_nil]
    omega
  generalize stackBegin + (below ++ args ++ [back, l, a, this, that] ++ locals ++ operands).length =
    sp at htop hroom hlow ⊢
  generalize hframe : stackBegin + below.length + args.length = saved at hsaved hlow ⊢
  simp only [Ram.Holds.cons_iff] at hsaved
  obtain ⟨-, hl, ha, hthis, hthat, -⟩ := hsaved
  have harg : 15 < stackBegin + below.length := by omega
  have hargs : stackBegin + below.length + 5 ≤ saved + 5 := by omega
  have hlt : sp < ramCells := by omega
  have hrestored {i : Nat} (hi : i < 4) :=
    peek_returned_register ram harg hargs hlow hlt hi
  refine ⟨?_, ?_, Ram.Holds.snoc_iff.mpr ⟨hbelow.agree ?_, ?_⟩, rfl, ?_⟩
  · rw [peek_returned_pointer, List.length_append]
    rfl
  · simp only [Ram.Holds.cons_iff]
    exact ⟨(hrestored (i := 0) (by decide)).trans hl, (hrestored (i := 1) (by decide)).trans ha,
      (hrestored (i := 2) (by decide)).trans hthis, (hrestored (i := 3) (by decide)).trans hthat,
      Ram.Holds.nil _ _⟩
  · intro m hbase hm
    exact peek_returned_of_ne ram harg hargs hlow hlt (by omega) (by omega) (by omega) (by omega)
      (by omega) (by omega)
  · rw [peek_returned_value ram harg hargs hlow hlt, htop]
  · rw [List.length_append, List.length_singleton]
    omega

end

end HoldsStack

/-! ## The rest of memory -/

/-- An address of a temp word, of a static variable or of the heap. -/
def IsGlobal (m : Nat) : Prop :=
  5 ≤ m ∧ m < 13 ∨ 16 ≤ m ∧ m < stackBegin ∨ stackEnd ≤ m ∧ m < heapEnd

theorem IsGlobal.peek_entered_called {m sp args n : Nat} {w : Word} (h : IsGlobal m) (ram : Ram)
    (hlow : stackBegin ≤ sp) (hroom : sp + 5 + n ≤ stackEnd) :
    (entered (called ram sp args w) (sp + 5) n).peek m = ram.peek m := by
  have hmap := memory_map
  have hcalled : CallEffect ram (called ram sp args w) sp args w :=
    callEffect_called ram w (by omega) (by omega)
  have hentered : EntryEffect (called ram sp args w) (entered (called ram sp args w) (sp + 5) n)
      (sp + 5) n := entryEffect_entered _ (by omega) (by omega)
  unfold IsGlobal at h
  rw [hentered.others m (by omega) (by omega) (by omega),
    hcalled.others m (by omega) (by omega) (by omega) (by omega) (by omega)]

theorem IsGlobal.peek_returned {m lcl arg sp : Nat} (h : IsGlobal m) (ram : Ram)
    (hlow : stackBegin ≤ arg) (hframe : arg + 5 ≤ lcl) (hstack : lcl ≤ sp) (hroom : sp < stackEnd) :
    (returned ram lcl arg sp).peek m = ram.peek m := by
  have hmap := memory_map
  unfold IsGlobal at h
  exact peek_returned_of_ne ram (by omega) hframe hstack (by omega) (by omega) (by omega) (by omega)
    (by omega) (by omega) (by omega)

end HackStack.Machine
