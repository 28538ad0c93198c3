import HackStack.Proofs.Simulation.Represents

/-!
# One command

If the processor stands at the code of a command, memory holds a state of the stack machine and the
stack machine can execute the command, then the processor comes to the code of the command that
follows, with the new state in memory. There is one lemma for each kind of command, and
`Target.Represents.step` puts them together. The fault conditions of the stack machine are what
keeps the generated code from leaving the frame, the heap or the stack.
-/

namespace HackStack.Lowering

open HackStack.Assembly
open HackStack.Machine
open HackStack.Vm

theorem eq_of_checked {s s' : State} (h : s.checked = some s') :
    s = s' ∧ frameBase s.results s.frames ≤ stackEnd := by
  rw [State.checked] at h
  split at h
  · next hroom => exact ⟨Option.some.inj h, hroom⟩
  · cases h

namespace Target

/-- The processor comes to represent a state. -/
def Continues (t : Target) (c : Cpu) (s : State) : Prop :=
  ∃ ram, Reaches t.rom (t.address s.point) ram c ∧ t.Related ram s

theorem represents_of_arrived {t : Target} {s : State} {ram : Ram} {c : Cpu}
    (h : Arrived t.rom (t.address s.point) ram c) (hrel : t.Related ram s) : t.Represents c s := by
  obtain rfl := h.ram
  exact ⟨h, hrel⟩

/-! ## Entering a function -/

theorem isBehindJump_of_call {t : Target} {start : Nat} {back name : Text} {args : Int}
    (h : Installed t.symbols t.rom start (callCode back name args)) :
    t.IsBehindJump (start + 49) := by
  obtain ⟨w, hw, hrom⟩ := h.words 48 .jump rfl
  have hfits : start + 49 ≤ programSize := h.fits
  rw [Array.getElem?_toList] at hrom
  cases hw
  exact ⟨start + 48, rfl, hfits, hrom⟩

/-- A call. The callers are on the stack, with the arguments above them. The start-up code calls as
a function does, except that it has no frame of its own. -/
theorem continues_enter {t : Target} {entry : Text} (hload : t.Loaded entry) {s s' : State}
    {start : Nat} {k : Core} {c : Cpu} (hat : At t.rom start k c) {symbol name : Text} {n : Int}
    {back : Option Point} {callers : List Frame} {args : List Word} {l a this that : Word}
    (hinstalled : Installed t.symbols t.rom start (callCode symbol name n))
    (hback : t.address back = start + 49)
    (hsymbol : t.symbols[symbol]? = some (BitVec.ofNat 16 (start + 49)))
    (hcount : n.toNat = args.length)
    (hregisters : frameRegisters s.results callers = [l, a, this, that])
    (hstack : HoldsStack k.ram [l, a, this, that] (t.cells s.results callers ++ args))
    (hglobals : t.Globals k.ram s.temps s.statics s.heap)
    (hreturns : ∀ f ∈ callers, t.IsBehindJump (t.address f.back))
    (hstep : s.enter t.program name args this that callers back = some s') : t.Continues c s' := by
  have hmap := memory_map
  obtain ⟨i, hfind, hstep⟩ := Option.bind_eq_some_iff.mp hstep
  obtain ⟨r, hr, hchecked⟩ := Option.bind_eq_some_iff.mp hstep
  obtain ⟨rfl, hroom⟩ := eq_of_checked hchecked
  have hname : r.name = name := by
    obtain ⟨hlt, hname, -⟩ := List.findIdx?_eq_some_iff_getElem.mp hfind
    rw [(List.getElem?_eq_some_iff.mp hr).2] at hname
    exact of_decide_eq_true hname
  obtain ⟨hfunction, hentry⟩ := hload.function r (List.mem_of_getElem? hr)
  -- the machine faults unless the whole frame has room
  have hfits : stackBegin + (t.cells s.results callers ++ args).length + 5 + r.locals ≤
      stackEnd := by
    have hbase := t.length_cells s.results callers
    simp only [frameBase, List.map_cons, List.sum_cons, Frame.size, List.length_replicate,
      List.length_nil, List.length_append] at hroom hbase ⊢
    omega
  have hargs : args.length ≤ stackBegin + (t.cells s.results callers ++ args).length := by
    rw [List.length_append]
    omega
  have hreach := reaches_call hload.registers hat hinstalled hsymbol (hname ▸ hfunction) hentry
    hstack.sp (by omega) (by omega) (by omega)
  rw [← t.address_first hr, hcount, ← hback] at hreach
  refine ⟨_, hreach, ⟨t.holdsStack_enter hregisters hstack hfits, hglobals.agree hload ?_, ?_⟩⟩
  · intro m hm
    exact hm.peek_entered_called k.ram (by omega) hfits
  · refine List.forall_mem_cons.mpr ⟨?_, hreturns⟩
    rw [hback]
    exact isBehindJump_of_call hinstalled

section

variable {t : Target} {entry : Text} (hload : t.Loaded entry) {s s' : State} {p : Point}
  {r : Routine} {f : Frame} {callers : List Frame} {k : Core} {c : Cpu}
  (hat : At t.rom (t.address (some p)) k c) (hrel : t.Related k.ram s)
  (hframes : s.frames = f :: callers) (hr : t.program[p.routine]? = some r)
include hload hat hrel hframes hr

/-! ## Operations -/

theorem continues_unary {op : Op} {y : Word} {rest : List Word}
    (hc : r.body[p.index]? = some (.arithmetic op)) (hop : op.isUnary = true)
    (hstack : f.stack = y :: rest) :
    t.Continues c
      { s with
        point := some p.next
        frames := { f with stack := op.result 0 y :: rest } :: callers } := by
  have hmap := memory_map
  have hholds := hrel.stack
  rw [hframes, t.cells_of_stack hstack] at hholds
  obtain ⟨hsp, htop, hroom⟩ := hholds.top
  have hreach := reaches_unary hload.registers hat hop (hload.body _ r hr _ _ hc) hsp (by omega)
  rw [htop, ← t.address_next hr hc] at hreach
  refine ⟨_, hreach, hrel.of_frame hload hframes rfl ?_ ?_⟩
  · rw [cells_push]
    exact hholds.replace _
  · intro m hm
    unfold IsGlobal at hm
    simp (disch := omega) only [Ram.peek_poke_of_ne]

theorem continues_binary {op : Op} {x y : Word} {rest : List Word}
    (hc : r.body[p.index]? = some (.arithmetic op)) (hop : op.isUnary = false)
    (hstack : f.stack = y :: x :: rest) :
    t.Continues c
      { s with
        point := some p.next
        frames := { f with stack := op.result x y :: rest } :: callers } := by
  have hmap := memory_map
  have hholds := hrel.stack
  rw [hframes, t.cells_of_stack hstack] at hholds
  obtain ⟨hsp, hy, hroom⟩ := hholds.top
  have hpopped := hholds.pop
  rw [cells_push] at hholds hsp hy hroom hpopped
  -- the lower operand is the word below the top
  have hx := (Ram.Holds.snoc_iff.mp (Ram.Holds.snoc_iff.mp hholds.cells).1).2
  rw [List.length_append, List.length_singleton, ← Nat.add_assoc] at hsp hy hroom hpopped
  have hreach := reaches_binary hload.registers hat hop (hload.body _ r hr _ _ hc) hsp (by omega)
    (by omega)
  rw [hx, hy, ← t.address_next hr hc] at hreach
  refine ⟨_, hreach, hrel.of_frame hload hframes rfl ?_ ?_⟩
  · rw [cells_push]
    exact hpopped.replace _
  · intro m hm
    unfold IsGlobal at hm
    simp (disch := omega) only [Ram.peek_poke_of_ne]

theorem continues_arithmetic {op : Op} (hc : r.body[p.index]? = some (.arithmetic op))
    (hstep : s.execute t.program r p f callers (.arithmetic op) = some s') : t.Continues c s' := by
  obtain ⟨stack, happly, heq⟩ := Option.bind_eq_some_iff.mp hstep
  cases heq
  cases hstack : f.stack with
  | nil =>
      rw [hstack] at happly
      cases happly
  | cons y rest =>
      rw [hstack] at happly
      simp only [Op.apply] at happly
      cases hop : op.isUnary with
      | true =>
          rw [hop, if_pos rfl] at happly
          cases happly
          exact continues_unary hload hat hrel hframes hr hc hop hstack
      | false =>
          rw [hop, if_neg Bool.false_ne_true] at happly
          cases rest with
          | nil => cases happly
          | cons x rest =>
              cases happly
              exact continues_binary hload hat hrel hframes hr hc hop hstack

/-! ## Segments -/

omit hat hrel hframes in
/-- What is known of the index in a command that reads or writes a segment. -/
theorem index_of_mem {segment : Segment} {i : Int}
    (hc : .push segment i ∈ r.body ∨ .pop segment i ∈ r.body) :
    0 ≤ i ∧ (segment = .static → (r.unit, i.toNat) ∈ t.statics) := by
  have hmem := List.mem_of_getElem? hr
  rcases hc with hc | hc
  · refine ⟨Command.index_nonneg (hload.indices r hmem _ hc) (Or.inl rfl), ?_⟩
    rintro rfl
    exact hload.used r hmem _ hc _ rfl
  · refine ⟨Command.index_nonneg (hload.indices r hmem _ hc) (Or.inr rfl), ?_⟩
    rintro rfl
    exact hload.used r hmem _ hc _ rfl

omit hat in
/-- The word that generated code loads from a place is the one that the stack machine reads. -/
theorem word_of_read {segment : Segment} {i : Int} {place : Place} {v : Word}
    (hc : .push segment i ∈ r.body) (hplace : Lowering.place r.unit segment i = .ok place)
    (hread : s.read f r.unit segment i.toNat = some v) : place.word t.symbols k.ram = v := by
  by_cases hconstant : segment = .constant
  · subst hconstant
    cases hplace
    exact Option.some.inj hread
  · obtain ⟨hi, hstatic⟩ := index_of_mem hload hr (Or.inl hc)
    obtain ⟨a, hlocate, hpeek⟩ := hrel.peek_of_read hframes hconstant hstatic hread
    rw [Place.word_eq_read hplace hconstant,
      location_of_locate hload hrel hframes hplace hi hstatic hlocate, Ram.read_ofNat, hpeek]

theorem continues_push {segment : Segment} {i : Int}
    (hc : r.body[p.index]? = some (.push segment i))
    (hstep : s.execute t.program r p f callers (.push segment i) = some s') : t.Continues c s' := by
  have hmap := memory_map
  obtain ⟨v, hread, hchecked⟩ := Option.bind_eq_some_iff.mp hstep
  obtain ⟨rfl, hroom⟩ := eq_of_checked hchecked
  obtain ⟨place, hplace, hinstalled⟩ := hload.body _ r hr _ _ hc
  have hword := word_of_read hload hrel hframes hr (List.mem_of_getElem? hc) hplace hread
  have hholds := hrel.stack
  rw [hframes] at hholds
  have hlt : stackBegin + (t.cells s.results (f :: callers)).length < stackEnd := by
    have hlength := t.length_cells s.results ({ f with stack := v :: f.stack } :: callers)
    rw [cells_push, List.length_append, List.length_singleton] at hlength
    exact hlength.trans_le hroom
  have hreach := reaches_pushBlock hload.registers hat hinstalled hholds.sp (by omega) (by omega)
  rw [hword, length_pushBlock hplace, ← t.address_next hr hc] at hreach
  refine ⟨_, hreach, hrel.of_frame hload hframes rfl ?_ ?_⟩
  · rw [cells_push]
    exact hholds.push v hlt
  · intro m hm
    unfold IsGlobal at hm
    simp (disch := omega) only [Ram.peek_poke_of_ne]

theorem continues_pop {segment : Segment} {i : Int} (hc : r.body[p.index]? = some (.pop segment i))
    (hstep : s.execute t.program r p f callers (.pop segment i) = some s') : t.Continues c s' := by
  have hmap := memory_map
  simp only [State.execute] at hstep
  split at hstep
  · cases hstep
  · next v rest hstack =>
      obtain ⟨place, address, hplace, haddress, hinstalled⟩ := hload.body _ r hr _ _ hc
      obtain ⟨hi, hstatic⟩ := index_of_mem hload hr (Or.inr (List.mem_of_getElem? hc))
      have hholds := hrel.stack
      rw [hframes, t.cells_of_stack hstack] at hholds
      obtain ⟨hsp, htop, hroom⟩ := hholds.top
      have hreach := reaches_popCode hload.registers hat haddress hinstalled hsp (by omega)
        (by omega)
      rw [htop, length_popCode hplace haddress, ← t.address_next hr hc] at hreach
      -- the operand goes first, and the place is written with the operand gone
      have hpopped : t.Related
          (((k.ram.poke 13 (place.location t.symbols k.ram)).poke 0 (BitVec.ofNat 16
            (stackBegin + (t.cells s.results ({ f with stack := rest } :: callers)).length))).poke
              (stackBegin + (t.cells s.results ({ f with stack := rest } :: callers)).length) 0)
          { s with point := some p.next, frames := { f with stack := rest } :: callers } := by
        refine hrel.of_frame hload hframes rfl ?_ ?_
        · exact (hholds.poke_outside _ (by omega) (Or.inl (by omega)) (by omega)).pop
        · intro m hm
          unfold IsGlobal at hm
          simp (disch := omega) only [Ram.peek_poke_of_ne]
      obtain ⟨a, hlocate, hwritten, hpoint⟩ := hpopped.of_write hload rfl hstatic hstep
      have hlocation := location_of_locate hload hrel hframes hplace hi hstatic hlocate
      rw [hlocation] at hwritten
      rw [hlocation, Ram.write_ofNat] at hreach
      refine ⟨_, ?_, hwritten⟩
      rw [hpoint]
      exact hreach

/-! ## Branches -/

omit hload hframes in
theorem continues_label {name : Text} (hc : r.body[p.index]? = some (.label name))
    (hstep : s.execute t.program r p f callers (.label name) = some s') : t.Continues c s' := by
  cases hstep
  refine ⟨k.ram, ⟨0, by decide, ?_⟩, ⟨hrel.stack, hrel.globals, hrel.returns⟩⟩
  rw [t.address_next hr hc]
  exact hat.arrived

omit hat hrel hframes in
/-- The symbol of a label has the address of the place of the label. -/
theorem symbol_of_label {name : Text} {target : Nat}
    (htarget : r.body.idxOf? (.label name) = some target) :
    t.symbols[labelSymbol r.name name]? =
      some (BitVec.ofNat 16 (t.address (some ⟨p.routine, target⟩))) := by
  obtain ⟨hlt, hlabel, -⟩ := List.idxOf?_eq_some_iff.mp htarget
  exact hload.body _ r hr _ _ (List.getElem?_eq_some_iff.mpr ⟨hlt, hlabel⟩)

omit hframes in
theorem continues_goto {name : Text} (hc : r.body[p.index]? = some (.goto name))
    (hstep : s.execute t.program r p f callers (.goto name) = some s') : t.Continues c s' := by
  obtain ⟨target, htarget, heq⟩ := Option.bind_eq_some_iff.mp hstep
  cases heq
  have hreach := reaches_gotoBlock (symbol_of_label hload hr htarget) hat
    (hload.body _ r hr _ _ hc)
  exact ⟨k.ram, hreach, ⟨hrel.stack, hrel.globals, hrel.returns⟩⟩

theorem continues_ifGoto {name : Text} (hc : r.body[p.index]? = some (.ifGoto name))
    (hstep : s.execute t.program r p f callers (.ifGoto name) = some s') : t.Continues c s' := by
  have hmap := memory_map
  simp only [State.execute] at hstep
  split at hstep
  · cases hstep
  · next v rest hstack =>
      obtain ⟨target, htarget, heq⟩ := Option.bind_eq_some_iff.mp hstep
      cases heq
      have hholds := hrel.stack
      rw [hframes, t.cells_of_stack hstack] at hholds
      obtain ⟨hsp, htop, hroom⟩ := hholds.top
      have hreach := reaches_ifGotoBlock hload.registers (symbol_of_label hload hr htarget) hat
        (hload.body _ r hr _ _ hc) hsp (by omega) (by omega)
      have haddress : t.address (some (if v = 0 then p.next else ⟨p.routine, target⟩)) =
          if v = 0 then t.address (some p) + 6 else t.address (some ⟨p.routine, target⟩) := by
        split
        · exact t.address_next hr hc
        · rfl
      rw [htop, ← haddress] at hreach
      refine ⟨_, hreach, hrel.of_frame hload hframes rfl hholds.pop ?_⟩
      intro m hm
      unfold IsGlobal at hm
      simp (disch := omega) only [Ram.peek_poke_of_ne]

/-! ## Calls and returns -/

theorem continues_call {name : Text} {n : Int} (hc : r.body[p.index]? = some (.call name n))
    (hstep : s.execute t.program r p f callers (.call name n) = some s') : t.Continues c s' := by
  simp only [State.execute] at hstep
  split at hstep
  · next hargs =>
      obtain ⟨symbol, hsymbol, hinstalled⟩ := hload.body _ r hr _ _ hc
      have hholds := hrel.stack
      rw [hframes, ← t.cells_drop s.results f callers n.toNat] at hholds
      have hreturns := hrel.returns
      rw [hframes, List.forall_mem_cons] at hreturns
      refine continues_enter hload hat hinstalled (t.address_next hr hc) hsymbol ?_ rfl hholds
        hrel.globals (List.forall_mem_cons.mpr hreturns) hstep
      rw [List.length_reverse, List.length_take, Nat.min_eq_left hargs]
  · cases hstep

/-- What a return does to the stack. The value lands where the arguments were, which is where the
place to return to was if there are none. -/
theorem reaches_ret {v : Word} {rest : List Word} (hc : r.body[p.index]? = some .ret)
    (hstack : f.stack = v :: rest) :
    ∃ ram, Reaches t.rom (t.address f.back) ram c ∧
      HoldsStack ram (frameRegisters s.results callers) (t.cells s.results callers ++ [v]) ∧
      t.Globals ram s.temps s.statics s.heap ∧
      ∀ g ∈ callers, t.IsBehindJump (t.address g.back) := by
  have hmap := memory_map
  obtain ⟨l, a, this, that, hregisters⟩ : ∃ l a this that,
      frameRegisters s.results callers = [l, a, this, that] := by
    cases callers <;> exact ⟨_, _, _, _, rfl⟩
  have hbase := t.length_cells s.results callers
  have hholds := hrel.stack
  rw [hframes, cells, hstack, List.reverse_cons, ← List.append_assoc, hregisters, frameRegisters,
    ← hbase] at hholds
  have hreturns := hrel.returns
  rw [hframes, List.forall_mem_cons] at hreturns
  -- the caller goes on behind a jump, so the return is none of the jumps that halt
  obtain ⟨q, hq, hfits, hjump⟩ := hreturns.1
  obtain ⟨hlcl, harg, hsaved⟩ := hholds.frame
  obtain ⟨hsp, -, hroom⟩ := hholds.top
  have hplace := (Ram.Holds.cons_iff.mp hsaved).1
  rw [hq] at hplace
  have hlength : stackBegin + (t.cells s.results callers).length + f.args.length + 5 ≤
      stackBegin + (t.cells s.results callers ++ f.args ++
        [BitVec.ofNat 16 (t.address f.back), l, a, this, that] ++ f.locals ++
          rest.reverse).length := by
    simp only [List.length_append, List.length_cons, List.length_nil]
    omega
  have hreach := reaches_return hload.registers hat (hload.body _ r hr _ _ hc) hlcl harg hsp
    (by omega) (by omega) hlength (by omega) hplace hfits hjump
  rw [← hq] at hreach
  rw [hregisters]
  refine ⟨_, hreach, hholds.returned, hrel.globals.agree hload ?_, hreturns.2⟩
  intro m hm
  exact hm.peek_returned k.ram (by omega) (by omega) hlength (by omega)

theorem continues_ret (hc : r.body[p.index]? = some .ret)
    (hstep : s.execute t.program r p f callers .ret = some s') : t.Continues c s' := by
  simp only [State.execute] at hstep
  split at hstep
  · cases hstep
  · next v rest hstack =>
      cases hstep
      obtain ⟨ram, hreach, hholds, hglobals, -⟩ := reaches_ret hload hat hrel hframes hr hc hstack
      refine ⟨ram, hreach, ⟨?_, hglobals, ?_⟩⟩
      · -- the value of the entry function is left to the start-up code
        rw [cells, ← List.reverse_cons] at hholds
        exact hholds
      · intro g hg
        cases hg
  · next v rest g outer hstack =>
      cases hstep
      obtain ⟨ram, hreach, hholds, hglobals, hreturns⟩ :=
        reaches_ret hload hat hrel hframes hr hc hstack
      refine ⟨ram, hreach, ⟨?_, hglobals, ?_⟩⟩
      · rw [← cells_push] at hholds
        exact hholds
      · rw [List.forall_mem_cons] at hreturns
        exact List.forall_mem_cons.mpr hreturns

/-! ## Every command -/

theorem continues_execute {command : Command} (hc : r.body[p.index]? = some command)
    (hstep : s.execute t.program r p f callers command = some s') : t.Continues c s' := by
  cases command with
  | arithmetic op => exact continues_arithmetic hload hat hrel hframes hr hc hstep
  | push segment i => exact continues_push hload hat hrel hframes hr hc hstep
  | pop segment i => exact continues_pop hload hat hrel hframes hr hc hstep
  | label name => exact continues_label hat hrel hr hc hstep
  | goto name => exact continues_goto hload hat hrel hr hc hstep
  | ifGoto name => exact continues_ifGoto hload hat hrel hframes hr hc hstep
  | call name n => exact continues_call hload hat hrel hframes hr hc hstep
  | function name n => cases hstep
  | ret => exact continues_ret hload hat hrel hframes hr hc hstep

end

section

variable {t : Target} {entry : Text} (hload : t.Loaded entry) {s s' : State}
include hload

theorem continues_step {k : Core} {c : Cpu} (hat : At t.rom (t.address s.point) k c)
    (hrel : t.Related k.ram s) (hstep : s.step t.program = some s') : t.Continues c s' := by
  obtain ⟨p, hpoint, hstep⟩ := Option.bind_eq_some_iff.mp hstep
  obtain ⟨r, hr, hstep⟩ := Option.bind_eq_some_iff.mp hstep
  obtain ⟨command, hc, hstep⟩ := Option.bind_eq_some_iff.mp hstep
  rw [hpoint] at hat
  split at hstep
  · cases hstep
  · next f callers hframes => exact continues_execute hload hat hrel hframes hr hc hstep

/-- **One command.** A processor that has halted stays where it is, and represents the next state
all the same. -/
theorem Represents.step {c : Cpu} (h : t.Represents c s) (hstep : s.step t.program = some s') :
    ∃ n, t.Represents (Cpu.step^[n] c) s' := by
  cases hhalted : c.halted with
  | false =>
      obtain ⟨ram, ⟨n, -, harrived⟩, hrel⟩ :=
        continues_step hload (h.arrived.at hhalted) h.related hstep
      exact ⟨n, represents_of_arrived harrived hrel⟩
  | true =>
      obtain ⟨ram, hreach, hrel⟩ := continues_step hload h.arrived.resume h.related hstep
      exact ⟨0, represents_of_arrived (h.arrived.of_resume hhalted hreach) hrel⟩

end

end Target

end HackStack.Lowering
