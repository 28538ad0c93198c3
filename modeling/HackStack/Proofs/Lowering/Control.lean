import HackStack.Proofs.Lowering.Effect
import HackStack.Proofs.Machine.Jump
import HackStack.Proofs.Simulation.Reference

/-!
# Running blocks

Where the processor is after each block of generated code, and what memory holds then. The blocks of
data commands are passed from one end to the other, with the writes on the way. Straight-line blocks
follow from their effects; here are also those that jump: comparisons, which jump inside the block,
branches, calls and returns. A processor that returns does not halt, because what stands before the
place where a call goes on is a jump (`return_continues`).
-/

namespace HackStack.Lowering

open HackStack.Assembly
open HackStack.Machine
open HackStack.Vm

theorem ofNat_injective_of_lt {n m : Nat} (hn : n < 2 ^ 16) (hm : m < 2 ^ 16)
    (h : BitVec.ofNat 16 n = BitVec.ofNat 16 m) : n = m := by
  have hval := congrArg BitVec.toNat h
  rwa [BitVec.toNat_ofNat, BitVec.toNat_ofNat, Nat.mod_eq_of_lt hn, Nat.mod_eq_of_lt hm] at hval

/-! ## Code that does not jump -/

theorem isStraight_read (p : Place) : ∀ i ∈ p.read, i.isStraight = true := by
  cases p <;> simp [Place.read]

theorem isStraight_address {p : Place} {code : List Instruction} (h : p.address = .ok code) :
    ∀ i ∈ code, i.isStraight = true := by
  cases p with
  | immediate value => cases h
  | offset base index =>
      cases h
      simp
  | fixed address =>
      cases h
      simp

theorem isStraight_pushBlock (p : Place) : ∀ i ∈ pushBlock p, i.isStraight = true := by
  rw [pushBlock, List.forall_mem_append]
  exact ⟨isStraight_read p, by simp [pushFromD]⟩

theorem isStraight_popCode {p : Place} {address : List Instruction} (h : p.address = .ok address) :
    ∀ i ∈ popCode address, i.isStraight = true := by
  simp only [popCode, List.forall_mem_append]
  exact ⟨⟨⟨isStraight_address h, by simp⟩, by simp [popToD]⟩, by simp⟩

theorem isStraight_saveRegister (register : Text) :
    ∀ i ∈ saveRegister register, i.isStraight = true := by
  simp [saveRegister, pushFromD]

/-- The part of a call between the loads of its two addresses. -/
theorem isStraight_prepareCall (args : Int) :
    ∀ i ∈ saveCaller ++ moveFrame args, i.isStraight = true := by
  simp only [saveCaller, List.forall_mem_append]
  exact ⟨⟨⟨⟨⟨⟨by simp, by simp [pushFromD]⟩, isStraight_saveRegister _⟩, isStraight_saveRegister _⟩,
    isStraight_saveRegister _⟩, isStraight_saveRegister _⟩, by simp [moveFrame]⟩

theorem isStraight_callPart (back : Text) (args : Int) :
    ∀ i ∈ saveFrame back ++ moveFrame args, i.isStraight = true := by
  rw [saveFrame_eq, List.cons_append, List.forall_mem_cons]
  exact ⟨rfl, isStraight_prepareCall args⟩

theorem isStraight_restoreRegister (register : Text) (depth : Nat) :
    ∀ i ∈ restoreRegister register depth, i.isStraight = true := by
  simp [restoreRegister]

theorem isStraight_unwind : ∀ i ∈ unwind, i.isStraight = true := by
  simp only [unwind, restoreFrame, List.forall_mem_append]
  exact ⟨⟨⟨by simp [keepFrame], by simp [putValue, popToD]⟩, ⟨⟨isStraight_restoreRegister _ _,
    isStraight_restoreRegister _ _⟩, isStraight_restoreRegister _ _⟩,
    isStraight_restoreRegister _ _⟩, by simp⟩

theorem isStraight_functionCode (locals : Int) :
    ∀ i ∈ functionCode locals, i.isStraight = true := by
  rw [functionCode, List.forall_mem_append]
  constructor
  · intro i hi
    obtain ⟨n, -, hi⟩ := List.mem_flatMap.mp hi
    have hall : ∀ i ∈ clearLocal n, i.isStraight = true := by simp [clearLocal]
    exact hall i hi
  · split <;> simp [skipLocals]

section

variable {symbols : Bindings} {rom : Array Word} {p : Nat} {k : Core} {c : Cpu}

/-! ## Operations -/

/-- The truth of a condition on `D`. Both ways through the block end behind it and write nothing. -/
theorem at_truthBlock {jump : Jump} (h : At rom p k c) (hjump : jump ≠ .jmp)
    (hcode : Installed symbols rom p (truthBlock p jump)) :
    ∃ n a, At rom (p + 6) ⟨a, truth (jump.holds k.d), k.ram⟩ (Cpu.step^[n] c) ∧
      Stays p (p + 6) n [] c := by
  obtain ⟨hload, hcode⟩ := Installed.cons_iff.mp hcode
  obtain ⟨htest, hcode⟩ := Installed.cons_iff.mp hcode
  obtain ⟨hfalse, htrue⟩ :=
    Installed.append_iff.mp (show Installed symbols rom (p + 2)
      ([.setD .zero, .number (p + 6 : Nat)] ++ [.jump, .setD .minusOne]) from hcode)
  obtain ⟨hskip, htrue⟩ := Installed.cons_iff.mp htrue
  have hloaded := h.exec hload rfl
  have htesting : Stays p (p + 6) 2 [] c :=
    (h.stays hload (by omega) (by omega)).add (hloaded.stays htest (by omega) (by omega))
  have htested := hloaded.jump htest
  rw [Instruction.exec_number, Int.toNat_natCast] at htested
  obtain ⟨hrom, hcore, hpc, hhalted⟩ := htested
  have hrun : (Cpu.step^[2] c).halted = false := by
    refine hhalted.trans ?_
    rw [Bool.and_eq_false_iff]
    exact Or.inl (beq_eq_false_iff_ne.mpr hjump)
  cases hholds : jump.holds k.d with
  | true =>
      change (Cpu.step^[2] c).pc = if jump.holds k.d then _ else _ at hpc
      rw [hholds, if_pos rfl] at hpc
      have hat : At rom (p + 5) _ (Cpu.step^[2] c) := ⟨hrom, hpc, hcore, hrun⟩
      exact ⟨3, _, hat.exec htrue rfl, htesting.add (hat.stays htrue (by omega) (by omega))⟩
  | false =>
      change (Cpu.step^[2] c).pc = if jump.holds k.d then _ else _ at hpc
      rw [hholds, if_neg Bool.false_ne_true] at hpc
      have hat : At rom (p + 2) _ (Cpu.step^[2] c) := ⟨hrom, hpc, hcore, hrun⟩
      have hzero := hat.straight hfalse (by simp)
      obtain ⟨hrom', hcore', hpc', hhalted'⟩ := hzero.jump hskip
      have hclear : Stays p (p + 6) 2 [] (Cpu.step^[2] c) :=
        hat.stays_straight hfalse (by simp) (by omega) (show p + 2 + 2 ≤ p + 6 by omega)
      have hskipping := hzero.stays hskip (show p ≤ p + 4 by omega) (show p + 4 < p + 6 by omega)
      refine ⟨5, _, ⟨hrom', hpc', hcore', hhalted'.trans ?_⟩, (htesting.add hclear).add hskipping⟩
      have hfits := hcode.fits
      have hsize : programSize = 0x8000 := rfl
      simp only [List.length_cons, List.length_nil] at hfits
      rw [Bool.and_eq_false_iff]
      refine Or.inr (beq_eq_false_iff_ne.mpr fun heq => ?_)
      -- the jump leads forward
      have hback : p + 7 = p + 4 := ofNat_injective_of_lt (by omega) (by omega)
        ((ofNat_add_one (p + 6)).symm.trans heq)
      omega

/-- A comparison by the sign of the difference, up to the instruction behind the block. -/
theorem at_comparisonBlock (hregs : BindsRegisters symbols) {jump : Jump} {sp : Nat}
    (h : At rom p k c) (hjump : jump ≠ .jmp)
    (hcode : Installed symbols rom p (comparisonBlock p jump))
    (hsp : k.ram.peek 0 = BitVec.ofNat 16 (sp + 2)) (hpos : 0 < sp) (hlt : sp + 1 < ramCells) :
    ∃ n, n ≠ 1 ∧
      At rom (p + 16)
        ⟨BitVec.ofNat 16 sp, truth (jump.holds (k.ram.peek sp - k.ram.peek (sp + 1))),
          ((k.ram.poke 0 (BitVec.ofNat 16 (sp + 1))).poke (sp + 1) 0).poke sp
            (truth (jump.holds (k.ram.peek sp - k.ram.peek (sp + 1))))⟩ (Cpu.step^[n] c) ∧
      Stays p (p + 16) n
        [(0, BitVec.ofNat 16 (sp + 1)), (sp + 1, 0),
          (sp, truth (jump.holds (k.ram.peek sp - k.ram.peek (sp + 1))))] c := by
  have hsplit : comparisonBlock p jump =
      (popToD ++ topCell ++ [.setD .mMinusD]) ++ truthBlock (p + 7) jump ++
        (topCell ++ [.setM .d]) := by
    rw [comparisonBlock, List.append_assoc _ topCell]
  rw [hsplit] at hcode
  obtain ⟨hcode, hstore⟩ := Installed.append_iff.mp hcode
  obtain ⟨hsubtract, htruth⟩ := Installed.append_iff.mp hcode
  -- the difference is in `D`
  have hdiff := h.straight hsubtract (by simp [popToD, topCell])
  have hdiffStays := h.stays_straight hsubtract (by simp [popToD, topCell]) (Nat.le_refl p)
    (show p + 7 ≤ p + 16 by omega)
  rw [List.append_assoc, writesAll_append, writes_popToD hregs hsp hlt] at hdiffStays
  rw [execAll_append, exec_operands hregs hsp hpos hlt] at hdiff
  generalize hram : (k.ram.poke 0 (BitVec.ofNat 16 (sp + 1))).poke (sp + 1) 0 = ram at hdiff ⊢
  have hx : ram.peek sp = k.ram.peek sp := by
    rw [← hram, peek_top_of_pop _ _ hpos hlt]
  have htop : ram.peek 0 = BitVec.ofNat 16 (sp + 1) := by
    rw [← hram, peek_pointer_of_pop _ (by omega) hlt]
  obtain ⟨n, a, hdecided, hdecidedStays⟩ := at_truthBlock hdiff hjump htruth
  have hstored := hdecided.straight hstore (by simp [topCell])
  have hstoredStays := hdecided.stays_straight hstore (by simp [topCell])
    (show p ≤ p + 7 + 6 by omega) (show p + 7 + 6 + 3 ≤ p + 16 by omega)
  rw [execAll_append, exec_topCell hregs htop] at hstored
  rw [writes_topCell_setM hregs .d htop (by omega)] at hstoredStays
  simp only [execAll_cons, execAll_nil, Instruction.exec_setM, Instruction.exec_setD, Comp.value,
    Core.m, Ram.read_ofNat, Ram.write_ofNat, hx] at hstored hstoredStays
  refine ⟨3 + (n + 7), by omega, ?_, ?_⟩
  · rw [Function.iterate_add_apply, Function.iterate_add_apply]
    exact hstored
  · have hwithin := hdecidedStays.widen (show p ≤ p + 7 by omega) (show p + 7 + 6 ≤ p + 16 by omega)
    rw [show 3 + (n + 7) = 7 + (n + 3) by omega]
    exact hdiffStays.add (hwithin.add hstoredStays)

/-- One operand. -/
theorem passes_unary (hregs : BindsRegisters symbols) {op : Op} {sp : Nat} (h : At rom p k c)
    (hop : op.isUnary = true) (hcode : Installed symbols rom p (arithmeticBlock p op))
    (hsp : k.ram.peek 0 = BitVec.ofNat 16 (sp + 1)) (hlt : sp < ramCells) :
    Passes p (p + (Command.arithmetic op).size) 3 [(sp, op.result 0 (k.ram.peek sp))] c := by
  have hsize : (Command.arithmetic op).size = 3 := if_pos hop
  have hblock : ∃ comp, arithmeticBlock p op = unaryBlock comp ∧
      comp.value ⟨BitVec.ofNat 16 sp, k.d, k.ram⟩ = op.result 0 (k.ram.peek sp) := by
    cases op with
    | neg => exact ⟨_, rfl, rfl⟩
    | not => exact ⟨_, rfl, rfl⟩
    | _ => cases hop
  obtain ⟨comp, heq, hvalue⟩ := hblock
  rw [heq] at hcode
  have hpass := h.passes_straight hcode (by simp [unaryBlock, topCell])
  rw [unaryBlock, writes_topCell_setM hregs comp hsp hlt, hvalue] at hpass
  rw [hsize]
  exact hpass

theorem reaches_unary (hregs : BindsRegisters symbols) {op : Op} {sp : Nat} (h : At rom p k c)
    (hop : op.isUnary = true) (hcode : Installed symbols rom p (arithmeticBlock p op))
    (hsp : k.ram.peek 0 = BitVec.ofNat 16 (sp + 1)) (hlt : sp < ramCells) :
    Reaches rom (p + (Command.arithmetic op).size)
      (k.ram.poke sp (op.result 0 (k.ram.peek sp))) c :=
  (passes_unary hregs h hop hcode hsp hlt).reaches h (by decide)

/-- Two operands. -/
theorem passes_binary (hregs : BindsRegisters symbols) {op : Op} {sp : Nat} (h : At rom p k c)
    (hop : op.isUnary = false) (hcode : Installed symbols rom p (arithmeticBlock p op))
    (hsp : k.ram.peek 0 = BitVec.ofNat 16 (sp + 2)) (hpos : 0 < sp) (hlt : sp + 1 < ramCells) :
    ∃ n, n ≠ 1 ∧ Passes p (p + (Command.arithmetic op).size) n
      [(0, BitVec.ofNat 16 (sp + 1)), (sp + 1, 0),
        (sp, op.result (k.ram.peek sp) (k.ram.peek (sp + 1)))] c := by
  have hx := peek_top_of_pop k.ram (BitVec.ofNat 16 (sp + 1)) hpos hlt
  have hbinary : ∀ comp, Installed symbols rom p (binaryBlock comp) →
      Passes p (p + 7) 7 [(0, BitVec.ofNat 16 (sp + 1)), (sp + 1, 0),
        (sp, comp.value ⟨BitVec.ofNat 16 sp, k.ram.peek (sp + 1),
          (k.ram.poke 0 (BitVec.ofNat 16 (sp + 1))).poke (sp + 1) 0⟩)] c := by
    intro comp hcode
    have hpass := h.passes_straight hcode (by simp [binaryBlock, popToD, topCell])
    rw [writes_binaryBlock hregs comp hsp hpos hlt] at hpass
    exact hpass
  have hcompare : ∀ jump, jump ≠ Jump.jmp → Installed symbols rom p (comparisonBlock p jump) →
      ∃ n, n ≠ 1 ∧ Passes p (p + 16) n [(0, BitVec.ofNat 16 (sp + 1)), (sp + 1, 0),
        (sp, truth (jump.holds (k.ram.peek sp - k.ram.peek (sp + 1))))] c := by
    intro jump hjump hcode
    obtain ⟨n, hn, hat, hstays⟩ := at_comparisonBlock hregs h hjump hcode hsp hpos hlt
    exact ⟨n, hn, hstays.passes h hat⟩
  cases op with
  | neg => cases hop
  | not => cases hop
  | add =>
      have hpass := hbinary .dPlusM hcode
      simp only [Comp.value, Core.m, Ram.read_ofNat, hx] at hpass
      rw [BitVec.add_comm] at hpass
      exact ⟨7, by decide, hpass⟩
  | sub =>
      have hpass := hbinary .mMinusD hcode
      simp only [Comp.value, Core.m, Ram.read_ofNat, hx] at hpass
      exact ⟨7, by decide, hpass⟩
  | and =>
      have hpass := hbinary .dAndM hcode
      simp only [Comp.value, Core.m, Ram.read_ofNat, hx] at hpass
      rw [BitVec.and_comm] at hpass
      exact ⟨7, by decide, hpass⟩
  | or =>
      have hpass := hbinary .dOrM hcode
      simp only [Comp.value, Core.m, Ram.read_ofNat, hx] at hpass
      rw [BitVec.or_comm] at hpass
      exact ⟨7, by decide, hpass⟩
  | eq => exact hcompare .jeq (by decide) hcode
  | gt => exact hcompare .jgt (by decide) hcode
  | lt => exact hcompare .jlt (by decide) hcode

theorem reaches_binary (hregs : BindsRegisters symbols) {op : Op} {sp : Nat} (h : At rom p k c)
    (hop : op.isUnary = false) (hcode : Installed symbols rom p (arithmeticBlock p op))
    (hsp : k.ram.peek 0 = BitVec.ofNat 16 (sp + 2)) (hpos : 0 < sp) (hlt : sp + 1 < ramCells) :
    Reaches rom (p + (Command.arithmetic op).size)
      (((k.ram.poke 0 (BitVec.ofNat 16 (sp + 1))).poke (sp + 1) 0).poke sp
        (op.result (k.ram.peek sp) (k.ram.peek (sp + 1)))) c := by
  obtain ⟨n, hn, hpass⟩ := passes_binary hregs h hop hcode hsp hpos hlt
  exact hpass.reaches h hn

/-! ## Segments -/

theorem passes_pushBlock (hregs : BindsRegisters symbols) {place : Place} {sp : Nat}
    (h : At rom p k c) (hcode : Installed symbols rom p (pushBlock place))
    (hsp : k.ram.peek 0 = BitVec.ofNat 16 sp) (hpos : 0 < sp) (hlt : sp < ramCells) :
    Passes p (p + (pushBlock place).length) (pushBlock place).length
      [(sp, place.word symbols k.ram), (0, BitVec.ofNat 16 (sp + 1))] c := by
  have hpass := h.passes_straight hcode (isStraight_pushBlock place)
  rwa [writes_pushBlock hregs place hsp hpos hlt] at hpass

theorem reaches_pushBlock (hregs : BindsRegisters symbols) {place : Place} {sp : Nat}
    (h : At rom p k c) (hcode : Installed symbols rom p (pushBlock place))
    (hsp : k.ram.peek 0 = BitVec.ofNat 16 sp) (hpos : 0 < sp) (hlt : sp < ramCells) :
    Reaches rom (p + (pushBlock place).length)
      ((k.ram.poke sp (place.word symbols k.ram)).poke 0 (BitVec.ofNat 16 (sp + 1))) c := by
  have hlength : (pushBlock place).length ≠ 1 := by
    rw [pushBlock, List.length_append]
    simp [pushFromD]
  exact (passes_pushBlock hregs h hcode hsp hpos hlt).reaches h hlength

theorem passes_popCode (hregs : BindsRegisters symbols) {place : Place}
    {address : List Instruction} {sp : Nat} (h : At rom p k c)
    (haddress : place.address = .ok address) (hcode : Installed symbols rom p (popCode address))
    (hsp : k.ram.peek 0 = BitVec.ofNat 16 (sp + 1)) (hpos : 13 < sp) (hlt : sp < ramCells) :
    Passes p (p + (popCode address).length) (popCode address).length
      [(13, place.location symbols k.ram), (0, BitVec.ofNat 16 sp), (sp, 0),
        ((place.location symbols k.ram).toNat % ramCells, k.ram.peek sp)] c := by
  have hpass := h.passes_straight hcode (isStraight_popCode haddress)
  rwa [writes_popCode hregs haddress hsp hpos hlt] at hpass

theorem reaches_popCode (hregs : BindsRegisters symbols) {place : Place}
    {address : List Instruction} {sp : Nat} (h : At rom p k c)
    (haddress : place.address = .ok address) (hcode : Installed symbols rom p (popCode address))
    (hsp : k.ram.peek 0 = BitVec.ofNat 16 (sp + 1)) (hpos : 13 < sp) (hlt : sp < ramCells) :
    Reaches rom (p + (popCode address).length)
      ((((k.ram.poke 13 (place.location symbols k.ram)).poke 0 (BitVec.ofNat 16 sp)).poke sp
        0).write (place.location symbols k.ram) (k.ram.peek sp)) c := by
  have hlength : (popCode address).length ≠ 1 := by
    simp only [popCode, List.length_append, List.length_cons]
    omega
  rw [Ram.write_eq_poke]
  exact (passes_popCode hregs h haddress hcode hsp hpos hlt).reaches h hlength

/-! ## Branches -/

theorem reaches_gotoBlock {target : Text} {q : Nat}
    (htarget : symbols[target]? = some (BitVec.ofNat 16 q)) (h : At rom p k c)
    (hcode : Installed symbols rom p (gotoBlock target)) : Reaches rom q k.ram c :=
  ⟨2, by decide, h.arrived_load_jump htarget hcode⟩

theorem reaches_ifGotoBlock (hregs : BindsRegisters symbols) {target : Text} {q sp : Nat}
    (htarget : symbols[target]? = some (BitVec.ofNat 16 q)) (h : At rom p k c)
    (hcode : Installed symbols rom p (ifGotoBlock target))
    (hsp : k.ram.peek 0 = BitVec.ofNat 16 (sp + 1)) (hpos : 0 < sp) (hlt : sp < ramCells) :
    Reaches rom (if k.ram.peek sp = 0 then p + 6 else q)
      ((k.ram.poke 0 (BitVec.ofNat 16 sp)).poke sp 0) c := by
  have hsplit : ifGotoBlock target = (popToD ++ [.symbol target]) ++ [.jumpOn .d .jne] := by
    rw [ifGotoBlock, List.append_assoc, List.singleton_append]
  rw [hsplit] at hcode
  obtain ⟨hpop, hjump⟩ := Installed.append_iff.mp hcode
  have hpopped := h.straight hpop (by simp [popToD])
  rw [execAll_append, exec_popToD hregs hsp hpos hlt] at hpopped
  simp only [execAll_cons, execAll_nil, Instruction.exec_symbol htarget] at hpopped
  obtain ⟨hrom, hcore, hpc, hhalted⟩ := hpopped.jump hjump
  have hat : At rom (if k.ram.peek sp = 0 then p + 6 else q)
      ⟨BitVec.ofNat 16 q, k.ram.peek sp, (k.ram.poke 0 (BitVec.ofNat 16 sp)).poke sp 0⟩
      (Cpu.step^[6] c) := by
    refine ⟨hrom, hpc.trans ?_, hcore, hhalted⟩
    show (if (k.ram.peek sp != 0) = true then _ else _) = _
    by_cases hzero : k.ram.peek sp = 0
    · rw [if_neg (by simp [hzero]), if_pos hzero]
      rfl
    · rw [if_pos (bne_iff_ne.mpr hzero), if_neg hzero]
  exact ⟨6, by decide, hat.arrived⟩

/-! ## Calls and returns -/

/-- The word of a jump. -/
def jumpWord : Word := encodeCompute Comp.zero.code Dest.nowhere.code Jump.jmp.code

theorem functionCode_second {n : Nat} (hn : 0 < n) : (functionCode n)[1]? = some (.setD .m) := by
  obtain ⟨m, rfl⟩ := Nat.exists_eq_succ_of_ne_zero (by omega : n ≠ 0)
  rw [functionCode, Int.toNat_natCast, List.range_succ_eq_map, List.flatMap_cons]
  rfl

/-- The start of a function is not the end of a call: where its second instruction stands, a call
has a jump. -/
theorem functionCode_ne_jump {q n : Nat} {target : Text} (hn : 0 < n)
    (hfunction : Installed symbols rom q (functionCode n)) :
    ¬Installed symbols rom q [.symbol target, .jump] := by
  intro hjump
  obtain ⟨w, hw, hrom⟩ := hfunction.words 1 _ (functionCode_second hn)
  obtain ⟨w', hw', hrom'⟩ := hjump.words 1 _ rfl
  rw [hrom] at hrom'
  cases hrom'
  rw [← hw'] at hw
  exact absurd (Option.some.inj hw) (by decide)

/-- A call, up to the first command of the function. -/
theorem reaches_call (hregs : BindsRegisters symbols) {back function : Text} {args : Int}
    {sp q n : Nat} {w : Word} (h : At rom p k c)
    (hcode : Installed symbols rom p (callCode back function args))
    (hback : symbols[back]? = some w) (hfunction : symbols[function]? = some (BitVec.ofNat 16 q))
    (hentry : Installed symbols rom q (functionCode n)) (hsp : k.ram.peek 0 = BitVec.ofNat 16 sp)
    (hpos : 4 < sp) (hlt : sp + 5 + n ≤ ramCells) (hargs : args.toNat ≤ sp) :
    Reaches rom (q + (functionCode n).length)
      (entered (called k.ram sp args.toNat w) (sp + 5) n) c := by
  rw [callCode_eq] at hcode
  obtain ⟨hframe, hjump⟩ := Installed.append_iff.mp hcode
  have hframed := h.straight hframe (isStraight_callPart back args)
  rw [exec_call hregs hback hsp hpos (by omega) hargs] at hframed
  have harrived := hframed.arrived_load_jump hfunction hjump
  rw [← Function.iterate_add_apply] at harrived
  rcases Nat.eq_zero_or_pos n with rfl | hn
  · exact ⟨_, by omega, harrived⟩
  · -- the jump does not halt: what it goes to is not the load of its own target
    have hrun : (Cpu.step^[2 + (saveFrame back ++ moveFrame args).length] c).halted = false := by
      obtain ⟨-, -, -, hhalted⟩ := hframed.load_jump hfunction hjump
      rw [Function.iterate_add_apply, hhalted, beq_eq_false_iff_ne]
      intro heq
      have hsize : programSize = 0x8000 := rfl
      have hentryFits := hentry.fits
      have hjumpFits := hjump.fits
      have hsame := ofNat_injective_of_lt (by omega) (by omega) heq
      rw [← hsame] at hjump
      exact functionCode_ne_jump hn hentry hjump
    have hlcl : (called k.ram sp args.toNat w).peek 1 = BitVec.ofNat 16 (sp + 5) :=
      Ram.peek_poke_self _ _ _
    have hentered := (harrived.at hrun).straight hentry (isStraight_functionCode n)
    obtain ⟨a, d, hexec⟩ := exec_functionCode (k := ⟨_, _, called k.ram sp args.toNat w⟩) hregs n
      hlcl (by omega) hlt
    rw [hexec, ← Function.iterate_add_apply] at hentered
    exact ⟨_, by omega, hentered.arrived⟩

/-- A return goes to the address that is saved in the frame. -/
theorem return_jumps (hregs : BindsRegisters symbols) {lcl arg sp : Nat} (h : At rom p k c)
    (hcode : Installed symbols rom p returnBlock)
    (hlcl : k.ram.peek 1 = BitVec.ofNat 16 lcl) (harg : k.ram.peek 2 = BitVec.ofNat 16 arg)
    (hsp : k.ram.peek 0 = BitVec.ofNat 16 (sp + 1)) (hlow : 15 < arg) (hframe : arg + 5 ≤ lcl)
    (hstack : lcl ≤ sp) (hlt : sp < ramCells) :
    (Cpu.step^[51] c).rom = rom ∧
      (∃ d, (Cpu.step^[51] c).core = ⟨k.ram.peek (lcl - 5), d, returned k.ram lcl arg sp⟩) ∧
      (Cpu.step^[51] c).pc = k.ram.peek (lcl - 5) ∧
      (Cpu.step^[51] c).halted = (k.ram.peek (lcl - 5) + 1 == BitVec.ofNat 16 (p + 50)) := by
  rw [returnBlock_eq] at hcode
  obtain ⟨hunwind, hjump⟩ := Installed.append_iff.mp hcode
  have hunwound := h.straight hunwind isStraight_unwind
  obtain ⟨d, hexec⟩ := exec_return hregs hlcl harg hsp hlow hframe hstack hlt
  rw [hexec] at hunwound
  obtain ⟨hrom, hcore, hpc, hhalted⟩ := hunwound.jump hjump
  rw [length_unwind] at hrom hcore hpc hhalted
  rw [← Function.iterate_succ_apply' Cpu.step] at hrom hcore hpc hhalted
  exact ⟨hrom, ⟨d, hcore⟩, hpc, hhalted⟩

/-- A return to a place behind a jump does not halt: the word before the target of a halting return
would be the load of `R15`. -/
theorem return_continues (hregs : BindsRegisters symbols) {q : Nat}
    (hcode : Installed symbols rom p returnBlock) (hfits : q < programSize)
    (hjumped : rom[q]? = some jumpWord) :
    (BitVec.ofNat 16 (q + 1) + 1 == BitVec.ofNat 16 (p + 50)) = false := by
  have hscratch : rom[p + 48]? = some 15 := by
    obtain ⟨w, hw, hrom⟩ := hcode.words 48 (.symbol "R15") rfl
    rw [Array.getElem?_toList] at hrom
    rw [hrom, ← hw]
    exact hregs.r15
  have hreturnFits := hcode.fits
  have hsize : programSize = 0x8000 := rfl
  have hlength : returnBlock.length = 51 := rfl
  rw [beq_eq_false_iff_ne]
  intro heq
  rw [ofNat_add_one] at heq
  have hsame := ofNat_injective_of_lt (by omega) (by omega) heq
  rw [show q = p + 48 by omega, hscratch] at hjumped
  exact absurd (Option.some.inj hjumped) (by decide)

/-- A return to a place behind a jump. -/
theorem reaches_return (hregs : BindsRegisters symbols) {lcl arg sp q : Nat} (h : At rom p k c)
    (hcode : Installed symbols rom p returnBlock)
    (hlcl : k.ram.peek 1 = BitVec.ofNat 16 lcl) (harg : k.ram.peek 2 = BitVec.ofNat 16 arg)
    (hsp : k.ram.peek 0 = BitVec.ofNat 16 (sp + 1)) (hlow : 15 < arg) (hframe : arg + 5 ≤ lcl)
    (hstack : lcl ≤ sp) (hlt : sp < ramCells)
    (hback : k.ram.peek (lcl - 5) = BitVec.ofNat 16 (q + 1)) (hfits : q < programSize)
    (hjumped : rom[q]? = some jumpWord) :
    Reaches rom (q + 1) (returned k.ram lcl arg sp) c := by
  obtain ⟨hrom, ⟨d, hcore⟩, hpc, hhalted⟩ :=
    return_jumps hregs h hcode hlcl harg hsp hlow hframe hstack hlt
  rw [hback] at hpc hhalted
  have hat : At rom (q + 1) _ (Cpu.step^[51] c) :=
    ⟨hrom, hpc, hcore, hhalted.trans (return_continues hregs hcode hfits hjumped)⟩
  exact ⟨51, by decide, hat.arrived⟩

end

end HackStack.Lowering
