import HackStack.Lowering.Block
import HackStack.Proofs.Lowering.Block
import HackStack.Proofs.Machine.Trace

/-!
# What blocks do

The effect of each straight-line part of the generated code on the registers and the memory, as a
chain of writes, and for the parts of data commands the writes that they make on the way. `SP` is
word 0; where a lemma speaks of the stack it is told that `SP` holds some number `sp` that is an
address above the registers.
-/

namespace HackStack.Lowering

open HackStack.Assembly
open HackStack.Machine
open HackStack.Vm

/-- The predefined symbols have their addresses. -/
def BindsRegisters (symbols : Bindings) : Prop := ∀ r ∈ predefined, symbols[r.1]? = some r.2

theorem ofNat_succ_sub_one (n : Nat) : BitVec.ofNat 16 (n + 1) - 1 = BitVec.ofNat 16 n := by
  rw [BitVec.ofNat_add]
  exact BitVec.add_sub_cancel _ _

theorem ofNat_add_one (n : Nat) : BitVec.ofNat 16 n + 1 = BitVec.ofNat 16 (n + 1) := by
  rw [BitVec.ofNat_add]
  rfl

theorem peek_pointer_of_pop (ram : Ram) {sp : Nat} (hpos : 0 < sp) (hlt : sp < ramCells) :
    ((ram.poke 0 (BitVec.ofNat 16 sp)).poke sp 0).peek 0 = BitVec.ofNat 16 sp := by
  rw [Ram.peek_poke_of_ne _ _ hlt (by decide) (by omega), Ram.peek_poke_self]

theorem peek_top_of_pop (ram : Ram) (v : Word) {sp : Nat} (hpos : 0 < sp)
    (hlt : sp + 1 < ramCells) : ((ram.poke 0 v).poke (sp + 1) 0).peek sp = ram.peek sp := by
  rw [Ram.peek_poke_of_ne _ _ hlt (by omega) (by omega),
    Ram.peek_poke_of_ne _ _ (by decide) (by omega) (by omega)]

section

variable {symbols : Bindings} (hregs : BindsRegisters symbols) {k : Core}
include hregs

theorem BindsRegisters.sp : symbols[("SP" : Text)]? = some (BitVec.ofNat 16 0) :=
  hregs ("SP", 0) (by decide)

theorem BindsRegisters.lcl : symbols[("LCL" : Text)]? = some (BitVec.ofNat 16 1) :=
  hregs ("LCL", 1) (by decide)

theorem BindsRegisters.arg : symbols[("ARG" : Text)]? = some (BitVec.ofNat 16 2) :=
  hregs ("ARG", 2) (by decide)

theorem BindsRegisters.this : symbols[("THIS" : Text)]? = some (BitVec.ofNat 16 3) :=
  hregs ("THIS", 3) (by decide)

theorem BindsRegisters.that : symbols[("THAT" : Text)]? = some (BitVec.ofNat 16 4) :=
  hregs ("THAT", 4) (by decide)

theorem BindsRegisters.r13 : symbols[("R13" : Text)]? = some (BitVec.ofNat 16 13) :=
  hregs ("R13", 13) (by decide)

theorem BindsRegisters.r14 : symbols[("R14" : Text)]? = some (BitVec.ofNat 16 14) :=
  hregs ("R14", 14) (by decide)

theorem BindsRegisters.r15 : symbols[("R15" : Text)]? = some (BitVec.ofNat 16 15) :=
  hregs ("R15", 15) (by decide)

/-! ## The stack -/

theorem exec_pushFromD {sp : Nat} (hsp : k.ram.peek 0 = BitVec.ofNat 16 sp) (hpos : 0 < sp)
    (hlt : sp < ramCells) :
    execAll symbols pushFromD k =
      ⟨BitVec.ofNat 16 0, k.d, (k.ram.poke sp k.d).poke 0 (BitVec.ofNat 16 (sp + 1))⟩ := by
  have hkeep : (k.ram.poke sp k.d).peek 0 = BitVec.ofNat 16 sp := by
    rw [Ram.peek_poke_of_ne _ _ hlt (by decide) (by omega), hsp]
  simp only [pushFromD, execAll_cons, execAll_nil, Instruction.exec_symbol hregs.sp,
    Instruction.exec_setA, Instruction.exec_setM, Comp.value, Core.m, Ram.read_ofNat, hsp,
    Ram.write_ofNat, hkeep, ofNat_add_one]

theorem exec_popToD {sp : Nat} (hsp : k.ram.peek 0 = BitVec.ofNat 16 (sp + 1)) (hpos : 0 < sp)
    (hlt : sp < ramCells) :
    execAll symbols popToD k =
      ⟨BitVec.ofNat 16 sp, k.ram.peek sp, (k.ram.poke 0 (BitVec.ofNat 16 sp)).poke sp 0⟩ := by
  have hkeep : (k.ram.poke 0 (BitVec.ofNat 16 sp)).peek sp = k.ram.peek sp :=
    Ram.peek_poke_of_ne _ _ (by decide) hlt (by omega)
  simp only [popToD, execAll_cons, execAll_nil, Instruction.exec_symbol hregs.sp,
    Instruction.exec_setAM, Instruction.exec_setD, Instruction.exec_setM, Comp.value, Core.m,
    Ram.read_ofNat, hsp, ofNat_succ_sub_one, Ram.write_ofNat, hkeep]

theorem exec_topCell {sp : Nat} (hsp : k.ram.peek 0 = BitVec.ofNat 16 (sp + 1)) :
    execAll symbols topCell k = ⟨BitVec.ofNat 16 sp, k.d, k.ram⟩ := by
  simp only [topCell, execAll_cons, execAll_nil, Instruction.exec_symbol hregs.sp,
    Instruction.exec_setA, Comp.value, Core.m, Ram.read_ofNat, hsp, ofNat_succ_sub_one]

theorem writes_pushFromD {sp : Nat} (hsp : k.ram.peek 0 = BitVec.ofNat 16 sp) (hpos : 0 < sp)
    (hlt : sp < ramCells) :
    writesAll symbols pushFromD k = [(sp, k.d), (0, BitVec.ofNat 16 (sp + 1))] := by
  have hkeep : (k.ram.poke sp k.d).peek 0 = BitVec.ofNat 16 sp := by
    rw [Ram.peek_poke_of_ne _ _ hlt (by decide) (by omega), hsp]
  have hzero : (Ram.cell (BitVec.ofNat 16 0)).1 = 0 := Ram.cell_ofNat (by decide)
  simp only [pushFromD, writesAll, Instruction.exec_symbol hregs.sp, Instruction.exec_setA,
    Instruction.exec_setM, Instruction.write?_symbol, Instruction.write?_setA,
    Instruction.write?_setM, Option.toList_none, Option.toList_some, List.nil_append,
    List.cons_append, Comp.value, Core.m, Ram.read_ofNat, hsp, Ram.write_ofNat, hkeep,
    ofNat_add_one, Ram.cell_ofNat hlt, hzero]

theorem writes_popToD {sp : Nat} (hsp : k.ram.peek 0 = BitVec.ofNat 16 (sp + 1))
    (hlt : sp < ramCells) :
    writesAll symbols popToD k = [(0, BitVec.ofNat 16 sp), (sp, 0)] := by
  have hzero : (Ram.cell (BitVec.ofNat 16 0)).1 = 0 := Ram.cell_ofNat (by decide)
  simp only [popToD, writesAll, Instruction.exec_symbol hregs.sp, Instruction.exec_setAM,
    Instruction.exec_setD, Instruction.write?_symbol, Instruction.write?_setAM,
    Instruction.write?_setD, Instruction.write?_setM, Option.toList_none, Option.toList_some,
    List.nil_append, List.cons_append, Comp.value, Core.m, Ram.read_ofNat, hsp, ofNat_succ_sub_one,
    Ram.cell_ofNat hlt, hzero]

theorem writes_topCell_setM {sp : Nat} (comp : Comp)
    (hsp : k.ram.peek 0 = BitVec.ofNat 16 (sp + 1)) (hlt : sp < ramCells) :
    writesAll symbols (topCell ++ [.setM comp]) k =
      [(sp, comp.value ⟨BitVec.ofNat 16 sp, k.d, k.ram⟩)] := by
  rw [writesAll_append, exec_topCell hregs hsp]
  simp only [topCell, writesAll, Instruction.write?_symbol, Instruction.write?_setA,
    Instruction.write?_setM, Option.toList_none, Option.toList_some, List.nil_append,
    List.append_nil, Ram.cell_ofNat hlt]

/-- The state in the middle of a binary operation: the topmost word is in `D`, and `A` addresses the
one below it. -/
theorem exec_operands {sp : Nat} (hsp : k.ram.peek 0 = BitVec.ofNat 16 (sp + 2)) (hpos : 0 < sp)
    (hlt : sp + 1 < ramCells) :
    execAll symbols (popToD ++ topCell) k =
      ⟨BitVec.ofNat 16 sp, k.ram.peek (sp + 1),
        (k.ram.poke 0 (BitVec.ofNat 16 (sp + 1))).poke (sp + 1) 0⟩ := by
  rw [execAll_append, exec_popToD hregs hsp (by omega) hlt,
    exec_topCell hregs (peek_pointer_of_pop k.ram (by omega) hlt)]

theorem writes_binaryBlock {sp : Nat} (comp : Comp)
    (hsp : k.ram.peek 0 = BitVec.ofNat 16 (sp + 2)) (hpos : 0 < sp) (hlt : sp + 1 < ramCells) :
    writesAll symbols (binaryBlock comp) k =
      [(0, BitVec.ofNat 16 (sp + 1)), (sp + 1, 0),
        (sp, comp.value ⟨BitVec.ofNat 16 sp, k.ram.peek (sp + 1),
          (k.ram.poke 0 (BitVec.ofNat 16 (sp + 1))).poke (sp + 1) 0⟩)] := by
  have htop := peek_pointer_of_pop k.ram (show 0 < sp + 1 by omega) hlt
  rw [binaryBlock, List.append_assoc, writesAll_append, writes_popToD hregs hsp hlt,
    exec_popToD hregs hsp (by omega) hlt, writes_topCell_setM hregs comp htop (by omega)]
  rfl

end

/-! ## Places -/

def Place.word (symbols : Bindings) (ram : Ram) : Place → Word
  | immediate value => BitVec.ofNat 16 value.toNat
  | offset base index =>
    ram.read (ram.read ((symbols[base]?).getD 0) + BitVec.ofNat 16 index.toNat)
  | fixed address => ram.read (((Instruction.load address).word? symbols).getD 0)

def Place.location (symbols : Bindings) (ram : Ram) : Place → Word
  | immediate _ => 0
  | offset base index => ram.read ((symbols[base]?).getD 0) + BitVec.ofNat 16 index.toNat
  | fixed address => ((Instruction.load address).word? symbols).getD 0

theorem Place.word_eq_read {unit : Text} {s : Segment} {i : Int} {p : Place}
    (h : place unit s i = .ok p) (hs : s ≠ .constant) (symbols : Bindings) (ram : Ram) :
    p.word symbols ram = ram.read (p.location symbols ram) := by
  cases p with
  | immediate value =>
      cases s with
      | constant => exact absurd rfl hs
      | temp =>
          simp only [place] at h
          split at h <;> cases h
      | pointer =>
          simp only [place] at h
          split at h <;> cases h
      | _ => cases h
  | offset base index => rfl
  | fixed address => rfl

theorem exec_read {symbols : Bindings} {k : Core} (p : Place) :
    ∃ a, execAll symbols p.read k = ⟨a, p.word symbols k.ram, k.ram⟩ := by
  cases p with
  | immediate value => exact ⟨_, rfl⟩
  | offset base index => exact ⟨_, rfl⟩
  | fixed address => exact ⟨_, rfl⟩

theorem exec_address {symbols : Bindings} {k : Core} {p : Place} {code : List Instruction}
    (h : p.address = .ok code) :
    ∃ a, execAll symbols code k = ⟨a, p.location symbols k.ram, k.ram⟩ := by
  cases p with
  | immediate value => cases h
  | offset base index =>
      cases h
      exact ⟨_, rfl⟩
  | fixed address =>
      cases h
      exact ⟨_, rfl⟩

theorem writes_read (symbols : Bindings) (k : Core) (p : Place) :
    writesAll symbols p.read k = [] := by
  cases p <;> rfl

theorem writes_address (symbols : Bindings) (k : Core) {p : Place} {code : List Instruction}
    (h : p.address = .ok code) : writesAll symbols code k = [] := by
  cases p with
  | immediate value => cases h
  | offset base index =>
      cases h
      rfl
  | fixed address =>
      cases h
      rfl

section

variable {symbols : Bindings} (hregs : BindsRegisters symbols) {k : Core}
include hregs

theorem writes_pushBlock {sp : Nat} (p : Place) (hsp : k.ram.peek 0 = BitVec.ofNat 16 sp)
    (hpos : 0 < sp) (hlt : sp < ramCells) :
    writesAll symbols (pushBlock p) k =
      [(sp, p.word symbols k.ram), (0, BitVec.ofNat 16 (sp + 1))] := by
  obtain ⟨a, hread⟩ := @exec_read symbols k p
  rw [pushBlock, writesAll_append, writes_read, hread]
  exact writes_pushFromD hregs (k := ⟨a, p.word symbols k.ram, k.ram⟩) hsp hpos hlt

/-- A pop up to its last write. The address is kept in `R13` while the word is popped into `D`. -/
theorem exec_popKept {sp : Nat} {p : Place} {address : List Instruction}
    (ha : p.address = .ok address) (hsp : k.ram.peek 0 = BitVec.ofNat 16 (sp + 1)) (hpos : 13 < sp)
    (hlt : sp < ramCells) :
    execAll symbols (address ++ [.symbol "R13", .setM .d] ++ popToD) k =
        ⟨BitVec.ofNat 16 sp, k.ram.peek sp,
          ((k.ram.poke 13 (p.location symbols k.ram)).poke 0 (BitVec.ofNat 16 sp)).poke sp 0⟩ ∧
      writesAll symbols (address ++ [.symbol "R13", .setM .d] ++ popToD) k =
        [(13, p.location symbols k.ram), (0, BitVec.ofNat 16 sp), (sp, 0)] := by
  obtain ⟨a, haddress⟩ := @exec_address symbols k p address ha
  generalize p.location symbols k.ram = w at haddress ⊢
  have hsp' : (k.ram.poke 13 w).peek 0 = BitVec.ofNat 16 (sp + 1) := by
    rw [Ram.peek_poke_of_ne _ _ (by decide) (by decide) (by decide), hsp]
  have hword : (k.ram.poke 13 w).peek sp = k.ram.peek sp :=
    Ram.peek_poke_of_ne _ _ (by decide) hlt (by omega)
  have hkept : execAll symbols (address ++ [.symbol "R13", .setM .d]) k =
      ⟨BitVec.ofNat 16 13, w, k.ram.poke 13 w⟩ := by
    simp only [execAll_append, haddress, execAll_cons, execAll_nil,
      Instruction.exec_symbol hregs.r13, Instruction.exec_setM, Comp.value, Ram.write_ofNat]
  have hwrite : writesAll symbols (address ++ [.symbol "R13", .setM .d]) k = [(13, w)] := by
    rw [writesAll_append, writes_address symbols k ha, haddress]
    simp only [writesAll, Instruction.exec_symbol hregs.r13, Instruction.write?_symbol,
      Instruction.write?_setM, Option.toList_none, Option.toList_some, List.nil_append,
      List.append_nil, Comp.value, Ram.cell_ofNat (show 13 < ramCells by decide)]
  constructor
  · rw [execAll_append, hkept,
      exec_popToD hregs (k := ⟨BitVec.ofNat 16 13, w, k.ram.poke 13 w⟩) hsp' (by omega) hlt, hword]
  · rw [writesAll_append, hwrite, hkept,
      writes_popToD hregs (k := ⟨BitVec.ofNat 16 13, w, k.ram.poke 13 w⟩) hsp' hlt]
    rfl

omit hregs in
theorem peek_popKept (ram : Ram) (w : Word) {sp : Nat} (hpos : 13 < sp) (hlt : sp < ramCells) :
    (((ram.poke 13 w).poke 0 (BitVec.ofNat 16 sp)).poke sp 0).peek 13 = w := by
  rw [Ram.peek_poke_of_ne _ _ hlt (by decide) (by omega),
    Ram.peek_poke_of_ne _ _ (by decide) (by decide) (by decide), Ram.peek_poke_self]

/-- The last write goes to the address from before the pop, wherever that leads. -/
theorem writes_popCode {sp : Nat} {p : Place} {address : List Instruction}
    (ha : p.address = .ok address) (hsp : k.ram.peek 0 = BitVec.ofNat 16 (sp + 1)) (hpos : 13 < sp)
    (hlt : sp < ramCells) :
    writesAll symbols (popCode address) k =
      [(13, p.location symbols k.ram), (0, BitVec.ofNat 16 sp), (sp, 0),
        ((p.location symbols k.ram).toNat % ramCells, k.ram.peek sp)] := by
  obtain ⟨hexec, hwrites⟩ := exec_popKept hregs ha hsp hpos hlt
  rw [popCode, writesAll_append, hexec, hwrites]
  simp only [writesAll, Instruction.exec_symbol hregs.r13, Instruction.exec_setA,
    Instruction.write?_symbol, Instruction.write?_setA, Instruction.write?_setM,
    Option.toList_none, Option.toList_some, List.nil_append, List.append_nil, List.cons_append,
    Comp.value, Core.m, Ram.read_ofNat, peek_popKept _ _ hpos hlt]
  rfl

/-! ## Calls -/

theorem exec_saveRegister {sp r : Nat} {register : Text}
    (hr : symbols[register]? = some (BitVec.ofNat 16 r))
    (hsp : k.ram.peek 0 = BitVec.ofNat 16 sp) (hpos : 0 < sp) (hlt : sp < ramCells) :
    execAll symbols (saveRegister register) k =
      ⟨BitVec.ofNat 16 0, k.ram.peek r,
        (k.ram.poke sp (k.ram.peek r)).poke 0 (BitVec.ofNat 16 (sp + 1))⟩ := by
  rw [saveRegister, execAll_append]
  simp only [execAll_cons, execAll_nil, Instruction.exec_symbol hr, Instruction.exec_setD,
    Comp.value, Core.m, Ram.read_ofNat]
  exact exec_pushFromD hregs (k := ⟨BitVec.ofNat 16 r, k.ram.peek r, k.ram⟩) hsp hpos hlt

end

def saveFrame (back : Text) : List Instruction :=
  [.symbol back, .setD .a] ++ pushFromD ++
    saveRegister "LCL" ++ saveRegister "ARG" ++ saveRegister "THIS" ++ saveRegister "THAT"

/-- The part of a call that saves the word in `A` and the registers. -/
def saveCaller : List Instruction :=
  [.setD .a] ++ pushFromD ++
    saveRegister "LCL" ++ saveRegister "ARG" ++ saveRegister "THIS" ++ saveRegister "THAT"

theorem saveFrame_eq (back : Text) : saveFrame back = .symbol back :: saveCaller := rfl

def moveFrame (args : Int) : List Instruction :=
  [.symbol "SP", .setD .m, .number args, .setD .dMinusA, .number frameSize, .setD .dMinusA,
      .symbol "ARG", .setM .d] ++
    [.symbol "SP", .setD .m, .symbol "LCL", .setM .d]

theorem callCode_eq (back function : Text) (args : Int) :
    callCode back function args =
      saveFrame back ++ moveFrame args ++ [.symbol function, .jump] := by
  simp only [callCode, saveFrame, moveFrame, List.append_assoc]

/-- Memory after a frame has been saved at `sp`. -/
def framed (ram : Ram) (sp : Nat) (back : Word) : Ram :=
  ((((ram.poke sp back).poke (sp + 1) (ram.peek 1)).poke (sp + 2) (ram.peek 2)).poke (sp + 3)
    (ram.peek 3)).poke (sp + 4) (ram.peek 4)

theorem ofNat_sub_ofNat {n m : Nat} (h : m ≤ n) :
    BitVec.ofNat 16 n - BitVec.ofNat 16 m = BitVec.ofNat 16 (n - m) := by
  obtain ⟨d, rfl⟩ := Nat.exists_eq_add_of_le h
  rw [Nat.add_sub_cancel_left, Nat.add_comm, BitVec.ofNat_add]
  exact BitVec.add_sub_cancel _ _

section

variable {symbols : Bindings} (hregs : BindsRegisters symbols)
include hregs

/-- A push after `SP` has been written: only the last value of `SP` stays. -/
theorem exec_push_next {a d : Word} {ram : Ram} {sp : Nat} (hpos : 0 < sp) (hlt : sp < ramCells) :
    execAll symbols pushFromD ⟨a, d, ram.poke 0 (BitVec.ofNat 16 sp)⟩ =
      ⟨BitVec.ofNat 16 0, d, (ram.poke sp d).poke 0 (BitVec.ofNat 16 (sp + 1))⟩ := by
  rw [exec_pushFromD hregs (Ram.peek_poke_self ram 0 _) hpos hlt,
    Ram.poke_comm _ _ _ (by decide) hlt (by omega), Ram.poke_poke_self _ _ _ (by decide)]

theorem exec_save_next {a d : Word} {ram : Ram} {sp r : Nat} {register : Text}
    (hr : symbols[register]? = some (BitVec.ofNat 16 r)) (hrpos : 0 < r) (hrlt : r < ramCells)
    (hpos : 0 < sp) (hlt : sp < ramCells) :
    execAll symbols (saveRegister register) ⟨a, d, ram.poke 0 (BitVec.ofNat 16 sp)⟩ =
      ⟨BitVec.ofNat 16 0, ram.peek r,
        (ram.poke sp (ram.peek r)).poke 0 (BitVec.ofNat 16 (sp + 1))⟩ := by
  have hkeep : (ram.poke 0 (BitVec.ofNat 16 sp)).peek r = ram.peek r :=
    Ram.peek_poke_of_ne _ _ (by decide) hrlt (by omega)
  rw [exec_saveRegister hregs hr (Ram.peek_poke_self ram 0 _) hpos hlt, hkeep,
    Ram.poke_comm _ _ _ (by decide) hlt (by omega), Ram.poke_poke_self _ _ _ (by decide)]

theorem exec_saveCaller {k : Core} {sp : Nat} (hsp : k.ram.peek 0 = BitVec.ofNat 16 sp)
    (hpos : 4 < sp) (hlt : sp + 4 < ramCells) :
    execAll symbols saveCaller k =
      ⟨BitVec.ofNat 16 0, k.ram.peek 4,
        (framed k.ram sp k.a).poke 0 (BitVec.ofNat 16 (sp + 5))⟩ := by
  have hcells : ramCells = 0x8000 := rfl
  have hstart : k.ram = k.ram.poke 0 (BitVec.ofNat 16 sp) := by
    rw [← hsp, Ram.poke_peek_self _ (by decide)]
  have hpush := @exec_push_next symbols hregs k.a k.a k.ram sp (by omega) (by omega)
  rw [← hstart] at hpush
  simp only [saveCaller, execAll_append]
  simp only [execAll_cons, execAll_nil, Instruction.exec_setD, Comp.value, hpush]
  rw [exec_save_next hregs hregs.lcl (by omega) (by omega) (by omega) (by omega),
    exec_save_next hregs hregs.arg (by omega) (by omega) (by omega) (by omega),
    exec_save_next hregs hregs.this (by omega) (by omega) (by omega) (by omega),
    exec_save_next hregs hregs.that (by omega) (by omega) (by omega) (by omega)]
  simp (disch := omega) only [Ram.peek_poke_of_ne]
  rfl

/-- Memory after a call has been prepared: the frame is saved, and `SP`, `ARG` and `LCL` are those
of the callee. -/
def called (ram : Ram) (sp args : Nat) (back : Word) : Ram :=
  (((framed ram sp back).poke 0 (BitVec.ofNat 16 (sp + 5))).poke 2
    (BitVec.ofNat 16 (sp - args))).poke 1 (BitVec.ofNat 16 (sp + 5))

/-- A call up to its jump, whatever word is in `A` after the first load. -/
theorem exec_prepareCall {k : Core} {sp : Nat} {args : Int}
    (hsp : k.ram.peek 0 = BitVec.ofNat 16 sp) (hpos : 4 < sp) (hlt : sp + 4 < ramCells)
    (hargs : args.toNat ≤ sp) :
    execAll symbols (saveCaller ++ moveFrame args) k =
      ⟨BitVec.ofNat 16 1, BitVec.ofNat 16 (sp + 5), called k.ram sp args.toNat k.a⟩ := by
  have hsave := exec_saveCaller hregs hsp hpos hlt
  have hsp' := Ram.peek_poke_self (framed k.ram sp k.a) 0 (BitVec.ofNat 16 (sp + 5))
  have hsp'' : (((framed k.ram sp k.a).poke 0 (BitVec.ofNat 16 (sp + 5))).poke 2
      (BitVec.ofNat 16 (sp - args.toNat))).peek 0 = BitVec.ofNat 16 (sp + 5) := by
    rw [Ram.peek_poke_of_ne _ _ (by decide) (by decide) (by decide), hsp']
  have harg : BitVec.ofNat 16 (sp + 5) - BitVec.ofNat 16 args.toNat -
      BitVec.ofNat 16 (frameSize : Int).toNat = BitVec.ofNat 16 (sp - args.toNat) := by
    have hframe : (frameSize : Int).toNat = 5 := rfl
    rw [ofNat_sub_ofNat (by omega), hframe, ofNat_sub_ofNat (by omega)]
    congr 1
    omega
  rw [execAll_append, hsave]
  simp only [moveFrame, execAll_append, execAll_cons, execAll_nil,
    Instruction.exec_symbol hregs.sp, Instruction.exec_symbol hregs.arg,
    Instruction.exec_symbol hregs.lcl, Instruction.exec_setD, Instruction.exec_setM,
    Instruction.exec_number, Comp.value, Core.m, Ram.read_ofNat, hsp', harg, Ram.write_ofNat, hsp'']
  rfl

theorem exec_call {k : Core} {sp : Nat} {back : Text} {args : Int} {w : Word}
    (hback : symbols[back]? = some w) (hsp : k.ram.peek 0 = BitVec.ofNat 16 sp) (hpos : 4 < sp)
    (hlt : sp + 4 < ramCells) (hargs : args.toNat ≤ sp) :
    execAll symbols (saveFrame back ++ moveFrame args) k =
      ⟨BitVec.ofNat 16 1, BitVec.ofNat 16 (sp + 5), called k.ram sp args.toNat w⟩ := by
  rw [saveFrame_eq, List.cons_append, execAll_cons, Instruction.exec_symbol hback]
  exact exec_prepareCall (k := ⟨w, k.d, k.ram⟩) hregs hsp hpos hlt hargs

end

/-! ## Returns -/

/-- Keeps the end of the saved frame in `R14` and the return address in `R15`. -/
def keepFrame : List Instruction :=
  [.symbol "LCL", .setD .m, .symbol "R14", .setM .d] ++
    [.number frameSize, .setA .dMinusA, .setD .m, .symbol "R15", .setM .d]

/-- Moves the topmost word to where the arguments began, and `SP` behind it. -/
def putValue : List Instruction :=
  popToD ++ [.symbol "ARG", .setA .m, .setM .d] ++
    [.symbol "ARG", .setD .mPlusOne, .symbol "SP", .setM .d]

def restoreFrame : List Instruction :=
  restoreRegister "THAT" 1 ++ restoreRegister "THIS" 2 ++ restoreRegister "ARG" 3 ++
    restoreRegister "LCL" 4

/-- A return, but for its jump. -/
def unwind : List Instruction :=
  keepFrame ++ putValue ++ restoreFrame ++ [.symbol "R15", .setA .m]

theorem returnBlock_eq : returnBlock = unwind ++ [.jump] := rfl

theorem length_unwind : unwind.length = 50 := rfl

section

variable {symbols : Bindings} (hregs : BindsRegisters symbols)
include hregs

theorem exec_keepFrame {k : Core} {lcl : Nat} (hlcl : k.ram.peek 1 = BitVec.ofNat 16 lcl)
    (hlow : 20 ≤ lcl) (hlt : lcl < ramCells + 5) :
    execAll symbols keepFrame k =
      ⟨BitVec.ofNat 16 15, k.ram.peek (lcl - 5),
        (k.ram.poke 14 (BitVec.ofNat 16 lcl)).poke 15 (k.ram.peek (lcl - 5))⟩ := by
  have hfive : (frameSize : Int).toNat = 5 := rfl
  have hback : (k.ram.poke 14 (BitVec.ofNat 16 lcl)).peek (lcl - 5) = k.ram.peek (lcl - 5) :=
    Ram.peek_poke_of_ne _ _ (by decide) (by omega) (by omega)
  simp only [keepFrame, execAll_append, execAll_cons, execAll_nil,
    Instruction.exec_symbol hregs.lcl, Instruction.exec_symbol hregs.r14,
    Instruction.exec_symbol hregs.r15, Instruction.exec_setD, Instruction.exec_setA,
    Instruction.exec_setM, Instruction.exec_number, Comp.value, Core.m, Ram.read_ofNat, hlcl, hfive,
    ofNat_sub_ofNat (show 5 ≤ lcl by omega), Ram.write_ofNat, hback]

theorem exec_putValue {k : Core} (arg sp : Nat) (harg : k.ram.peek 2 = BitVec.ofNat 16 arg)
    (hsp : k.ram.peek 0 = BitVec.ofNat 16 (sp + 1)) (hlow : 2 < arg) (hstack : arg ≤ sp)
    (hlt : sp < ramCells) :
    execAll symbols putValue k =
      ⟨BitVec.ofNat 16 0, BitVec.ofNat 16 (arg + 1),
        (((k.ram.poke 0 (BitVec.ofNat 16 sp)).poke sp 0).poke arg (k.ram.peek sp)).poke 0
          (BitVec.ofNat 16 (arg + 1))⟩ := by
  have hcells : ramCells = 0x8000 := rfl
  have harg' : ((k.ram.poke 0 (BitVec.ofNat 16 sp)).poke sp 0).peek 2 = BitVec.ofNat 16 arg := by
    rw [Ram.peek_poke_of_ne _ _ hlt (by decide) (by omega),
      Ram.peek_poke_of_ne _ _ (by decide) (by decide) (by decide), harg]
  have harg'' : (((k.ram.poke 0 (BitVec.ofNat 16 sp)).poke sp 0).poke arg (k.ram.peek sp)).peek 2 =
      BitVec.ofNat 16 arg := by
    rw [Ram.peek_poke_of_ne _ _ (by omega) (by decide) (by omega), harg']
  simp only [putValue, execAll_append, exec_popToD hregs hsp (by omega) hlt]
  simp only [execAll_cons, execAll_nil, Instruction.exec_symbol hregs.arg,
    Instruction.exec_symbol hregs.sp, Instruction.exec_setD, Instruction.exec_setA,
    Instruction.exec_setM, Comp.value, Core.m, Ram.read_ofNat, harg', Ram.write_ofNat, harg'',
    ofNat_add_one]

theorem exec_restoreRegister {k : Core} (lcl : Nat) {r depth : Nat} {register : Text}
    (hr : symbols[register]? = some (BitVec.ofNat 16 r))
    (hend : k.ram.peek 14 = BitVec.ofNat 16 lcl) (hdepth : depth ≤ lcl) :
    execAll symbols (restoreRegister register depth) k =
      ⟨BitVec.ofNat 16 r, k.ram.peek (lcl - depth), k.ram.poke r (k.ram.peek (lcl - depth))⟩ := by
  have hdepth' : (depth : Int).toNat = depth := Int.toNat_natCast depth
  simp only [restoreRegister, execAll_cons, execAll_nil, Instruction.exec_symbol hregs.r14,
    Instruction.exec_symbol hr, Instruction.exec_setD, Instruction.exec_setA, Instruction.exec_setM,
    Instruction.exec_number, Comp.value, Core.m, Ram.read_ofNat, hend, hdepth',
    ofNat_sub_ofNat hdepth, Ram.write_ofNat]

/-- Memory with the registers of the caller, from the words below `lcl`. -/
def restored (ram : Ram) (lcl : Nat) : Ram :=
  (((ram.poke 4 (ram.peek (lcl - 1))).poke 3 (ram.peek (lcl - 2))).poke 2
    (ram.peek (lcl - 3))).poke 1 (ram.peek (lcl - 4))

theorem exec_restoreFrame {k : Core} {lcl : Nat} (hend : k.ram.peek 14 = BitVec.ofNat 16 lcl)
    (hlow : 8 < lcl) (hlt : lcl ≤ ramCells) :
    execAll symbols restoreFrame k =
      ⟨BitVec.ofNat 16 1, k.ram.peek (lcl - 4), restored k.ram lcl⟩ := by
  have hcells : ramCells = 0x8000 := rfl
  rw [restoreFrame, execAll_append, execAll_append, execAll_append,
    exec_restoreRegister hregs lcl hregs.that hend (by omega),
    exec_restoreRegister hregs lcl hregs.this (by
      simp (disch := omega) only [Ram.peek_poke_of_ne, hend]) (by omega),
    exec_restoreRegister hregs lcl hregs.arg (by
      simp (disch := omega) only [Ram.peek_poke_of_ne, hend]) (by omega),
    exec_restoreRegister hregs lcl hregs.lcl (by
      simp (disch := omega) only [Ram.peek_poke_of_ne, hend]) (by omega)]
  simp (disch := omega) only [Ram.peek_poke_of_ne]
  rfl

/-- Memory after a return of the word at `sp` to the caller whose frame was saved below `lcl`. -/
def returned (ram : Ram) (lcl arg sp : Nat) : Ram :=
  restored ((((((ram.poke 14 (BitVec.ofNat 16 lcl)).poke 15 (ram.peek (lcl - 5))).poke 0
    (BitVec.ofNat 16 sp)).poke sp 0).poke arg (ram.peek sp)).poke 0 (BitVec.ofNat 16 (arg + 1))) lcl

theorem exec_return {k : Core} {lcl arg sp : Nat} (hlcl : k.ram.peek 1 = BitVec.ofNat 16 lcl)
    (harg : k.ram.peek 2 = BitVec.ofNat 16 arg) (hsp : k.ram.peek 0 = BitVec.ofNat 16 (sp + 1))
    (hlow : 15 < arg) (hframe : arg + 5 ≤ lcl) (hstack : lcl ≤ sp) (hlt : sp < ramCells) :
    ∃ d, execAll symbols unwind k = ⟨k.ram.peek (lcl - 5), d, returned k.ram lcl arg sp⟩ := by
  have hcells : ramCells = 0x8000 := rfl
  have hvalue : ((k.ram.poke 14 (BitVec.ofNat 16 lcl)).poke 15 (k.ram.peek (lcl - 5))).peek sp =
      k.ram.peek sp := by
    simp (disch := omega) only [Ram.peek_poke_of_ne]
  have hback : (returned k.ram lcl arg sp).peek 15 = k.ram.peek (lcl - 5) := by
    simp (disch := omega) only [returned, restored, Ram.peek_poke_of_ne, Ram.peek_poke_self]
  rw [unwind, execAll_append, execAll_append, execAll_append,
    exec_keepFrame hregs hlcl (by omega) (by omega),
    exec_putValue hregs arg sp (by simp (disch := omega) only [Ram.peek_poke_of_ne, harg])
      (by simp (disch := omega) only [Ram.peek_poke_of_ne, hsp]) (by omega) (by omega) hlt,
    @exec_restoreFrame symbols hregs _ lcl (by
      simp (disch := omega) only [Ram.peek_poke_of_ne, Ram.peek_poke_self]) (by omega) (by omega)]
  dsimp only
  rw [hvalue, ← returned]
  simp only [execAll_cons, execAll_nil, Instruction.exec_symbol hregs.r15, Instruction.exec_setA,
    Comp.value, Core.m, Ram.read_ofNat, hback]
  exact ⟨_, rfl⟩

/-! ## Function entry -/

def cleared (ram : Ram) (base : Nat) : Nat → Ram
  | 0 => ram
  | n + 1 => (cleared ram base n).poke (base + n) 0

omit hregs in
theorem peek_cleared (ram : Ram) {base n m : Nat} (hlt : base + n ≤ ramCells) (hm : m < ramCells) :
    (cleared ram base n).peek m = if base ≤ m ∧ m < base + n then 0 else ram.peek m := by
  induction n with
  | zero => rw [cleared, if_neg (by omega)]
  | succ n ih =>
      rw [cleared, Ram.peek_poke _ _ (by omega) hm, ih (by omega)]
      by_cases h : m = base + n
      · rw [if_pos h, if_pos (by omega)]
      · rw [if_neg h]
        by_cases hin : base ≤ m ∧ m < base + n
        · rw [if_pos hin, if_pos (by omega)]
        · rw [if_neg hin, if_neg (by omega)]

theorem exec_clearLocals {k : Core} {lcl : Nat} (n : Nat)
    (hlcl : k.ram.peek 1 = BitVec.ofNat 16 lcl) (hlow : 1 < lcl) (hlt : lcl + n ≤ ramCells) :
    ∃ a d, execAll symbols ((List.range n).flatMap clearLocal) k = ⟨a, d, cleared k.ram lcl n⟩ := by
  induction n with
  | zero => exact ⟨k.a, k.d, rfl⟩
  | succ n ih =>
      obtain ⟨a, d, ih⟩ := ih (by omega)
      have hlcl' : (cleared k.ram lcl n).peek 1 = BitVec.ofNat 16 lcl := by
        rw [peek_cleared _ (by omega) (by decide), if_neg (by omega), hlcl]
      rw [List.range_succ, List.flatMap_append, execAll_append, ih, List.flatMap_singleton]
      simp only [clearLocal, execAll_cons, execAll_nil, Instruction.exec_symbol hregs.lcl,
        Instruction.exec_setD, Instruction.exec_setA, Instruction.exec_setM,
        Instruction.exec_number, Comp.value, Core.m, Ram.read_ofNat, hlcl', Int.toNat_natCast,
        ← BitVec.ofNat_add, Ram.write_ofNat]
      exact ⟨_, _, rfl⟩

/-- Memory after a function with `n` local words has been entered. -/
def entered (ram : Ram) (lcl n : Nat) : Ram :=
  if n = 0 then ram else (cleared ram lcl n).poke 0 (BitVec.ofNat 16 (lcl + n))

theorem exec_functionCode {k : Core} {lcl : Nat} (n : Nat)
    (hlcl : k.ram.peek 1 = BitVec.ofNat 16 lcl) (hlow : 1 < lcl) (hlt : lcl + n ≤ ramCells) :
    ∃ a d, execAll symbols (functionCode n) k = ⟨a, d, entered k.ram lcl n⟩ := by
  obtain ⟨a, d, hclear⟩ := exec_clearLocals hregs n hlcl hlow hlt
  rw [functionCode, Int.toNat_natCast, execAll_append, hclear, entered]
  by_cases hn : n = 0
  · rw [if_pos hn, hn]
    exact ⟨a, d, rfl⟩
  · have hlcl' : (cleared k.ram lcl n).peek 1 = BitVec.ofNat 16 lcl := by
      rw [peek_cleared _ hlt (by decide), if_neg (by omega), hlcl]
    rw [if_neg hn, if_pos (by omega)]
    simp only [skipLocals, execAll_cons, execAll_nil, Instruction.exec_symbol hregs.lcl,
      Instruction.exec_symbol hregs.sp, Instruction.exec_setD, Instruction.exec_setM,
      Instruction.exec_number, Comp.value, Core.m, Ram.read_ofNat, hlcl', Int.toNat_natCast,
        ← BitVec.ofNat_add, Ram.write_ofNat]
    exact ⟨_, _, rfl⟩

end

end HackStack.Lowering
