import HackStack.Proofs.Lowering.DataEffect

/-!
# Isolation of static variables

Whatever sources a program is generated from, once the assembler has accepted the code, every
command that uses a static variable works on a memory cell of its own: `push` reads the cell and
`pop` stores to it (`Accesses`). It is the same cell for the same unit and index, and different ones
otherwise (`statics_isolated`). The symbols that are neither labels nor predefined, static variables
or not, fill an interval of addresses from 16 on.
-/

namespace HackStack.Lowering

open HackStack.Assembly
open HackStack.Machine
open HackStack.Vm

/-! ## Accesses -/

/-- The writes of a command that pushes or pops the cell `w` when `SP` is `sp`. -/
def cellWrites (ram : Ram) (w sp : Nat) : Command → List (Nat × Word)
  | .push _ _ => [(sp, ram.peek w), (0, BitVec.ofNat 16 (sp + 1))]
  | .pop _ _ =>
    [(13, BitVec.ofNat 16 w), (0, BitVec.ofNat 16 (sp - 1)), (sp - 1, 0), (w, ram.peek (sp - 1))]
  | _ => []

/-- The code at an address of a program pushes or pops the cell `w`, whatever the memory holds, if
the stack suits the command. -/
structure Accesses (words : Array Word) (start : Nat) (c : Command) (w : Nat) : Prop where
  isCell : w < ramCells
  passes : ∀ (cpu : Cpu) (sp : Nat), cpu.rom = words → cpu.pc = BitVec.ofNat 16 start →
    cpu.halted = false → cpu.ram.peek 0 = BitVec.ofNat 16 sp → StackSuits sp c →
      ∃ n, Passes start (start + c.size) n (cellWrites cpu.ram w sp c) cpu

theorem dataWrites_eq_cellWrites {ram : Ram} {static : Int → Word} {sp index : Nat} {c : Command}
    (hc : c = .push .static index ∨ c = .pop .static index)
    (hcell : (static index).toNat < ramCells) :
    dataWrites ram static sp c = cellWrites ram (static index).toNat sp c := by
  rcases hc with rfl | rfl
  · show [(sp, ram.read (static index)), _] = _
    rw [Ram.read_eq_peek, Nat.mod_eq_of_lt hcell]
    rfl
  · show [(13, static index), _, _, ((static index).toNat % ramCells, _)] = _
    rw [Nat.mod_eq_of_lt hcell, cellWrites, BitVec.ofNat_toNat, BitVec.setWidth_eq]

/-- There is memory that tells two cells apart and has a stack. -/
theorem exists_peek_ne {w w' : Nat} (hw : w < ramCells) (hw' : w' < ramCells) (hzero : w ≠ 0)
    (hne : w ≠ w') : ∃ ram : Ram, ram.peek 0 = BitVec.ofNat 16 256 ∧ ram.peek w ≠ ram.peek w' := by
  refine ⟨(Ram.zero.poke 0 256).poke w 1, ?_, ?_⟩
  · rw [Ram.peek_poke_of_ne _ _ hw (by decide) hzero, Ram.peek_poke_self]
    rfl
  · rw [Ram.peek_poke_self, Ram.peek_poke_of_ne _ _ hw hw' hne,
      Ram.peek_poke _ _ (by decide) hw', Ram.peek_zero]
    split <;> decide

/-- **An access has one cell.** -/
theorem Accesses.unique {words : Array Word} {start i w w' : Nat} {c : Command}
    (h : Accesses words start c w) (h' : Accesses words start c w')
    (hc : c = .push .static i ∨ c = .pop .static i) (hfits : start + c.size ≤ programSize)
    (hzero : w ≠ 0) : w = w' := by
  have hsize : programSize = 0x8000 := rfl
  have hcell := h.isCell
  have hcell' := h'.isCell
  by_contra hne
  obtain ⟨ram, hsp, hword⟩ := exists_peek_ne hcell hcell' hzero hne
  have hsuits : StackSuits 256 c := by
    rcases hc with rfl | rfl
    · exact ⟨by decide, by decide⟩
    · exact ⟨by decide, by decide⟩
  obtain ⟨n, hpass⟩ := h.passes (arriving words start ram) 256 rfl rfl rfl hsp hsuits
  obtain ⟨n', hpass'⟩ := h'.passes (arriving words start ram) 256 rfl rfl rfl hsp hsuits
  have hlog := hpass.unique (by omega) hpass'
  rcases hc with rfl | rfl
  · simp only [cellWrites, List.cons.injEq, Prod.mk.injEq] at hlog
    exact hword hlog.1.2
  · simp only [cellWrites, List.cons.injEq, Prod.mk.injEq] at hlog
    exact hne (ofNat_injective_of_lt (hcell.trans (by decide)) (hcell'.trans (by decide)) hlog.1.2)

/-! ## Uses of static variables -/

/-- The unit and the index of a static variable, a command of a program that pushes or pops it, and
the program address where the code of this command starts. -/
inductive UsesStatic (options : Options) (units : List (Text × Text)) :
    Text → Nat → Command → Nat → Prop where
  | intro {before after : List (Text × Text)} {unit src : Text} {pre post : List Command}
      {c : Command} {index start : Nat} {e : Generator} {counts : List Nat} :
      units = before ++ (unit, src) :: after → parse src = .ok (pre ++ c :: post) →
      c = .push .static index ∨ c = .pop .static index →
      generateUnits options before = .ok (e, counts) →
      ((e.enterUnit unit).writeAll pre).counter = start →
        UsesStatic options units unit index c start

section

variable {options : Options} {units : List (Text × Text)} {e : Generator} {counts : List Nat}
  (hunits : ∀ u ∈ units, isIdentifier u.1 = true)
  (hgenerate : generateUnits options units = .ok (e, counts))
include hunits hgenerate

/-- The run in which a use of a static variable stands. -/
theorem UsesStatic.run {unit : Text} {index start : Nat} {c : Command}
    (h : UsesStatic options units unit index c start) :
    ∃ before after, (c = .push .static index ∨ c = .pop .static index) ∧
      (∀ a ∈ before ++ .ofCommand c :: after, a.Valid) ∧
      e = Generator.run options (before ++ .ofCommand c :: after) ∧
      (Generator.run options before).unit = unit ∧
      (Generator.run options before).counter = start ∧ isIdentifier unit = true := by
  cases h with
  | @intro before after unit src pre post c index start e₀ counts₀ hsplit hparse hc hbefore
      hcounter =>
      subst hsplit
      obtain ⟨hfirst, hunit, hlast⟩ :
          (∀ u ∈ before, isIdentifier u.1 = true) ∧ isIdentifier unit = true ∧
            ∀ u ∈ after, isIdentifier u.1 = true := by
        simpa only [List.forall_mem_append, List.forall_mem_cons] using hunits
      have hwritten := valid_unitActions (u := (unit, pre ++ c :: post)) hunit
        fun c hc => (fits_of_parse hparse c hc).1
      rw [generateUnits, Generator.writeSources_append hbefore,
        Generator.writeSources_cons hparse] at hgenerate
      obtain ⟨actions, hvalid, he₀⟩ := Generator.actions_of_writeSources hfirst hbefore
      obtain ⟨more, hmore, he⟩ := Generator.actions_of_writeSources hlast hgenerate
      -- the run is cut before the command: what precedes it decides the unit and the address
      have hactions : (actions ++ .unit unit :: pre.map .ofCommand) ++
          .ofCommand c :: (post.map .ofCommand ++ more) =
            actions ++ (unitActions (unit, pre ++ c :: post) ++ more) := by
        simp [unitActions]
      have hstart : Generator.run options (actions ++ .unit unit :: pre.map .ofCommand) =
          (e₀.enterUnit unit).writeAll pre := by
        rw [Generator.run_append, Generator.run, ← he₀]
        exact performAll_ofCommand (e₀.enterUnit unit) pre
      refine ⟨actions ++ .unit unit :: pre.map .ofCommand, post.map .ofCommand ++ more, hc, ?_, ?_,
        ?_, (congrArg Generator.counter hstart).trans hcounter, hunit⟩
      · rw [hactions]
        exact List.forall_mem_append.mpr ⟨hvalid, List.forall_mem_append.mpr ⟨hwritten, hmore⟩⟩
      · rw [hactions, Generator.run_append, Generator.performAll_append, Generator.run, ← he₀,
          performAll_unitActions, he]
      · rw [Generator.run_append]
        exact Generator.unit_performAll_ofCommand _ pre

variable (hentry : isFunctionName options.entryName = true) {a : Assembler} {p : Program}
  (haccepted : Assembler.new.assemble e.text = (a, .ok p))
include hentry haccepted

theorem assembled_units : Assembled e.code.toList a.symbols p.words.toList := by
  obtain ⟨actions, hvalid, rfl⟩ := Generator.actions_of_writeSources hunits hgenerate
  exact Generator.assembled_run hentry hvalid haccepted

/-- **A use of a static variable accesses one cell**, that of the variable, whose symbol is a free
operand. -/
theorem UsesStatic.accesses {unit : Text} {index start : Nat} {c : Command}
    (h : UsesStatic options units unit index c start) :
    ∃ w, Accesses p.words start c w ∧ (∀ w', Accesses p.words start c w' → w' = w) ∧ 16 ≤ w ∧
      a.address? (cellSymbol unit index) = some (BitVec.ofNat 16 w) ∧
      cellSymbol unit index ∈ freeOperands e.code.toList := by
  obtain ⟨before, after, hc, hvalid, rfl, rfl, rfl, hunit⟩ := h.run hunits hgenerate
  have hassembled := Generator.assembled_run hentry hvalid haccepted
  have hwrites : Generator.Writes options (before ++ .ofCommand c :: after)
      (Generator.run options before) c := .action rfl (Action.command?_ofCommand c)
  have hfits := hwrites.fits_program hentry hvalid haccepted
  have haddress := hwrites.static_address hentry hvalid haccepted hc
  have hfree := mem_freeOperands.mpr ⟨Generator.static_loaded options before after hc,
    Generator.cellSymbol_notMem_codeLabels hentry hvalid hunit index,
    @CodeSymbol.text_notMem_predefined (.cell _ index) rfl⟩
  have hlow := ((hassembled.free_interval _).mp ⟨_, hfree, haddress⟩).1
  have hcell : (staticAddress a.symbols (Generator.run options before).unit index).toNat <
      ramCells := by
    have hmsb := Generator.loads_variable hassembled hfree haddress
    rw [BitVec.msb_eq_false_iff_two_mul_lt] at hmsb
    have hcells : ramCells = 0x8000 := rfl
    omega
  -- the code of the command is in place, so it makes the writes of the command
  have hdata : c.isData = true := by rcases hc with rfl | rfl <;> rfl
  obtain ⟨code, hblock, -, hpasses⟩ := exists_dataCode (Generator.run options before)
    (hwrites.isValid hentry hvalid) hdata
  have hinstalled := hwrites.installed_data hentry hvalid haccepted hdata hblock
  have haccess : Accesses p.words (Generator.run options before).counter c
      (staticAddress a.symbols (Generator.run options before).unit index).toNat := by
    refine ⟨hcell, ?_⟩
    intro cpu sp hrom hpc hrun hsp hsuits
    rw [← dataWrites_eq_cellWrites hc hcell]
    exact hpasses a.symbols cpu sp hassembled.image.predefined (hrom ▸ hinstalled) hpc hrun hsp
      hsuits
  refine ⟨_, haccess, ?_, hlow, ?_, hfree⟩
  · exact fun w' haccess' => (haccess.unique haccess' hc hfits (by omega)).symm
  · rw [haddress, BitVec.ofNat_toNat, BitVec.setWidth_eq]

end

/-- **Static variables are isolated.** A use of a static variable, anywhere in a program whose code
was accepted, reads or stores the cell with the address of the variable, which lies behind the
registers and is that of no label. Two uses have the same cell exactly if they belong to the same
unit and have the same index. The operands that are neither labels nor predefined fill the addresses
from 16 on, so one of them lies on the stack exactly if there are more than 240. -/
theorem statics_isolated {options : Options} {units : List (Text × Text)} {e : Generator}
    {counts : List Nat} {a : Assembler} {p : Program}
    (hunits : ∀ u ∈ units, isIdentifier u.1 = true)
    (hentry : isFunctionName options.entryName = true)
    (hgenerate : generateUnits options units = .ok (e, counts))
    (haccepted : Assembler.new.assemble e.text = (a, .ok p)) :
    (∀ u i c s, UsesStatic options units u i c s →
      ∃ w, Accesses p.words s c w ∧ 16 ≤ w ∧ w < 0x8000 ∧
        a.address? (cellSymbol u i) = some (BitVec.ofNat 16 w) ∧
        cellSymbol u i ∈ freeOperands e.code.toList) ∧
    (∀ u v i j c d s t w w', UsesStatic options units u i c s → UsesStatic options units v j d t →
      Accesses p.words s c w → Accesses p.words t d w' → (w = w' ↔ u = v ∧ i = j)) ∧
    (∀ t ∈ freeOperands e.code.toList, ∃ w, a.address? t = some w) ∧
    (∀ w, (∃ t ∈ freeOperands e.code.toList, a.address? t = some w) ↔
      16 ≤ w.toNat ∧ w.toNat < 16 + (freeOperands e.code.toList).length) ∧
    ((∃ t ∈ freeOperands e.code.toList, ∃ w, a.address? t = some w ∧ stackStart ≤ w.toNat) ↔
      240 < (freeOperands e.code.toList).length) := by
  have hassembled := assembled_units hunits hgenerate hentry haccepted
  refine ⟨?_, ?_, ?_, hassembled.free_interval, hassembled.free_reaches 240⟩
  · intro u i c s hs
    obtain ⟨w, haccess, -, hlow, haddress, hfree⟩ :=
      hs.accesses hunits hgenerate hentry haccepted
    exact ⟨w, haccess, hlow, haccess.isCell, haddress, hfree⟩
  · intro u v i j c d s t w w' hs ht hw hw'
    obtain ⟨_, -, honly, -, haddress, hfree⟩ := hs.accesses hunits hgenerate hentry haccepted
    obtain ⟨_, -, honly', -, haddress', hfree'⟩ := ht.accesses hunits hgenerate hentry haccepted
    rw [← honly w hw] at haddress
    rw [← honly' w' hw'] at haddress'
    constructor
    · rintro rfl
      apply cellSymbol_injective
      exact hassembled.free_injective hfree hfree' (haddress.trans haddress'.symm)
    · rintro ⟨rfl, rfl⟩
      have hword : BitVec.ofNat 16 w = BitVec.ofNat 16 w' :=
        Option.some.inj (haddress.symm.trans haddress')
      exact ofNat_injective_of_lt (hw.isCell.trans (by decide)) (hw'.isCell.trans (by decide)) hword
  · intro t ht
    obtain ⟨k, w, -, hw, -⟩ := hassembled.free_address ht
    exact ⟨w, hw⟩

/-- Sources of three units, of which the last is the first one again. -/
def revisitedUnits : List (Text × Text) :=
  [("Main", "push static 0\npop static 1"), ("Lib", "push static 0"), ("Main", "pop static 0")]

def revisitedCommands : List (Text × List Command) :=
  [("Main", [.push .static 0, .pop .static 1]), ("Lib", [.push .static 0]),
    ("Main", [.pop .static 0])]

theorem parse_revisitedUnits :
    List.Forall₂ (fun u v => u.1 = v.1 ∧ parse u.2 = .ok v.2) revisitedUnits revisitedCommands :=
  .cons ⟨rfl, by decide +kernel⟩
    (.cons ⟨rfl, by decide +kernel⟩ (.cons ⟨rfl, by decide +kernel⟩ .nil))

theorem lowerable_revisitedCommands :
    Generator.Lowerable ⟨false, "", true⟩ (programActions revisitedCommands) := by
  refine ⟨by decide, ?_, by decide, by decide, by decide⟩
  intro a ha
  obtain ⟨u, hu, ha⟩ := List.mem_flatMap.mp ha
  have hvalid : ∀ u ∈ revisitedCommands,
      isIdentifier u.1 = true ∧ ∀ c ∈ u.2, c.isValid = true := by decide
  exact valid_unitActions (hvalid u hu).1 (hvalid u hu).2 a ha

/-- The first unit pushes and later pops the same cell, and the other unit has another one. -/
theorem statics_isolated_revisitedUnits :
    ∃ e counts a p, generateUnits ⟨false, "", true⟩ revisitedUnits = .ok (e, counts) ∧
      Assembler.new.assemble e.text = (a, .ok p) ∧
      UsesStatic ⟨false, "", true⟩ revisitedUnits "Main" 0 (.push .static 0) 0 ∧
      UsesStatic ⟨false, "", true⟩ revisitedUnits "Lib" 0 (.push .static 0) 18 ∧
      UsesStatic ⟨false, "", true⟩ revisitedUnits "Main" 0 (.pop .static 0) 25 ∧
      ∃ w w', Accesses p.words 0 (.push .static 0) w ∧ Accesses p.words 25 (.pop .static 0) w ∧
        Accesses p.words 18 (.push .static 0) w' ∧ w ≠ w' := by
  have hwritten := fun n => Generator.writeSources_of_parse
    (List.forall₂_take n parse_revisitedUnits) (Generator.new ⟨false, "", true⟩) #[]
  obtain ⟨counts, hgenerate⟩ := hwritten 3
  obtain ⟨counts₁, hfirst⟩ := hwritten 1
  obtain ⟨counts₂, hsecond⟩ := hwritten 2
  obtain ⟨⟨-, hmain⟩, hrest⟩ := List.forall₂_cons.mp parse_revisitedUnits
  obtain ⟨⟨-, hlib⟩, hrest⟩ := List.forall₂_cons.mp hrest
  obtain ⟨⟨-, hagain⟩, -⟩ := List.forall₂_cons.mp hrest
  have hzero : UsesStatic ⟨false, "", true⟩ revisitedUnits "Main" 0 (.push .static 0) 0 :=
    .intro (show _ = [] ++ _ :: _ from rfl)
      (show parse _ = .ok ([] ++ .push .static 0 :: [.pop .static 1]) from hmain) (Or.inl rfl) rfl
      (by decide +kernel)
  have hother : UsesStatic ⟨false, "", true⟩ revisitedUnits "Lib" 0 (.push .static 0) 18 :=
    .intro (show _ = revisitedUnits.take 1 ++ _ :: _ from rfl)
      (show parse _ = .ok ([] ++ .push .static 0 :: []) from hlib) (Or.inl rfl) hfirst
      (by decide +kernel)
  have hback : UsesStatic ⟨false, "", true⟩ revisitedUnits "Main" 0 (.pop .static 0) 25 :=
    .intro (show _ = revisitedUnits.take 2 ++ _ :: _ from rfl)
      (show parse _ = .ok ([] ++ .pop .static 0 :: []) from hagain) (Or.inr rfl) hsecond
      (by decide +kernel)
  obtain ⟨a, p, haccepted, -⟩ := lowerable_revisitedCommands.assemble (by decide +kernel)
  rw [← lower_eq_run] at haccepted
  obtain ⟨haccesses, hsame, -⟩ := statics_isolated (by decide) (by decide) hgenerate haccepted
  obtain ⟨w, hw, -⟩ := haccesses _ _ _ _ hzero
  obtain ⟨w', hw', -⟩ := haccesses _ _ _ _ hother
  obtain ⟨v, hv, -⟩ := haccesses _ _ _ _ hback
  obtain rfl := (hsame _ _ _ _ _ _ _ _ _ _ hzero hback hw hv).mpr ⟨rfl, rfl⟩
  refine ⟨_, counts, a, p, hgenerate, haccepted, hzero, hother, hback, w, w', hw, hv, hw', ?_⟩
  intro heq
  exact absurd ((hsame _ _ _ _ _ _ _ _ _ _ hzero hother hw hw').mp heq).1 (by decide)

end HackStack.Lowering
