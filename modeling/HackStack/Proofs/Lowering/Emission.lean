import Mathlib.Data.List.Basic
import HackStack.Lowering.Emitter
import HackStack.Proofs.Lowering.Block

/-!
# What is emitted

An emission works line by line and can be ended by a fault at any point. Here it is shown to be all
or nothing: a request that stands for a command emits the block of that command if there is one
(`Generator.generate_of_block`), and otherwise every fault comes before the first line
(`Generator.generate_of_fault`, `Generator.serve_of_fault`). In particular the code of a truth value
always has the length that its jumps rely on (`Emitter.on_truth`).
-/

namespace HackStack.Vm

/-- The members of a list without repetition are numbered by their places. -/
theorem member_of_number_iff {α : Type} [DecidableEq α] {all : List α} (hnodup : all.Nodup)
    {n : Int} {a : α} (ha : a ∈ all) :
    (if n < 0 then none else all[n.toNat]?) = some a ↔ n = all.idxOf a := by
  constructor
  · intro h
    split at h
    · cases h
    · next hn =>
        obtain ⟨k, rfl⟩ := Int.eq_ofNat_of_zero_le (Int.not_lt.mp hn)
        rw [Int.toNat_natCast] at h
        obtain ⟨hk, rfl⟩ := List.getElem?_eq_some_iff.mp h
        rw [hnodup.idxOf_getElem k hk]
  · rintro rfl
    rw [if_neg (Int.not_lt.mpr (Int.natCast_nonneg _)), Int.toNat_natCast]
    exact List.getElem?_idxOf ha

theorem Op.ofCode?_eq_some_iff {n : Int} {op : Op} : Op.ofCode? n = some op ↔ n = op.code :=
  member_of_number_iff (by decide) (by cases op <;> decide)

theorem Segment.ofCode?_eq_some_iff {n : Int} {s : Segment} :
    Segment.ofCode? n = some s ↔ n = s.code :=
  member_of_number_iff (by decide) (by cases s <;> decide)

theorem Op.ofCode?_code (op : Op) : Op.ofCode? op.code = some op :=
  Op.ofCode?_eq_some_iff.mpr rfl

theorem Segment.ofCode?_code (s : Segment) : Segment.ofCode? s.code = some s :=
  Segment.ofCode?_eq_some_iff.mpr rfl

end HackStack.Vm

namespace HackStack.Lowering

open HackStack.Assembly
open HackStack.Vm

namespace Generator

theorem code_emit (e : Generator) (lines : List Line) :
    (e.emit lines).code.toList = e.code.toList ++ lines := by
  simp [emit]

theorem emit_nil (e : Generator) : e.emit [] = e := by
  simp [emit]

theorem emit_emit (e : Generator) (first second : List Line) :
    (e.emit first).emit second = e.emit (first ++ second) := by
  unfold emit
  rw [List.countP_append, Nat.add_assoc]
  congr 1
  apply Array.toList_inj.mp
  simp

/-- Instructions are counted as they are appended. -/
theorem counter_emit_instructions (e : Generator) (code : List Instruction) :
    (e.emit (code.map .instruction)).counter = e.counter + code.length := by
  rw [← countP_instructions]
  rfl

/-- The lines are emitted all at once, or a fault leaves the state as it was. -/
def whole (e : Generator) : Except Fault (List Line) → Except Fault Unit × Generator
  | .ok lines => (.ok (), e.emit lines)
  | .error f => (.error f, e)

end Generator

/-! ## Steps of an emission -/

namespace Emitter

section

variable {α β : Type} {m : Emitter α} {next : α → Emitter β} {e e' : Generator}

theorem on_bind {a : α} (h : m.on e = (.ok a, e')) : (m >>= next).on e = (next a).on e' := by
  unfold on at h ⊢
  rw [ExceptT.run_bind, StateT.run_bind, h]
  rfl

theorem on_bind_of_fault {f : Fault} (h : m.on e = (.error f, e')) :
    (m >>= next).on e = (.error f, e') := by
  unfold on at h ⊢
  rw [ExceptT.run_bind, StateT.run_bind, h]
  rfl

/-- More lines after an emission that was all or nothing. -/
theorem on_then {m next : Emitter Unit} {block : Except Fault (List Line)} {more : List Line}
    (h : m.on e = e.whole block) (hnext : ∀ e', next.on e' = (.ok (), e'.emit more)) :
    (m >>= fun _ => next).on e = e.whole (block.map (· ++ more)) := by
  cases block with
  | error f => exact on_bind_of_fault h
  | ok lines =>
      rw [on_bind h, hnext, e.emit_emit]
      rfl

end

@[simp] theorem on_pure {α : Type} (a : α) (e : Generator) :
    (pure a : Emitter α).on e = (.ok a, e) := rfl

@[simp] theorem on_throw {α : Type} (f : Fault) (e : Generator) :
    (throw f : Emitter α).on e = (.error f, e) := rfl

@[simp] theorem on_get (e : Generator) : (get : Emitter Generator).on e = (.ok e, e) := rfl

@[simp] theorem on_modify (f : Generator → Generator) (e : Generator) :
    (modify f : Emitter PUnit).on e = (.ok ⟨⟩, f e) := rfl

@[simp] theorem on_instruction (i : Instruction) (e : Generator) :
    (instruction i).on e = (.ok (), e.emit [.instruction i]) := rfl

@[simp] theorem on_label (name : Text) (e : Generator) :
    (label name).on e = (.ok (), e.emit [.label name]) := rfl

@[simp] theorem on_comment (text : Text) (e : Generator) :
    (comment text).on e = (.ok (), e.emit [.comment text]) := rfl

/-- Line by line or at once. -/
@[simp] theorem on_instructions (code : List Instruction) (e : Generator) :
    (instructions code).on e = (.ok (), e.emit (code.map .instruction)) := by
  induction code generalizing e with
  | nil =>
      rw [List.map_nil, e.emit_nil]
      rfl
  | cons i code ih =>
      have hrest : (instructions (i :: code)).on e =
          (instructions code).on (e.emit [.instruction i]) := on_bind (on_instruction i e)
      rw [hrest, ih, e.emit_emit]
      rfl

/-! ## Operations -/

/-- **The code of a truth value has the length that its jumps rely on.** -/
theorem on_truth (jump : Jump) (e : Generator) :
    (truth jump).on e = (.ok (), e.emit ((truthBlock e.counter jump).map .instruction)) := by
  have hlength : (e.emit ((truthBlock e.counter jump).map .instruction)).counter =
      e.counter + truthLength := e.counter_emit_instructions _
  unfold truth
  rw [on_bind (on_get e), on_bind (on_instructions _ e), on_bind (on_get _), hlength, if_pos rfl]
  rfl

theorem on_comparison (jump : Jump) (e : Generator) :
    (comparison jump).on e =
      (.ok (), e.emit ((comparisonBlock e.counter jump).map .instruction)) := by
  -- seven instructions stand before the truth value
  have hcounter : (((e.emit (popToD.map .instruction)).emit (topCell.map .instruction)).emit
      [.instruction (.setD .mMinusD)]).counter = e.counter + 7 := rfl
  unfold comparison
  rw [on_bind (on_instructions _ _), on_bind (on_instructions _ _), on_bind (on_instruction _ _),
    on_bind (on_truth _ _), hcounter, on_bind (on_instructions _ _), on_instruction]
  simp only [Generator.emit_emit, comparisonBlock, List.map_append, List.map_cons, List.map_nil]

theorem on_arithmetic (op : Op) (e : Generator) :
    (arithmetic op.code).on e =
      (.ok (), e.emit ((arithmeticBlock e.counter op).map .instruction)) := by
  unfold arithmetic
  rw [Op.ofCode?_code]
  cases op with
  | eq => exact on_comparison _ e
  | gt => exact on_comparison _ e
  | lt => exact on_comparison _ e
  | _ => exact on_instructions _ e

theorem on_arithmetic_of_fault {op : Int} (h : Op.ofCode? op = none) (e : Generator) :
    (arithmetic op).on e = (.error (.unknownOp op), e) := by
  rw [arithmetic, h]
  exact on_throw _ e

/-! ## Segments -/

/-- The three ways in which a word of a segment is found. -/
theorem place_cases (s : Segment) (index : Int) (e : Generator) :
    (s = .constant ∧ place e.unit s index = .ok (.immediate index)) ∨
    (∃ base, baseRegister? s = some base ∧ place e.unit s index = .ok (.offset base index)) ∨
    (s ≠ .constant ∧ baseRegister? s = none ∧ ∃ address,
      (fixedAddress s.code index).on e = (address, e) ∧
        place e.unit s index = address.map .fixed) := by
  have hrange : ∀ (range : Prop) [Decidable range] (address : Operand) (f : Fault),
      (if range then pure address else throw f : Emitter Operand).on e =
        (if range then .ok address else .error f, e) ∧
      (if range then .ok (.fixed address) else .error f) =
        (if range then .ok address else .error f : Except Fault Operand).map Place.fixed := by
    intro range _ address f
    by_cases h : range
    · rw [if_pos h, if_pos h, if_pos h]
      exact ⟨rfl, rfl⟩
    · rw [if_neg h, if_neg h, if_neg h]
      exact ⟨rfl, rfl⟩
  cases s with
  | constant => exact Or.inl ⟨rfl, rfl⟩
  | temp => exact Or.inr (Or.inr ⟨by decide, rfl, _, hrange _ _ _⟩)
  | pointer => exact Or.inr (Or.inr ⟨by decide, rfl, _, hrange _ _ _⟩)
  | static => exact Or.inr (Or.inr ⟨by decide, rfl, .ok _, rfl, rfl⟩)
  | _ => exact Or.inr (Or.inl ⟨_, rfl, rfl⟩)

theorem code_ne_constant {s : Segment} (h : s ≠ .constant) :
    ¬(s.code : Int) = Segment.constant.code := by
  rw [← Segment.ofCode?_eq_some_iff, Segment.ofCode?_code]
  exact fun heq => h (Option.some.inj heq)

theorem on_loadWord (s : Segment) (index : Int) (e : Generator) :
    (loadWord s.code index).on e =
      e.whole ((place e.unit s index).map fun p => p.read.map .instruction) := by
  unfold loadWord
  rw [Segment.ofCode?_code, Option.bind_some]
  rcases place_cases s index e with ⟨rfl, hp⟩ | ⟨base, hbase, hp⟩ | ⟨hs, hbase, address, ha, hp⟩
  · rw [hp]
    exact on_instructions _ e
  · rw [hp, hbase]
    exact on_instructions _ e
  · rw [hp, hbase]
    simp only [if_neg (code_ne_constant hs)]
    cases address with
    | error f => rw [on_bind_of_fault ha]; rfl
    | ok address =>
        rw [on_bind ha, on_bind (on_instruction _ _), on_instruction, e.emit_emit]
        rfl

theorem on_loadAddress (s : Segment) (index : Int) (e : Generator) :
    (loadAddress s.code index).on e =
      e.whole ((place e.unit s index).bind fun p => p.address.map (·.map .instruction)) := by
  unfold loadAddress
  rw [Segment.ofCode?_code, Option.bind_some]
  rcases place_cases s index e with ⟨rfl, hp⟩ | ⟨base, hbase, hp⟩ | ⟨hs, hbase, address, ha, hp⟩
  · rw [hp]
    rfl
  · have hs : s ≠ .constant := by
      rintro rfl
      cases hbase
    rw [hp, hbase, if_neg (code_ne_constant hs)]
    exact on_instructions _ e
  · rw [hp, hbase, if_neg (code_ne_constant hs)]
    simp only
    cases address with
    | error f => rw [on_bind_of_fault ha]; rfl
    | ok address =>
        rw [on_bind ha, on_bind (on_instruction _ _), on_instruction, e.emit_emit]
        rfl

theorem on_push (s : Segment) (index : Int) (e : Generator) :
    (push s.code index).on e = e.whole (e.block (.push s index)) := by
  refine (on_then (on_loadWord s index e) (on_instructions pushFromD)).trans ?_
  rw [Generator.block]
  cases place e.unit s index with
  | error f => rfl
  | ok p => simp [Except.map, pushBlock]

theorem on_pop (s : Segment) (index : Int) (e : Generator) :
    (pop s.code index).on e = e.whole (e.block (.pop s index)) := by
  have hrest : ∀ e' : Generator,
      (do instructions [.symbol "R13", .setM .d]; instructions popToD
          instructions [.symbol "R13", .setA .m, .setM .d] : Emitter Unit).on e' =
        (.ok (), e'.emit (List.map .instruction ([Instruction.symbol "R13", .setM .d] ++ popToD ++
          [.symbol "R13", .setA .m, .setM .d]))) := by
    intro e'
    rw [on_bind (on_instructions _ _), on_bind (on_instructions _ _), on_instructions]
    simp only [Generator.emit_emit, List.map_append, List.append_assoc]
  refine (on_then (on_loadAddress s index e) hrest).trans ?_
  rw [Generator.block]
  cases place e.unit s index with
  | error f => rfl
  | ok p =>
      show e.whole ((p.address.map _).map _) =
        e.whole (popBlock p >>= fun code => pure (code.map Line.instruction))
      rw [popBlock]
      cases p.address with
      | error f => rfl
      | ok code =>
          show e.whole (.ok _) = e.whole (.ok _)
          simp only [popCode, List.map_append, List.append_assoc]

/-- A number that names no segment is noticed before anything is emitted. -/
theorem on_segment_of_none {n : Int} (h : Segment.ofCode? n = none) (index : Int) (e : Generator) :
    (push n index).on e = (.error (.unknownSegment n), e) ∧
      (pop n index).on e = (.error (.unknownSegment n), e) := by
  have hconstant : ¬n = Segment.constant.code := by
    rintro rfl
    cases h
  have hfixed : (fixedAddress n index).on e = (.error (.unknownSegment n), e) := by
    rw [fixedAddress, h]
    exact on_throw _ e
  constructor
  · refine on_bind_of_fault ?_
    unfold loadWord
    rw [h, Option.bind_none]
    simp only [if_neg hconstant]
    exact on_bind_of_fault hfixed
  · refine on_bind_of_fault ?_
    unfold loadAddress
    rw [h, Option.bind_none, if_neg hconstant]
    exact on_bind_of_fault hfixed

/-! ## Functions -/

theorem on_call (name : Text) (args : Int) (e : Generator) :
    (call name args).on e =
      (.ok (), (e.emit (callBlock (returnSymbol e.scope e.calls) name args)).follow
        (.call name args)) := by
  unfold call
  rw [on_bind (on_get e), on_bind (on_modify _ e), on_bind (on_instructions _ _), on_label,
    Generator.emit_emit]
  rfl

theorem on_function (name : Text) (locals : Int) (e : Generator) :
    (function name locals).on e =
      (.ok (), (e.emit (functionBlock name locals)).follow (.function name locals)) := by
  unfold function
  rw [on_bind (on_modify _ e), on_bind (on_label _ _), on_instructions, Generator.emit_emit]
  rfl

theorem on_ret (e : Generator) :
    ret.on e = (.ok (), (e.emit (returnBlock.map .instruction)).follow .ret) := by
  unfold ret
  rw [on_bind (on_instructions _ _), on_modify]
  rfl

/-! ## Commands -/

/-- Only `push` and `pop` can have a fault, and they change nothing but the code. -/
theorem follow_eq_self_of_fault {e : Generator} {c : Command} {f : Fault}
    (h : e.block c = .error f) (e' : Generator) : e'.follow c = e' := by
  cases c with
  | push => rfl
  | pop => rfl
  | _ => cases h

/-- **All or nothing**: a command emits its block, or has a fault before the first line. -/
theorem on_serve (c : Command) (e : Generator) :
    (serve (.ofCommand c)).on e =
      ((e.whole (e.block c)).1, (e.whole (e.block c)).2.follow c) := by
  cases c with
  | arithmetic op => exact on_arithmetic op e
  | push s i => exact on_push s i e
  | pop s i => exact on_pop s i e
  | label name => rfl
  | goto name => exact (on_bind (on_get e)).trans (on_instructions _ e)
  | ifGoto name => exact (on_bind (on_get e)).trans (on_instructions _ e)
  | call name args => exact on_call name args e
  | function name locals => exact on_function name locals e
  | ret => exact on_ret e

end Emitter

/-! ## Requests -/

namespace Request

/-- The command that a request stands for. -/
def command? : Request → Except Fault Command
  | nothing => .error (.noCommand false)
  | arithmetic op =>
    match Op.ofCode? op with
    | some op => .ok (.arithmetic op)
    | none => .error (.unknownOp op)
  | push s i =>
    match Segment.ofCode? s with
    | some s => .ok (.push s i)
    | none => .error (.unknownSegment s)
  | pop s i =>
    match Segment.ofCode? s with
    | some s => .ok (.pop s i)
    | none => .error (.unknownSegment s)
  | label name => .ok (.label name)
  | goto name => .ok (.goto name)
  | ifGoto name => .ok (.ifGoto name)
  | call name args => .ok (.call name args)
  | function name locals => .ok (.function name locals)
  | ret => .ok .ret

theorem command?_ofCommand (c : Command) : (Request.ofCommand c).command? = .ok c := by
  cases c <;> simp [ofCommand, command?, Op.ofCode?_code, Segment.ofCode?_code]

/-- A request stands for a command only if it is the request for that command. -/
theorem eq_ofCommand {r : Request} {c : Command} (h : r.command? = .ok c) : r = .ofCommand c := by
  cases r with
  | nothing => cases h
  | arithmetic n =>
      simp only [command?] at h
      split at h
      · next op hop =>
          cases h
          rw [ofCommand, ← Op.ofCode?_eq_some_iff.mp hop]
      · cases h
  | push n i =>
      simp only [command?] at h
      split at h
      · next s hs =>
          cases h
          rw [ofCommand, ← Segment.ofCode?_eq_some_iff.mp hs]
      · cases h
  | pop n i =>
      simp only [command?] at h
      split at h
      · next s hs =>
          cases h
          rw [ofCommand, ← Segment.ofCode?_eq_some_iff.mp hs]
      · cases h
  | _ =>
      cases h
      rfl

end Request

theorem Emitter.on_serve_of_fault {r : Request} {f : Fault} (h : r.command? = .error f)
    (e : Generator) : (Emitter.serve r).on e = (.error f, e) := by
  cases r with
  | nothing =>
      cases h
      rfl
  | arithmetic n =>
      simp only [Request.command?] at h
      split at h
      · cases h
      · next hn =>
          cases h
          exact on_arithmetic_of_fault hn e
  | push n i =>
      simp only [Request.command?] at h
      split at h
      · cases h
      · next hn =>
          cases h
          exact (on_segment_of_none hn i e).1
  | pop n i =>
      simp only [Request.command?] at h
      split at h
      · cases h
      · next hn =>
          cases h
          exact (on_segment_of_none hn i e).2
  | _ => cases h

namespace Generator

theorem emission_of_ok {m : Emitter Unit} {e e' : Generator} (h : m.on e = (.ok (), e')) :
    e.emission m = (e', none) := by
  rw [emission, h]

theorem emission_of_fault {m : Emitter Unit} {e e' : Generator} {f : Fault}
    (h : m.on e = (.error f, e')) : e.emission m = (e', some f) := by
  rw [emission, h]

theorem emission_bind {m next : Emitter Unit} {e e' : Generator} (h : m.on e = (.ok (), e')) :
    e.emission (m >>= fun _ => next) = e'.emission next := by
  rw [emission, emission, Emitter.on_bind h]

theorem generate_of_block {e : Generator} {c : Command} {lines : List Line}
    (h : e.block c = .ok lines) : e.generate c = ((e.emit lines).follow c, none) := by
  refine emission_of_ok ((Emitter.on_serve c e).trans ?_)
  rw [h]
  rfl

theorem generate_of_fault {e : Generator} {c : Command} {f : Fault} (h : e.block c = .error f) :
    e.generate c = (e, some f) := by
  refine emission_of_fault ((Emitter.on_serve c e).trans ?_)
  rw [h]
  exact congrArg (Prod.mk _) (Emitter.follow_eq_self_of_fault h e)

theorem serve_of_command {r : Request} {c : Command} (h : r.command? = .ok c) (e : Generator) :
    e.serve r = e.generate c := by
  rw [Request.eq_ofCommand h]
  rfl

theorem serve_of_fault {r : Request} {f : Fault} (h : r.command? = .error f) (e : Generator) :
    e.serve r = (e, some f) :=
  emission_of_fault (Emitter.on_serve_of_fault h e)

/-! ## Comments -/

theorem serveDescribed_of_uncommented {e : Generator} (h : e.uncommented = true) (r : Request) :
    e.serveDescribed r = e.serve r := by
  refine emission_bind ?_
  rw [Emitter.describe, Emitter.on_bind (Emitter.on_get e), if_pos h]
  exact Emitter.on_pure _ e

/-- The comment comes first, and stays if the request has a fault. -/
theorem serveDescribed_of_text {e : Generator} (h : ¬e.uncommented = true) {r : Request} {t : Text}
    (ht : r.text? = some t) : e.serveDescribed r = (e.emit [.comment t]).serve r := by
  refine emission_bind ?_
  rw [Emitter.describe, Emitter.on_bind (Emitter.on_get e), if_neg h, ht]
  exact Emitter.on_comment t e

theorem serveDescribed_of_none {e : Generator} (h : ¬e.uncommented = true) {r : Request}
    (ht : r.text? = none) : e.serveDescribed r = (e, some (.noCommand true)) := by
  refine emission_of_fault (Emitter.on_bind_of_fault ?_)
  rw [Emitter.describe, Emitter.on_bind (Emitter.on_get e), if_neg h, ht]
  exact Emitter.on_throw _ e

end Generator

end HackStack.Lowering
