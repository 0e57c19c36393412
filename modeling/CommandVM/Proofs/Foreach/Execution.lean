import CommandVM.Proofs.Erasure.Values
import CommandVM.Proofs.Foreach.Step
import Mathlib.Algebra.Order.Floor.Div

/-!
# Executions of foreach loops

An execution of a foreach loop resets it and steps it again and again, with any code in between
that leaves the counter and the lists as they are. The counter holds the number of the last step, so
what a step tells and assigns depends only on how many steps there were before.
-/

namespace CommandVM

theorem Effect.settle_push {m : Machine} {v : Value} :
    (Effect.push 0 v).settle m = (.ok (), { m with stack := m.stack.push v }) := by
  have kept : Action.discard 0 m = (.ok (), m) := rfl
  exact Action.bind_of_ok kept

theorem Value.integer?_ofInt64 (v : Int64) : (Value.ofInt64 v).integer? = some v := by
  have number : (Value.ofInt64 v).number = .ok (Number.ofInt64 v) := by
    rw [Value.ofInt64]
    cases Number.ofInt64 v <;> rfl
  rw [integer?, number]
  dsimp only
  rw [← Number.toInt64?_widen, Number.widen_ofInt64]
  rfl

namespace ForeachLoop

variable {loop : ForeachLoop} {m m' : Machine} {lists : List (List Value)} {t : Nat} {b : Bool}
  {op : Opcode}

/-! ### Instructions of a loop -/

/-- An instruction of the loop at work in a frame. -/
structure Site (loop : ForeachLoop) (op : Opcode) where
  invoke : Invoke
  frame : Frame
  pc : Nat
  instruction : Instruction
  inside : loop.In frame
  opcode : instruction.opcode = op
  index : instruction.index = loop.index

namespace Site

/-- Executes the instruction. -/
def perform (site : loop.Site op) : Action (Option Nat) :=
  site.frame.perform site.invoke site.pc site.instruction

/-- The machine that the instruction leaves. -/
def leaves (site : loop.Site op) (m : Machine) : Machine := (site.perform m).2

/-- The instruction completes and leads to the next one, with a stack. -/
def Completes (site : loop.Site op) (m : Machine) (stack : Stack) : Prop :=
  (site.perform m).1 = .ok (some (site.pc + site.instruction.size)) ∧ (site.leaves m).stack = stack

/-- The instruction pushes a truth value and completes. -/
def Pushes (site : loop.Site op) (m : Machine) (b : Bool) : Prop :=
  site.Completes m (m.stack.push (.ofBool b))

theorem perform_start (site : loop.Site .foreachStart4) (plain : loop.Plain m) :
    site.perform m = (.ok (some (site.pc + site.instruction.size)),
      m.setScalars [(loop.var loop.info.counterSlot, .int (-1))]) := by
  have found : site.frame.unit.foreachInfos[loop.index]? = some loop.info := by
    rw [site.inside.unit, loop.found]
  have written := site.inside.accessSlot_set site.pc plain (.int (-1)) counterSlot_mem
  have stepped : site.frame.step site.invoke site.pc site.instruction m =
      (.ok (.discard 0), m.setScalars [(loop.var loop.info.counterSlot, .int (-1))]) := by
    rw [Frame.step, site.opcode, site.index]
    dsimp only
    rw [Frame.foreachStart, Action.bind_of_ok (Frame.entry_of_some found), Action.bind_of_ok written]
    rfl
  exact Frame.perform_of_step stepped rfl rfl

theorem perform_step (site : loop.Site .foreachStep4) (apart : loop.Apart) (plain : loop.Plain m)
    (holds : loop.Holds m lists) {v : Value} {counter : Int64}
    (held : loop.value? m loop.info.counterSlot = some v) (integer : v.integer? = some counter) :
    site.perform m = (.ok (some (site.pc + site.instruction.size)),
      { m.setScalars (loop.updates lists (counter + 1)) with
        stack := m.stack.push (.ofBool (loop.more lists (counter + 1).toInt.toNat)) }) := by
  have moved := site.inside.foreachStep_eq site.pc apart plain holds held integer
  have stepped : site.frame.step site.invoke site.pc site.instruction m =
      (.ok (.push 0 (.ofBool (loop.more lists (counter + 1).toInt.toNat))),
        m.setScalars (loop.updates lists (counter + 1))) := by
    rw [Frame.step, site.opcode, site.index]
    dsimp only
    rw [Action.bind_of_ok moved]
    rfl
  exact Frame.perform_of_step stepped rfl Effect.settle_push

end Site

/-! ### The counter -/

/-- The iteration that the counter stands for once there were `t` steps before. -/
def iteration (t : Nat) : Nat := (Int64.ofInt t).toInt.toNat

theorem iteration_eq (small : t < 2 ^ 63) : iteration t = t := by
  rw [iteration, Int64.toInt_ofInt_of_le (by omega) (by omega), Int.toNat_natCast]

/-- The variables are plain, the lists are there, and the counter tells of `t` steps. -/
structure Ready (loop : ForeachLoop) (lists : List (List Value)) (t : Nat) (m : Machine) :
    Prop where
  plain : loop.Plain m
  holds : loop.Holds m lists
  counter : ∃ v, loop.value? m loop.info.counterSlot = some v ∧
    v.integer? = some (Int64.ofInt (t - 1))

theorem Site.ready_start (site : loop.Site .foreachStart4) (apart : loop.Apart)
    (plain : loop.Plain m) (holds : loop.Holds m lists) :
    loop.Ready lists 0 (site.leaves m) := by
  rw [leaves, site.perform_start plain]
  refine ⟨plain.setScalars _, holds.setScalars ?_, .int (-1), ?_, rfl⟩
  · intro var listed same
    cases List.mem_singleton.mp same
    exact apart.counter_list listed
  · exact Store.scalar?_setScalar_self (plain _ counterSlot_mem)

theorem Ready.perform (ready : loop.Ready lists t m) (apart : loop.Apart)
    (site : loop.Site .foreachStep4) :
    site.perform m = (.ok (some (site.pc + site.instruction.size)),
      { m.setScalars (loop.updates lists (Int64.ofInt t)) with
        stack := m.stack.push (.ofBool (loop.more lists (iteration t))) }) := by
  obtain ⟨v, held, integer⟩ := ready.counter
  have next : Int64.ofInt (t - 1) + 1 = Int64.ofInt t := by
    have one : (1 : Int64) = Int64.ofInt 1 := rfl
    rw [one, ← Int64.ofInt_add, Int.sub_add_cancel]
  rw [site.perform_step apart ready.plain ready.holds held integer, next, iteration]

/-- Besides the counter a step assigns to the variables of items only. -/
theorem notMem_assigned (same : loop.info.lists.length = lists.length) {k var : Nat}
    (other : var ∉ loop.itemVars) :
    var ∉ (if loop.more lists k then loop.round k (loop.info.lists.zip lists) else []).map
      Prod.fst := by
  split
  · rwa [round_vars same]
  · exact List.not_mem_nil

theorem notMem_updates (apart : loop.Apart) (same : loop.info.lists.length = lists.length)
    {counter : Int64} {var : Nat} (listed : var ∈ loop.listVars) :
    var ∉ (loop.updates lists counter).map Prod.fst := by
  rw [updates, List.map_cons, List.mem_cons, not_or]
  refine ⟨?_, notMem_assigned same (apart.list_item var listed)⟩
  rintro rfl
  exact apart.counter_list listed

theorem updates_counter (apart : loop.Apart) (same : loop.info.lists.length = lists.length)
    (plain : loop.Plain m) {counter : Int64} :
    loop.value? (m.setScalars (loop.updates lists counter)) loop.info.counterSlot =
      some (.ofInt64 counter) :=
  (Store.scalar?_setScalars_of_notMem (notMem_assigned same apart.counter_item)).trans
    (Store.scalar?_setScalar_self (plain _ counterSlot_mem))

theorem Ready.leaves (ready : loop.Ready lists t m) (apart : loop.Apart)
    (site : loop.Site .foreachStep4) : loop.Ready lists (t + 1) (site.leaves m) := by
  have same := ready.holds.length_eq
  rw [Site.leaves, ready.perform apart site]
  refine ⟨ready.plain.setScalars _, ready.holds.setScalars fun _ => notMem_updates apart same,
    .ofInt64 (Int64.ofInt t), updates_counter apart same ready.plain, ?_⟩
  rw [Value.integer?_ofInt64, Int.natCast_succ, Int.add_sub_cancel]

theorem ofBool_injective {b c : Bool} (same : Value.ofBool b = Value.ofBool c) : b = c := by
  cases b <;> cases c <;> cases same <;> rfl

theorem Ready.pushes_iff (ready : loop.Ready lists t m) (apart : loop.Apart)
    (site : loop.Site .foreachStep4) :
    site.Pushes m b ↔ loop.more lists (iteration t) = b := by
  rw [Site.Pushes, Site.Completes, Site.leaves, ready.perform apart site]
  constructor
  · rintro ⟨-, stack⟩
    have slots := congrArg Stack.slots stack
    exact ofBool_injective (List.cons.inj slots).1
  · rintro rfl
    exact ⟨rfl, rfl⟩

/-! ### Executions -/

/-- Code between two instructions of the loop leaves its variables plain, and the counter and the
lists as they are. -/
structure Undisturbed (loop : ForeachLoop) (m m' : Machine) : Prop where
  plain : loop.Plain m → loop.Plain m'
  counter : loop.value? m' loop.info.counterSlot = loop.value? m loop.info.counterSlot
  lists : ∀ l ∈ loop.info.lists, loop.value? m' l.listSlot = loop.value? m l.listSlot

theorem Undisturbed.refl (m : Machine) : loop.Undisturbed m m := ⟨id, rfl, fun _ _ => rfl⟩

theorem Undisturbed.ready (kept : loop.Undisturbed m m') (ready : loop.Ready lists t m) :
    loop.Ready lists t m' := by
  obtain ⟨v, held, integer⟩ := ready.counter
  exact ⟨kept.plain ready.plain, ready.holds.congr kept.lists, v, kept.counter.trans held, integer⟩

/-- An execution of the loop: the machines before its instructions. What lies between them does not
disturb the loop; after the step that tells its end anything may follow. -/
structure Execution (loop : ForeachLoop) where
  initial : Machine
  start : loop.Site .foreachStart4
  steps : Nat → loop.Site .foreachStep4
  before : Nat → Machine
  first : loop.Undisturbed (start.leaves initial) (before 0)
  next : ∀ t, (steps t).Pushes (before t) true →
    loop.Undisturbed ((steps t).leaves (before t)) (before (t + 1))

namespace Execution

variable (run : loop.Execution)

/-- Step `t` pushes a truth value. -/
def Pushes (t : Nat) (b : Bool) : Prop := (run.steps t).Pushes (run.before t) b

/-- The machine right after step `t`. -/
def after (t : Nat) : Machine := (run.steps t).leaves (run.before t)

variable {run}

/-- As long as there was more, the counter tells the number of steps. -/
theorem ready (apart : loop.Apart) (plain : loop.Plain run.initial)
    (holds : loop.Holds run.initial lists)
    (left : ∀ s < t, loop.more lists (iteration s) = true) : loop.Ready lists t (run.before t) := by
  -- A step that tells of more is followed by code that does not disturb the loop.
  induction t with
  | zero => exact run.first.ready (run.start.ready_start apart plain holds)
  | succ t ih =>
    have before := ih fun s earlier => left s (Nat.lt_succ_of_lt earlier)
    have told := (before.pushes_iff apart (run.steps t)).mpr (left t (Nat.lt_succ_self t))
    exact (run.next t told).ready (before.leaves apart (run.steps t))

end Execution

end ForeachLoop

end CommandVM
