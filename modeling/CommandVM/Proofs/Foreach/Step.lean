import CommandVM.Proofs.Machine.Perform
import CommandVM.Proofs.Machine.PlainVariables
import CommandVM.Verifier.Layout
import Mathlib.Data.List.Forall2

/-!
# Steps of foreach loops

When all variables of a foreach loop are plain and the counter and the lists are kept apart from
the rest, a step does nothing but set variables: the counter always, and the variables of the items
when some list has items left.
-/

namespace CommandVM

/-- The machine with variables set to scalars, in order. -/
def Machine.setScalars (m : Machine) (assignments : List (Nat × Value)) : Machine :=
  { m with store := m.store.setScalars assignments }

theorem Machine.setScalars_append (m : Machine) (first second : List (Nat × Value)) :
    m.setScalars (first ++ second) = (m.setScalars first).setScalars second := by
  rw [setScalars, Store.setScalars_append]
  rfl

/-! ### Loops -/

/-- A foreach loop: an entry of the table of a unit, and the variables of the local slots. -/
structure ForeachLoop where
  unit : CompiledUnit
  slots : List Nat
  index : Nat
  info : ForeachInfo
  found : unit.foreachInfos[index]? = some info
  bound : ∀ slot ∈ Verifier.foreachSlots info, slot.toNat < slots.length

namespace ForeachLoop

variable {loop : ForeachLoop} {f : Frame} {m : Machine} {l : ForeachList} {slot : UInt32}
  {lists : List (List Value)}

/-- The variable of a slot. -/
def var (loop : ForeachLoop) (slot : UInt32) : Nat := loop.slots.getD slot.toNat 0

/-- The value of the variable of a slot, when it is a scalar. -/
def value? (loop : ForeachLoop) (m : Machine) (slot : UInt32) : Option Value :=
  m.store.scalar? (loop.var slot)

/-- The variables that hold the lists. -/
def listVars (loop : ForeachLoop) : List Nat := loop.info.lists.map fun l => loop.var l.listSlot

/-- The variables that items are assigned to. -/
def itemVars (loop : ForeachLoop) : List Nat :=
  loop.info.lists.flatMap fun l => l.varSlots.map loop.var

/-- No variable of the loop is an array or observed. -/
def Plain (loop : ForeachLoop) (m : Machine) : Prop :=
  ∀ slot ∈ Verifier.foreachSlots loop.info, m.store.PlainAt (loop.var slot)

/-- The variables of the lists hold values with these list views. -/
def Holds (loop : ForeachLoop) (m : Machine) (lists : List (List Value)) : Prop :=
  List.Forall₂ (fun l items => ∃ v, loop.value? m l.listSlot = some v ∧ v.items = .ok items)
    loop.info.lists lists

/-- The counter, the lists and the items have different variables. -/
structure Apart (loop : ForeachLoop) : Prop where
  counter_list : loop.var loop.info.counterSlot ∉ loop.listVars
  counter_item : loop.var loop.info.counterSlot ∉ loop.itemVars
  list_item : ∀ var ∈ loop.listVars, var ∉ loop.itemVars

/-- The frame runs the unit of the loop with its variables. -/
structure In (loop : ForeachLoop) (f : Frame) : Prop where
  unit : f.unit = loop.unit
  slots : f.slots = loop.slots

theorem counterSlot_mem : loop.info.counterSlot ∈ Verifier.foreachSlots loop.info :=
  List.mem_cons_self

theorem listSlot_mem (member : l ∈ loop.info.lists) :
    l.listSlot ∈ Verifier.foreachSlots loop.info :=
  List.mem_cons_of_mem _ (List.mem_flatMap.mpr ⟨l, member, List.mem_cons_self⟩)

theorem varSlot_mem (member : l ∈ loop.info.lists) (named : slot ∈ l.varSlots) :
    slot ∈ Verifier.foreachSlots loop.info :=
  List.mem_cons_of_mem _ (List.mem_flatMap.mpr ⟨l, member, List.mem_cons_of_mem _ named⟩)

theorem Plain.setScalars (plain : loop.Plain m) (assignments : List (Nat × Value)) :
    loop.Plain (m.setScalars assignments) :=
  fun slot named => (plain slot named).setScalars assignments

/-- The lists are what the values of their variables are. -/
theorem Holds.congr (holds : loop.Holds m lists) {m' : Machine}
    (same : ∀ l ∈ loop.info.lists, loop.value? m' l.listSlot = loop.value? m l.listSlot) :
    loop.Holds m' lists := by
  refine List.forall₂_iff_zip.mpr ⟨holds.length_eq, ?_⟩
  intro l items paired
  obtain ⟨v, held, view⟩ := (List.forall₂_iff_zip.mp holds).2 paired
  exact ⟨v, (same l (List.of_mem_zip paired).1).trans held, view⟩

/-- Assignments to other variables do not change the lists. -/
theorem Holds.setScalars (holds : loop.Holds m lists) {assignments : List (Nat × Value)}
    (apart : ∀ var ∈ loop.listVars, var ∉ assignments.map Prod.fst) :
    loop.Holds (m.setScalars assignments) lists :=
  holds.congr fun _ member =>
    Store.scalar?_setScalars_of_notMem (apart _ (List.mem_map_of_mem member))

/-! ### Accesses -/

theorem In.entry_slot (inside : loop.In f) {pc : Nat}
    (named : slot ∈ Verifier.foreachSlots loop.info) :
    Frame.entry pc .locals f.slots slot.toNat m = (.ok (loop.var slot), m) := by
  refine Frame.entry_of_some ?_
  have there := List.getElem?_eq_getElem (loop.bound slot named)
  rw [inside.slots, var, List.getD_eq_getElem?_getD, there]
  rfl

theorem In.accessSlot_read (inside : loop.In f) (pc : Nat) (plain : loop.Plain m) {v : Value}
    (named : slot ∈ Verifier.foreachSlots loop.info) (holds : loop.value? m slot = some v) :
    f.accessSlot pc slot.toNat none .read m = (.ok v, m) := by
  rw [Frame.accessSlot, Action.bind_of_ok (inside.entry_slot named), Action.access, Action.onStore,
    Store.access_read (plain slot named) holds]

theorem In.accessSlot_set (inside : loop.In f) (pc : Nat) (plain : loop.Plain m) (v : Value)
    (named : slot ∈ Verifier.foreachSlots loop.info) :
    f.accessSlot pc slot.toNat none (.write v .set) m =
      (.ok v, m.setScalars [(loop.var slot, v)]) := by
  rw [Frame.accessSlot, Action.bind_of_ok (inside.entry_slot named), Action.access, Action.onStore,
    Store.access_set (plain slot named)]
  rfl

/-! ### Items -/

/-- What is assigned to slots from position `start` of a list on. -/
def assignments (loop : ForeachLoop) (items : List Value) (start : Nat) (slots : List UInt32) :
    List (Nat × Value) :=
  (slots.zipIdx start).map fun p => (loop.var p.1, items.getD (Frame.position p.2) Value.empty)

/-- What is assigned in one round. -/
def round (loop : ForeachLoop) (iteration : Nat) (pairs : List (ForeachList × List Value)) :
    List (Nat × Value) :=
  pairs.flatMap fun p =>
    loop.assignments p.2 (iteration * p.1.varSlots.length) p.1.varSlots

theorem assignments_vars {items : List Value} {start : Nat} {slots : List UInt32} :
    (loop.assignments items start slots).map Prod.fst = slots.map loop.var := by
  have first : Prod.fst ∘ (fun p : UInt32 × Nat =>
      (loop.var p.1, items.getD (Frame.position p.2) Value.empty)) = loop.var ∘ Prod.fst := rfl
  rw [assignments, List.map_map, first, ← List.map_map, List.zipIdx_map_fst]

theorem round_vars {iteration : Nat} (same : loop.info.lists.length = lists.length) :
    (loop.round iteration (loop.info.lists.zip lists)).map Prod.fst = loop.itemVars := by
  have firsts : (loop.info.lists.zip lists).map Prod.fst = loop.info.lists :=
    List.map_fst_zip (Nat.le_of_eq same)
  rw [round, List.map_flatMap, itemVars]
  simp only [assignments_vars]
  conv => rhs; rw [← firsts, List.flatMap_map]

theorem In.foreachItems_eq (inside : loop.In f) (pc : Nat) (plain : loop.Plain m)
    {ls : List ForeachList} (known : ∀ l ∈ ls, l ∈ loop.info.lists)
    (holds : List.Forall₂ (fun l items =>
      ∃ v, loop.value? m l.listSlot = some v ∧ v.items = .ok items) ls lists) :
    f.foreachItems pc ls m = (.ok (ls.zip lists), m) := by
  induction holds with
  | nil => rfl
  | @cons l items ls lists view _ ih =>
    obtain ⟨v, held, view⟩ := view
    have here := known l List.mem_cons_self
    have read := inside.accessSlot_read pc plain (listSlot_mem here) held
    have listed : Frame.itemsOf v m = (.ok items, m) := by
      rw [Frame.itemsOf, view]
      rfl
    have rest := ih fun l member => known l (List.mem_cons_of_mem _ member)
    rw [Frame.foreachItems, Action.bind_of_ok read, Action.bind_of_ok listed,
      Action.bind_of_ok rest]
    rfl

theorem In.assignItems_eq (inside : loop.In f) (pc : Nat) (plain : loop.Plain m)
    (items : List Value) (start : Nat) {slots : List UInt32}
    (named : ∀ slot ∈ slots, slot ∈ Verifier.foreachSlots loop.info) :
    f.assignItems pc items start slots m =
      (.ok (), m.setScalars (loop.assignments items start slots)) := by
  induction slots generalizing start m with
  | nil => rfl
  | cons slot slots ih =>
    have first := inside.accessSlot_set pc plain (items.getD (Frame.position start) Value.empty)
      (named slot List.mem_cons_self)
    rw [Frame.assignItems, Action.bind_of_ok first, ih (plain.setScalars _) (start + 1)
      fun slot member => named slot (List.mem_cons_of_mem _ member)]
    rfl

theorem In.assignAll_eq (inside : loop.In f) (pc : Nat) (plain : loop.Plain m)
    (iteration : Nat) {pairs : List (ForeachList × List Value)}
    (known : ∀ p ∈ pairs, p.1 ∈ loop.info.lists) :
    f.assignAll pc iteration pairs m = (.ok (), m.setScalars (loop.round iteration pairs)) := by
  induction pairs generalizing m with
  | nil => rfl
  | cons p pairs ih =>
    obtain ⟨l, items⟩ := p
    have here := known (l, items) List.mem_cons_self
    have group := inside.assignItems_eq pc plain items (iteration * l.varSlots.length)
      fun slot member => varSlot_mem here member
    rw [Frame.assignAll, Action.bind_of_ok group, ih (plain.setScalars _)
      fun p member => known p (List.mem_cons_of_mem _ member), ← Machine.setScalars_append]
    rfl

/-! ### Steps -/

/-- Some list has items left for an iteration. -/
def more (loop : ForeachLoop) (lists : List (List Value)) (iteration : Nat) : Bool :=
  Frame.hasMore iteration (loop.info.lists.zip lists)

/-- What a step assigns that counts to `counter`. -/
def updates (loop : ForeachLoop) (lists : List (List Value)) (counter : Int64) :
    List (Nat × Value) :=
  (loop.var loop.info.counterSlot, .ofInt64 counter) ::
    if loop.more lists counter.toInt.toNat then
      loop.round counter.toInt.toNat (loop.info.lists.zip lists)
    else []

theorem In.foreachStep_eq (inside : loop.In f) (pc : Nat) (apart : loop.Apart)
    (plain : loop.Plain m) (holds : loop.Holds m lists) {v : Value} {counter : Int64}
    (held : loop.value? m loop.info.counterSlot = some v) (integer : v.integer? = some counter) :
    f.foreachStep pc loop.index m =
      (.ok (loop.more lists (counter + 1).toInt.toNat),
        m.setScalars (loop.updates lists (counter + 1))) := by
  have found : f.unit.foreachInfos[loop.index]? = some loop.info := by
    rw [inside.unit, loop.found]
  have read := inside.accessSlot_read pc plain counterSlot_mem held
  have counted : Frame.integerOf v m = (.ok counter, m) := by
    rw [Frame.integerOf, integer]
    rfl
  have written := inside.accessSlot_set pc plain (.ofInt64 (counter + 1)) counterSlot_mem
  -- The lists are read after the counter is written, so it must not be one of them.
  have still : loop.Holds (m.setScalars [(loop.var loop.info.counterSlot,
      .ofInt64 (counter + 1))]) lists := by
    refine holds.setScalars fun var listed same => apart.counter_list ?_
    cases List.mem_singleton.mp same
    exact listed
  have looked := inside.foreachItems_eq pc (plain.setScalars _) (fun _ member => member) still
  rw [Frame.foreachStep, Action.bind_of_ok (Frame.entry_of_some found), Action.bind_of_ok read,
    Action.bind_of_ok counted, Action.bind_of_ok written, Action.bind_of_ok looked, updates]
  cases left : loop.more lists (counter + 1).toInt.toNat with
  | true =>
    have assigned := inside.assignAll_eq pc
      (plain.setScalars [(loop.var loop.info.counterSlot, .ofInt64 (counter + 1))])
      (counter + 1).toInt.toNat fun p (member : p ∈ loop.info.lists.zip lists) =>
        (List.of_mem_zip member).1
    rw [more] at left
    rw [left, if_pos rfl, if_pos rfl, Action.bind_of_ok assigned, ← Machine.setScalars_append]
    rfl
  | false =>
    rw [more] at left
    rw [left, if_neg Bool.false_ne_true, if_neg Bool.false_ne_true]
    rfl

end ForeachLoop

end CommandVM
