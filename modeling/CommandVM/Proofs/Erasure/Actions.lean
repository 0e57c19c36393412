import CommandVM.Machine.Action
import CommandVM.Proofs.Erasure.Store

/-!
# Actions without representations

Two actions agree when, from machines that are the same after erasure, they end the same after
erasure. Whatever is built from actions that agree agrees.
-/

namespace CommandVM

/-- The stack with each of its values changed. -/
def Stack.map (f : Value → Value) (s : Stack) : Stack := { s with slots := s.slots.map f }

/-- The exception with its value changed. -/
def Exception.map (f : Value → Value) (e : Exception) : Exception := { e with value := f e.value }

/-- The reason to stop with its value changed. -/
def Stop.map (f : Value → Value) : Stop → Stop
  | .exception e => .exception (e.map f)
  | stop => stop

/-- The machine with the values of its stack, its variables and its result changed. -/
def Machine.map (f : Value → Value) (m : Machine) : Machine :=
  { m with stack := m.stack.map f, store := m.store.map f, result := f m.result }

def Stack.erase (s : Stack) : Stack := s.map Value.erase

def Exception.erase (e : Exception) : Exception := e.map Value.erase

def Stop.erase (stop : Stop) : Stop := stop.map Value.erase

def Machine.erase (m : Machine) : Machine := m.map Value.erase

/-! ### The stack -/

namespace Stack

variable {s t : Stack} (same : s.erase = t.erase)
include same

theorem slots_congr : s.slots.map Value.erase = t.slots.map Value.erase := (congrArg slots same :)

theorem floor_congr : s.floor = t.floor := (congrArg floor same :)

theorem limit_congr : s.limit = t.limit := (congrArg limit same :)

theorem height_congr : s.height = t.height := by
  have lengths := congrArg List.length (slots_congr same)
  rwa [List.length_map, List.length_map] at lengths

theorem depth_congr : s.depth = t.depth := by
  rw [depth, depth, height_congr same, floor_congr same]

theorem withSlots_congr {vs ws : List Value} (slots : vs.map Value.erase = ws.map Value.erase) :
    ({ s with slots := vs } : Stack).erase = ({ t with slots := ws } : Stack).erase := by
  show ({ s.erase with slots := vs.map Value.erase } : Stack) =
    { t.erase with slots := ws.map Value.erase }
  rw [same, slots]

theorem drop_congr (n : Nat) :
    (s.slots.drop n).map Value.erase = (t.slots.drop n).map Value.erase := by
  rw [List.map_drop, slots_congr same, ← List.map_drop]

theorem push_congr {v w : Value} (values : v.erase = w.erase) :
    (s.push v).erase = (t.push w).erase := by
  refine withSlots_congr same ?_
  rw [List.map_cons, List.map_cons, values, slots_congr same]

theorem peekAt_congr (n : Nat) :
    (s.peekAt n).map Value.erase = (t.peekAt n).map Value.erase := by
  have slots : s.slots[n]?.map Value.erase = t.slots[n]?.map Value.erase := by
    rw [← List.getElem?_map, slots_congr same, List.getElem?_map]
  rw [peekAt, peekAt, depth_congr same]
  by_cases inside : n < t.depth
  · rw [if_pos inside, if_pos inside]
    rcases option_map_eq_cases slots with ⟨left, right⟩ | ⟨v, w, left, right, alike⟩
    · rw [left, right]
    · rw [left, right]
      exact congrArg Except.ok alike
  · rw [if_neg inside, if_neg inside]

theorem top_congr (n : Nat) :
    (s.top n).map (List.map Value.erase) = (t.top n).map (List.map Value.erase) := by
  rw [top, top, depth_congr same]
  split
  · rfl
  · refine congrArg Except.ok ?_
    rw [List.map_reverse, List.map_take, slots_congr same, ← List.map_take, ← List.map_reverse]

theorem discard_congr (n : Nat) : (s.discard n).map erase = (t.discard n).map erase := by
  rw [discard, discard, depth_congr same]
  split
  · rfl
  · exact congrArg Except.ok (withSlots_congr same (drop_congr same n))

theorem cut_congr (height : Nat) : (s.cut height).erase = (t.cut height).erase := by
  rw [cut, cut, height_congr same]
  exact withSlots_congr same (drop_congr same _)

theorem truncate_congr (height : Nat) :
    (s.truncate height).map erase = (t.truncate height).map erase := by
  rw [truncate, truncate, height_congr same, floor_congr same]
  split
  · rfl
  · exact congrArg Except.ok (cut_congr same height)

theorem leave_congr (mark : FrameMark) : (s.leave mark).map erase = (t.leave mark).map erase := by
  rw [leave, leave, height_congr same]
  split
  · rfl
  · refine congrArg Except.ok (?_ : Stack.erase _ = Stack.erase _)
    exact congrArg (fun s : Stack => { s with floor := mark.savedFloor, limit := mark.savedLimit })
      (cut_congr same mark.base)

theorem slots_cases :
    (s.slots = [] ∧ t.slots = []) ∨ ∃ v w vs ws, s.slots = v :: vs ∧ t.slots = w :: ws ∧
      v.erase = w.erase ∧ vs.map Value.erase = ws.map Value.erase := by
  have slots := slots_congr same
  cases hs : s.slots with
  | nil =>
    rw [hs] at slots
    exact .inl ⟨rfl, nil_of_map_eq slots⟩
  | cons v vs =>
    rw [hs] at slots
    obtain ⟨w, ws, ht, values, rest⟩ := cons_of_map_eq slots
    exact .inr ⟨v, w, vs, ws, rfl, ht, values, rest⟩

theorem setTop_congr {v w : Value} (values : v.erase = w.erase) :
    (s.setTop v).map erase = (t.setTop w).map erase := by
  rw [setTop, setTop]
  rcases slots_cases same with ⟨hs, ht⟩ | ⟨_, _, vs, ws, hs, ht, _, rest⟩
  · rw [hs, ht, floor_congr same]
  · rw [hs, ht, depth_congr same]
    dsimp only
    split
    · rw [floor_congr same]
    · refine congrArg Except.ok (withSlots_congr same ?_)
      rw [List.map_cons, List.map_cons, values, rest]

theorem pop_congr :
    s.pop.map (Prod.map Value.erase erase) = t.pop.map (Prod.map Value.erase erase) := by
  rw [pop, pop]
  rcases slots_cases same with ⟨hs, ht⟩ | ⟨v, w, vs, ws, hs, ht, values, rest⟩
  · rw [hs, ht, floor_congr same]
  · rw [hs, ht]
    dsimp only
    by_cases low : t.height ≤ t.floor
    · rw [if_pos low, if_pos (by rw [height_congr same, floor_congr same]; exact low),
        floor_congr same]
    · rw [if_neg low, if_neg (by rw [height_congr same, floor_congr same]; exact low)]
      exact congrArg Except.ok (Prod.ext values (withSlots_congr same rest))

theorem enter_congr (n : Nat) :
    (s.enter n).1 = (t.enter n).1 ∧ (s.enter n).2.erase = (t.enter n).2.erase := by
  constructor
  · rw [enter, enter, height_congr same, floor_congr same, limit_congr same]
  · rw [enter, enter, height_congr same]
    exact congrArg (fun s : Stack =>
      { s with floor := t.height, limit := some (t.height + n) }) same

end Stack

namespace Machine

variable {m m' : Machine} (same : m.erase = m'.erase)
include same

theorem stack_congr : m.stack.erase = m'.stack.erase := (congrArg stack same :)

theorem store_congr : m.store.erase = m'.store.erase := (congrArg store same :)

theorem withStack_congr {s t : Stack} (alike : s.erase = t.erase) :
    ({ m with stack := s } : Machine).erase = ({ m' with stack := t } : Machine).erase := by
  show ({ m.erase with stack := s.erase } : Machine) = { m'.erase with stack := t.erase }
  rw [same, alike]

theorem withStore_congr {s t : Store} (stores : s.erase = t.erase) :
    ({ m with store := s } : Machine).erase = ({ m' with store := t } : Machine).erase := by
  show ({ m.erase with store := s.erase } : Machine) = { m'.erase with store := t.erase }
  rw [same, stores]

theorem withResult_congr {v w : Value} (values : v.erase = w.erase) :
    ({ m with result := v } : Machine).erase = ({ m' with result := w } : Machine).erase := by
  show ({ m.erase with result := v.erase } : Machine) = { m'.erase with result := w.erase }
  rw [same, values]

end Machine

namespace Action

variable {α β γ δ : Type} {view : α → γ} {watch : β → δ}

/-- An outcome after erasure, with a value that is given as `view` shows it. -/
def seen (view : α → γ) : Except Stop α × Machine → Except Stop γ × Machine
  | (.ok a, m) => (.ok (view a), m.erase)
  | (.error stop, m) => (.error stop.erase, m.erase)

/-- A completion after erasure, with a value that is given as `view` shows it. -/
def completed (view : α → γ) : Except Exception α → Except Exception γ
  | .ok a => .ok (view a)
  | .error e => .error e.erase

theorem seen_cases {x y : Except Stop α × Machine} (same : seen view x = seen view y) :
    (∃ a b m m', x = (.ok a, m) ∧ y = (.ok b, m') ∧ view a = view b ∧ m.erase = m'.erase) ∨
      ∃ stop stop' m m', x = (.error stop, m) ∧ y = (.error stop', m') ∧
        stop.erase = stop'.erase ∧ m.erase = m'.erase := by
  obtain ⟨outcome, m⟩ := x
  obtain ⟨outcome', m'⟩ := y
  cases outcome with
  | ok a =>
    cases outcome' with
    | ok b =>
      simp only [seen, Prod.mk.injEq, Except.ok.injEq] at same
      exact .inl ⟨a, b, m, m', rfl, rfl, same⟩
    | error stop => simp [seen] at same
  | error stop =>
    cases outcome' with
    | ok b => simp [seen] at same
    | error stop' =>
      simp only [seen, Prod.mk.injEq, Except.error.injEq] at same
      exact .inr ⟨stop, stop', m, m', rfl, rfl, same⟩

theorem completed_cases {x y : Except Exception α} (same : completed view x = completed view y) :
    (∃ a b, x = .ok a ∧ y = .ok b ∧ view a = view b) ∨
      ∃ e e', x = .error e ∧ y = .error e' ∧ e.erase = e'.erase := by
  cases x with
  | ok a =>
    cases y with
    | ok b => exact .inl ⟨a, b, rfl, rfl, Except.ok.inj same⟩
    | error e => cases same
  | error e =>
    cases y with
    | ok b => cases same
    | error e' => exact .inr ⟨e, e', rfl, rfl, Except.error.inj same⟩

/-- From machines that are the same after erasure, the actions lead to outcomes that are the same
after erasure. -/
def Agree (view : α → γ) (action action' : Action α) : Prop :=
  ∀ m m', m.erase = m'.erase → seen view (action m) = seen view (action' m')

namespace Agree

theorem pure {a b : α} (same : view a = view b) : Agree view (Pure.pure a) (Pure.pure b) :=
  fun _ _ machines => Prod.ext (congrArg Except.ok same) machines

theorem bind {action action' : Action α} {f g : α → Action β} (first : Agree view action action')
    (second : ∀ a b, view a = view b → Agree watch (f a) (g b)) :
    Agree watch (action >>= f) (action' >>= g) := by
  intro m m' machines
  show seen watch (Action.bind action f m) = seen watch (Action.bind action' g m')
  rw [Action.bind, Action.bind]
  rcases seen_cases (first m m' machines) with ⟨a, b, n, n', left, right, values, after⟩ |
    ⟨stop, stop', n, n', left, right, stops, after⟩
  · rw [left, right]
    exact second a b values n n' after
  · rw [left, right]
    exact Prod.ext (congrArg Except.error stops) after

/-- Data that erasure does not touch goes on as it is. -/
theorem andThen {action action' : Action α} {f g : α → Action β} (first : Agree id action action')
    (second : ∀ a, Agree watch (f a) (g a)) : Agree watch (action >>= f) (action' >>= g) := by
  refine bind first ?_
  intro a b (same : a = b)
  rw [same]
  exact second b

theorem raise {e e' : Exception} (same : e.erase = e'.erase) :
    Agree view (Action.raise e) (Action.raise e') :=
  fun _ _ machines => Prod.ext (congrArg (fun e => Except.error (Stop.exception e)) same) machines

theorem fault (f : Fault) : Agree view (Action.fault f) (Action.fault f) := raise rfl

theorem read {f : Machine → α} (same : ∀ m m', m.erase = m'.erase → view (f m) = view (f m')) :
    Agree view (Action.read f) (Action.read f) :=
  fun m m' machines => Prod.ext (congrArg Except.ok (same m m' machines)) machines

theorem modify {f g : Machine → Machine}
    (same : ∀ m m', m.erase = m'.erase → (f m).erase = (g m').erase) :
    Agree id (Action.modify f) (Action.modify g) :=
  fun m m' machines => Prod.ext rfl (same m m' machines)

theorem ofExcept {x y : Except Fault α} (same : x.map view = y.map view) :
    Agree view (Action.ofExcept x) (Action.ofExcept y) := by
  rcases map_eq_cases same with ⟨a, b, rfl, rfl, values⟩ | ⟨f, rfl, rfl⟩
  · exact pure values
  · exact fault f

theorem attempt {action action' : Action α} (agree : Agree view action action') :
    Agree (completed view) (Action.attempt action) (Action.attempt action') := by
  intro m m' machines
  rw [Action.attempt, Action.attempt]
  rcases seen_cases (agree m m' machines) with ⟨a, b, n, n', left, right, values, after⟩ |
    ⟨stop, stop', n, n', left, right, stops, after⟩
  · rw [left, right]
    exact Prod.ext (congrArg (fun a => Except.ok (Except.ok a)) values) after
  · rw [left, right]
    cases stop with
    | exception e =>
      cases stop' with
      | exception e' =>
        exact Prod.ext (congrArg (fun e => Except.ok (Except.error e)) (Stop.exception.inj stops))
          after
      | _ => cases stops
    | _ =>
      cases stop' with
      | exception e' => cases stops
      | _ => exact Prod.ext (congrArg Except.error stops) after

theorem complete {x y : Except Exception α} (same : completed view x = completed view y) :
    Agree view (Action.complete x) (Action.complete y) := by
  rcases completed_cases same with ⟨a, b, rfl, rfl, values⟩ | ⟨e, e', rfl, rfl, exceptions⟩
  · exact pure values
  · exact raise exceptions

/-! ### The stack -/

theorem inspect {f : Stack → Except Violation α}
    (same : ∀ s t, s.erase = t.erase → (f s).map view = (f t).map view) :
    Agree view (Action.inspect f) (Action.inspect f) := by
  intro m m' machines
  rw [Action.inspect, Action.inspect]
  rcases map_eq_cases (same _ _ (Machine.stack_congr machines)) with
    ⟨a, b, left, right, values⟩ | ⟨v, left, right⟩
  · rw [left, right]
    exact Prod.ext (congrArg Except.ok values) machines
  · rw [left, right]
    exact Prod.ext rfl machines

theorem reshape {f g : Stack → Except Violation Stack}
    (same : ∀ s t, s.erase = t.erase → (f s).map Stack.erase = (g t).map Stack.erase) :
    Agree id (Action.reshape f) (Action.reshape g) := by
  intro m m' machines
  rw [Action.reshape, Action.reshape]
  rcases map_eq_cases (same _ _ (Machine.stack_congr machines)) with
    ⟨s, t, left, right, alike⟩ | ⟨v, left, right⟩
  · rw [left, right]
    exact Prod.ext rfl (Machine.withStack_congr machines alike)
  · rw [left, right]
    exact Prod.ext rfl machines

theorem peekAt (n : Nat) : Agree Value.erase (Action.peekAt n) (Action.peekAt n) :=
  inspect fun _ _ same => Stack.peekAt_congr same n

theorem peek : Agree Value.erase Action.peek Action.peek := peekAt 0

theorem peekText (n : Nat) : Agree id (Action.peekText n) (Action.peekText n) :=
  bind (peekAt n) fun _ _ same => pure (Value.str_congr same)

theorem top (n : Nat) : Agree (List.map Value.erase) (Action.top n) (Action.top n) :=
  inspect fun _ _ same => Stack.top_congr same n

theorem discard (n : Nat) : Agree id (Action.discard n) (Action.discard n) :=
  reshape fun _ _ same => Stack.discard_congr same n

theorem push {v w : Value} (same : v.erase = w.erase) :
    Agree id (Action.push v) (Action.push w) :=
  modify fun _ _ machines =>
    Machine.withStack_congr machines (Stack.push_congr (Machine.stack_congr machines) same)

/-! ### Variables and nesting -/

theorem onStore {f g : Store → Except Fault Value × Store}
    (same : ∀ s t, s.erase = t.erase → Store.Same (f s) (g t)) :
    Agree Value.erase (Action.onStore f) (Action.onStore g) := by
  intro m m' machines
  rw [Action.onStore, Action.onStore]
  rcases (same _ _ (Machine.store_congr machines)).cases with
    ⟨v, w, s, t, left, right, values, stores⟩ | ⟨e, s, t, left, right, stores⟩
  · rw [left, right]
    exact Prod.ext (congrArg Except.ok values) (Machine.withStore_congr machines stores)
  · rw [left, right]
    exact Prod.ext rfl (Machine.withStore_congr machines stores)

section

variable {write write' : Access} (same : write.erase = write'.erase)
include same

theorem access (var : Nat) (index : Option String) :
    Agree Value.erase (Action.access var index write) (Action.access var index write') :=
  onStore fun _ _ stores => Store.access_congr var index same stores

theorem accessParts (name : String) (index : Option String) :
    Agree Value.erase (Action.accessParts name index write)
      (Action.accessParts name index write') :=
  onStore fun _ _ stores => Store.accessParts_congr name index same stores

theorem accessNamed (full : String) :
    Agree Value.erase (Action.accessNamed full write) (Action.accessNamed full write') :=
  onStore fun _ _ stores => Store.accessNamed_congr full same stores

end

theorem height : Agree id (Action.read fun m => m.stack.height)
    (Action.read fun m => m.stack.height) :=
  read fun _ _ machines => Stack.height_congr (Machine.stack_congr machines)

/-- An action that runs in a changed machine, which is changed back. -/
theorem within {action action' : Action α} (enter leave : Machine → Machine)
    (entered : ∀ m m', m.erase = m'.erase → (enter m).erase = (enter m').erase)
    (left : ∀ m m', m.erase = m'.erase → (leave m).erase = (leave m').erase)
    (agree : Agree view action action') :
    Agree view (fun m => ((action (enter m)).1, leave (action (enter m)).2))
      (fun m => ((action' (enter m)).1, leave (action' (enter m)).2)) := by
  intro m m' machines
  dsimp only
  rcases seen_cases (agree _ _ (entered m m' machines)) with
    ⟨a, b, n, n', first, second, values, after⟩ |
    ⟨stop, stop', n, n', first, second, stops, after⟩
  · rw [first, second]
    exact Prod.ext (congrArg Except.ok values) (left n n' after)
  · rw [first, second]
    exact Prod.ext (congrArg Except.error stops) (left n n' after)

theorem nested {action action' : Action α} (agree : Agree view action action') :
    Agree view (Action.nested action) (Action.nested action') := by
  intro m m' machines
  have limit : m.maxNesting = m'.maxNesting := (congrArg Machine.maxNesting machines :)
  have level : m.nesting = m'.nesting := (congrArg Machine.nesting machines :)
  rw [Action.nested, Action.nested]
  by_cases full : m'.maxNesting ≤ m'.nesting
  · rw [if_pos full, if_pos (by rw [limit, level]; exact full)]
    exact fault .nestingLimit m m' machines
  · rw [if_neg full, if_neg (by rw [limit, level]; exact full)]
    let deeper (m : Machine) : Machine := { m with nesting := m.nesting + 1 }
    let back (m : Machine) : Machine := { m with nesting := m.nesting - 1 }
    refine within deeper back (fun _ _ same => ?_) (fun _ _ same => ?_) agree m m' machines
    · exact congrArg deeper same
    · exact congrArg back same

end Agree

end Action

end CommandVM
