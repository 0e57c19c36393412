import CommandVM.Proofs.Variables.Reachable

/-!
# Observers at work, step by step

While observers run, an access inside an access may be going on, and so on. An activity lists what
is still to be done, the innermost first, so that one can look at the store at every step. A
variable is marked exactly when a firing of its observers is among the things still to be done.
-/

namespace CommandVM

/-- What goes on when the present task is done. -/
inductive Pending where
  /-- A callback waits for an access of its own. -/
  | resume (next : Except Fault Value → Callback)
  /-- The observers of a variable are running; these callbacks come next. -/
  | firing (var : Nat) (rest : List Callback)
  /-- An access waits for the observers that are told of a read. -/
  | fetch (t : Target) (v : Variable)
  /-- An access waits for the observers that are told of what was written. -/
  | settle (var : Nat) (v : Variable) (index : Option String) (written : Value)

def Pending.firing? : Pending → Option Nat
  | .firing var _ => some var
  | _ => none

/-- The present task. -/
inductive Task where
  | access (t : Target)
  | fire (var : Nat) (event : Event)
  | callback (c : Callback)
  | fired (outcome : Except String Unit)
  | accessed (outcome : Except Fault Value)

structure Activity where
  task : Task
  pending : List Pending := []
  store : Store

namespace Activity

variable {act : Behaviour} {a a' a'' : Activity} {s : Store} {var w : Nat} {v : Variable}
  {pending : List Pending}

/-- The variables whose observers are running, the innermost first. -/
def firings (a : Activity) : List Nat := a.pending.filterMap Pending.firing?

/-- A request that is about to be carried out. -/
def start (r : Request) (s : Store) : Activity where
  task := .access (r.target s).1
  store := (r.target s).2

/-! ### Steps -/

/-- An access is made directly, or observers have to be told of it. -/
def access (t : Target) (pending : List Pending) (s : Store) : Activity :=
  match s.var? t.var with
  | none => ⟨.accessed (.error (.variableAccess .read "" "no such variable")), pending, s⟩
  | some v => match v.direct? t.index t.access with
    | some (value, new) => ⟨.accessed (.ok value), pending, s.update t.var fun _ => new⟩
    | none => match t.access with
      | .write value mode => match v.write t.index value mode with
        | (.error reason, new) =>
          ⟨.accessed (.error (Store.accessFault .set v t.index reason)), pending,
            s.update t.var fun _ => new⟩
        | (.ok written, new) =>
          ⟨.fire t.var ⟨.write, v.name, t.index⟩, .settle t.var v t.index written :: pending,
            s.update t.var fun _ => new⟩
      | _ => ⟨.fire t.var ⟨.read, v.name, t.index⟩, .fetch t v :: pending, s⟩

/-- Observers are told of an event, unless there are none or they are running. -/
def fire (act : Behaviour) (var : Nat) (event : Event) (pending : List Pending) (s : Store) :
    Activity :=
  match s.var? var with
  | none => ⟨.fired (.ok ()), pending, s⟩
  | some v =>
    if v.observers.isEmpty || v.firing then ⟨.fired (.ok ()), pending, s⟩
    else ⟨.callback (.finish (.ok ())), .firing var (v.observers.map (act · event)) :: pending,
      s.update var ({ · with firing := true })⟩

/-- An access goes on with the value that is there once the observers have been told. -/
def fetched (t : Target) (before : Variable) (pending : List Pending) (s : Store) : Activity :=
  match s.var? t.var with
  | none =>
    ⟨.accessed (.error (Store.accessFault .read before t.index "no such variable")), pending, s⟩
  | some v => match t.access with
    | .increment amount => match v.binding.read t.index with
      | .error reason => ⟨.accessed (.error (Store.accessFault .read v t.index reason)), pending, s⟩
      | .ok current => match incremented current amount with
        | .error e => ⟨.accessed (.error e), pending, s⟩
        | .ok n =>
          ⟨.fire t.var ⟨.write, v.name, t.index⟩,
            .settle t.var v t.index (.ofNumber n) :: pending,
            s.update t.var fun v => { v with binding := v.binding.set t.index (.ofNumber n) }⟩
    | _ => ⟨.accessed (Store.readObserved v t.index s).1, pending, s⟩

/-- The next step; none when the outermost access has ended. -/
def next (act : Behaviour) : Activity → Option Activity
  | ⟨.access t, pending, s⟩ => some (access t pending s)
  | ⟨.fire var event, pending, s⟩ => some (fire act var event pending s)
  | ⟨.callback (.look next), pending, s⟩ => some ⟨.callback (next s), pending, s⟩
  | ⟨.callback (.note line rest), pending, s⟩ => some ⟨.callback rest, pending, s.note line⟩
  | ⟨.callback (.access r next), pending, s⟩ =>
    some ⟨.access (r.target s).1, .resume next :: pending, (r.target s).2⟩
  | ⟨.callback (.finish (.ok ())), .firing var (c :: rest) :: pending, s⟩ =>
    some ⟨.callback c, .firing var rest :: pending, s⟩
  | ⟨.callback (.finish outcome), .firing var _ :: pending, s⟩ =>
    some ⟨.fired outcome, pending, s.update var ({ · with firing := false })⟩
  | ⟨.fired (.error reason), .fetch t v :: pending, s⟩ =>
    some ⟨.accessed (.error (Store.accessFault .read v t.index reason)), pending, s⟩
  | ⟨.fired (.ok ()), .fetch t v :: pending, s⟩ => some (fetched t v pending s)
  | ⟨.fired outcome, .settle var v index written :: pending, s⟩ =>
    some ⟨.accessed (Store.settle (fun _ _ s => (outcome, s)) var v index written s).1, pending, s⟩
  | ⟨.accessed outcome, .resume next :: pending, s⟩ => some ⟨.callback (next outcome), pending, s⟩
  | _ => none

/-- The activity after some steps. -/
def after (act : Behaviour) : Nat → Activity → Activity
  | 0, a => a
  | k + 1, a => match a.next act with
    | some a' => a'.after act k
    | none => a

/-! ### What a step does to marks -/

theorem access_grows (t : Target) (pending : List Pending) (s : Store) :
    s.Grows (access t pending s).store ∧
      (access t pending s).firings = pending.filterMap Pending.firing? := by
  unfold access
  split
  · exact ⟨.refl s, rfl⟩
  · rename_i v found
    split
    · rename_i direct
      exact ⟨Store.update_grows found (Variable.traits_of_direct direct), rfl⟩
    · split
      · rename_i value mode _
        have kept : (v.write t.index value mode).2.traits = v.traits :=
          Variable.traits_write value mode
        split <;> rename_i wrote <;> rw [wrote] at kept <;>
          exact ⟨Store.update_grows found kept, rfl⟩
      · exact ⟨.refl s, rfl⟩

theorem fetched_grows (t : Target) (before : Variable) (pending : List Pending) (s : Store) :
    s.Grows (fetched t before pending s).store ∧
      (fetched t before pending s).firings = pending.filterMap Pending.firing? := by
  unfold fetched
  split
  · exact ⟨.refl s, rfl⟩
  · rename_i v found
    split
    · split
      · exact ⟨.refl s, rfl⟩
      · split
        · exact ⟨.refl s, rfl⟩
        · exact ⟨Store.update_grows found rfl, rfl⟩
    · exact ⟨.refl s, rfl⟩

/-- A step leaves the marks, or it begins the firing of idle observers, or it ends the innermost
firing. -/
theorem next_cases (stepped : a.next act = some a') :
    (a.store.Grows a'.store ∧ a'.firings = a.firings) ∨
      (∃ var v, a.store.var? var = some v ∧ v.observers ≠ [] ∧ v.firing = false ∧
        a'.store = a.store.update var ({ · with firing := true }) ∧
        a'.firings = var :: a.firings) ∨
      ∃ var, a.firings = var :: a'.firings ∧
        a'.store = a.store.update var ({ · with firing := false }) := by
  unfold next at stepped
  split at stepped <;> cases stepped
  · exact .inl (access_grows _ _ _)
  · rename_i var event pending s
    unfold fire
    split
    · exact .inl ⟨.refl s, rfl⟩
    · rename_i v found
      split
      · exact .inl ⟨.refl s, rfl⟩
      · rename_i idle
        simp only [Bool.or_eq_true, List.isEmpty_iff, not_or, Bool.not_eq_true] at idle
        exact .inr (.inl ⟨var, v, found, idle.1, idle.2, rfl, rfl⟩)
  · exact .inl ⟨.refl _, rfl⟩
  · exact .inl ⟨.of_traits rfl fun _ => rfl, rfl⟩
  · exact .inl ⟨Store.target_grows _, rfl⟩
  · exact .inl ⟨.refl _, rfl⟩
  · exact .inr (.inr ⟨_, rfl, rfl⟩)
  · exact .inl ⟨.refl _, rfl⟩
  · exact .inl (fetched_grows _ _ _ _)
  · exact .inl ⟨.refl _, rfl⟩
  · exact .inl ⟨.refl _, rfl⟩

end Activity

/-! ### Idle observers -/

theorem countP_modify {α : Type} (p : α → Bool) (f : α → α) {items : List α} {i : Nat} {x : α}
    (found : items[i]? = some x) :
    (items.modify i f).countP p + (if p x then 1 else 0) =
      items.countP p + (if p (f x) then 1 else 0) := by
  induction items generalizing i with
  | nil => cases found
  | cons y rest ih =>
    cases i with
    | zero =>
      cases found
      simp only [List.modify_zero_cons, List.countP_cons]
      omega
    | succ i =>
      have later := ih found
      simp only [List.modify_succ_cons, List.countP_cons]
      omega

/-- There are observers, and they are not running. -/
def Traits.idle (t : Traits) : Bool := !t.observers.isEmpty && !t.firing

namespace Store

variable {s s' : Store} {var : Nat} {v : Variable}

/-- The number of variables with observers that are not running. -/
def idle (s : Store) : Nat := s.current.vars.countP fun v => v.traits.idle

theorem Grows.idle_eq (grown : s.Grows s') : s'.idle = s.idle := by
  -- The variables that were there keep their traits, and those after them have no observers.
  have front : (s'.current.vars.take s.current.vars.length).map Variable.traits =
      s.current.vars.map Variable.traits := by
    refine List.ext_getElem? fun i => ?_
    rw [List.getElem?_map, List.getElem?_map, List.getElem?_take]
    by_cases inside : i < s.current.vars.length
    · have found : s.var? i = some s.current.vars[i] := List.getElem?_eq_getElem inside
      obtain ⟨v', found', same⟩ := grown.kept found
      have there : s'.current.vars[i]? = some v' := found'
      rw [if_pos inside, there, List.getElem?_eq_getElem inside]
      exact congrArg some same
    · rw [if_neg inside, List.getElem?_eq_none (Nat.not_lt.mp inside)]
  have back : (s'.current.vars.drop s.current.vars.length).countP (fun v => v.traits.idle) = 0 := by
    refine List.countP_eq_zero.mpr fun v member => ?_
    obtain ⟨i, found⟩ := List.getElem?_of_mem member
    rw [List.getElem?_drop] at found
    have missing : s.var? (s.current.vars.length + i) = none :=
      List.getElem?_eq_none (Nat.le_add_right _ _)
    have unobserved := (grown.added missing found).1
    simp [Traits.idle, Variable.traits, unobserved]
  have counted := congrArg (List.countP Traits.idle) front
  rw [List.countP_map, List.countP_map] at counted
  rw [idle, ← List.take_append_drop s.current.vars.length s'.current.vars, List.countP_append, back]
  exact counted

theorem Grows.idle_le (grown : s.Grows s') {n : Nat} (few : s.idle ≤ n) : s'.idle ≤ n := by
  rw [grown.idle_eq]
  exact few

theorem idle_mark (found : s.var? var = some v) (observed : v.observers ≠ [])
    (idle : v.firing = false) : (s.update var ({ · with firing := true })).idle + 1 = s.idle := by
  have counted := countP_modify (fun v => v.traits.idle) ({ · with firing := true }) found
  simpa [Store.idle, update, Scope.modify, Traits.idle, Variable.traits, observed, idle]
    using counted

theorem idle_unmark (found : s.var? var = some v) (observed : v.observers ≠ [])
    (firing : v.firing = true) : (s.update var ({ · with firing := false })).idle = s.idle + 1 := by
  have counted := countP_modify (fun v => v.traits.idle) ({ · with firing := false }) found
  simpa [Store.idle, update, Scope.modify, Traits.idle, Variable.traits, observed, firing]
    using counted

theorem idle_le_observed (s : Store) : s.idle ≤ s.observed := by
  rw [idle, observed, ← List.countP_eq_length_filter]
  refine List.countP_mono_left fun v _ idle => ?_
  simp only [Traits.idle, Variable.traits, Bool.and_eq_true] at idle
  exact idle.1

end Store

namespace Activity

variable {act : Behaviour} {a a' : Activity} {s : Store} {limit : Nat}

/-- A variable is marked exactly while its observers are running; no observers run inside
themselves, and there are no more variables with observers than in the beginning. -/
structure Sound (limit : Nat) (a : Activity) : Prop where
  marked : ∀ w, w ∈ a.firings ↔ ∃ v, a.store.var? w = some v ∧ v.firing = true
  once : a.firings.Nodup
  observed : ∀ w v, w ∈ a.firings → a.store.var? w = some v → v.observers ≠ []
  count : a.store.idle + a.firings.length ≤ limit
  outer : ∀ scope ∈ a.store.callers, ∀ v ∈ scope.vars, v.firing = false

theorem Sound.of_grows (sound : a.Sound limit) (grown : a.store.Grows a'.store)
    (same : a'.firings = a.firings) : a'.Sound limit := by
  refine ⟨fun w => ?_, same ▸ sound.once, fun w v member found => ?_, ?_, ?_⟩
  · rw [same, sound.marked w]
    constructor
    · rintro ⟨v, found, firing⟩
      obtain ⟨v', found', traits⟩ := grown.kept found
      exact ⟨v', found', (congrArg Traits.firing traits).trans firing⟩
    · rintro ⟨v', found', firing⟩
      cases found : a.store.var? w with
      | none =>
        rw [(grown.added found found').2] at firing
        cases firing
      | some v =>
        obtain ⟨v'', found'', traits⟩ := grown.kept found
        rw [found'] at found''
        cases found''
        exact ⟨v, rfl, (congrArg Traits.firing traits).symm.trans firing⟩
  · rw [same] at member
    obtain ⟨v₀, found₀, _⟩ := (sound.marked w).mp member
    obtain ⟨v', found', traits⟩ := grown.kept found₀
    rw [found] at found'
    cases found'
    have observers : v.observers = v₀.observers := congrArg Traits.observers traits
    rw [observers]
    exact sound.observed w v₀ member found₀
  · rw [grown.idle_eq, same]
    exact sound.count
  · rw [grown.callers]
    exact sound.outer

theorem Sound.begin (sound : a.Sound limit) {var : Nat} {v : Variable}
    (found : a.store.var? var = some v) (observed : v.observers ≠ []) (idle : v.firing = false)
    (store : a'.store = a.store.update var ({ · with firing := true }))
    (fires : a'.firings = var :: a.firings) : a'.Sound limit := by
  have here : a'.store.var? var = some { v with firing := true } := by
    rw [store, Store.var?_update_self, found, Option.map_some]
  have there {w : Nat} (other : w ≠ var) : a'.store.var? w = a.store.var? w := by
    rw [store, Store.var?_update_of_ne _ other]
  have fresh : var ∉ a.firings := by
    intro member
    obtain ⟨v', found', firing⟩ := (sound.marked var).mp member
    rw [found] at found'
    cases found'
    rw [idle] at firing
    cases firing
  refine ⟨fun w => ?_, ?_, fun w v' member found' => ?_, ?_, ?_⟩
  · by_cases same : w = var
    · subst same
      exact ⟨fun _ => ⟨_, here, rfl⟩, fun _ => fires ▸ List.mem_cons_self⟩
    · rw [fires, List.mem_cons, there same, sound.marked w]
      exact ⟨fun inside => inside.resolve_left same, .inr⟩
  · rw [fires]
    exact List.nodup_cons.mpr ⟨fresh, sound.once⟩
  · by_cases same : w = var
    · subst same
      rw [here] at found'
      cases found'
      exact observed
    · rw [fires, List.mem_cons] at member
      rw [there same] at found'
      exact sound.observed w v' (member.resolve_left same) found'
  · have counted := sound.count
    have fewer := Store.idle_mark found observed idle
    rw [store, fires, List.length_cons]
    omega
  · rw [store]
    exact sound.outer

theorem Sound.finish (sound : a.Sound limit) {var : Nat} (fires : a.firings = var :: a'.firings)
    (store : a'.store = a.store.update var ({ · with firing := false })) : a'.Sound limit := by
  have member : var ∈ a.firings := fires ▸ List.mem_cons_self
  obtain ⟨v, found, firing⟩ := (sound.marked var).mp member
  have here : a'.store.var? var = some { v with firing := false } := by
    rw [store, Store.var?_update_self, found, Option.map_some]
  have there {w : Nat} (other : w ≠ var) : a'.store.var? w = a.store.var? w := by
    rw [store, Store.var?_update_of_ne _ other]
  -- The variable is listed once, so that it is not among the firings that are left.
  obtain ⟨gone, once⟩ := List.nodup_cons.mp (fires ▸ sound.once)
  have inside {w : Nat} (other : w ≠ var) : w ∈ a'.firings ↔ w ∈ a.firings := by
    rw [fires, List.mem_cons]
    exact ⟨.inr, fun either => either.resolve_left other⟩
  refine ⟨fun w => ?_, once, fun w v' member found' => ?_, ?_, ?_⟩
  · by_cases same : w = var
    · subst same
      refine ⟨fun member => absurd member gone, fun ⟨v', found', marked⟩ => ?_⟩
      rw [here] at found'
      cases found'
      cases marked
    · rw [inside same, there same]
      exact sound.marked w
  · have other : w ≠ var := fun same => gone (same ▸ member)
    rw [there other] at found'
    exact sound.observed w v' ((inside other).mp member) found'
  · have counted := sound.count
    have more := Store.idle_unmark found (sound.observed var v member found) firing
    rw [fires, List.length_cons] at counted
    rw [store]
    omega
  · rw [store]
    exact sound.outer

theorem Sound.next (sound : a.Sound limit) (stepped : a.next act = some a') : a'.Sound limit := by
  rcases next_cases stepped with ⟨grown, same⟩ | ⟨var, v, found, observed, idle, store, fires⟩ |
    ⟨var, fires, store⟩
  · exact sound.of_grows grown same
  · exact sound.begin found observed idle store fires
  · exact sound.finish fires store

theorem Sound.after (sound : a.Sound limit) (k : Nat) : (a.after act k).Sound limit := by
  induction k generalizing a with
  | zero => exact sound
  | succ k ih =>
    unfold Activity.after
    split
    · rename_i a' stepped
      exact ih (sound.next stepped)
    · exact sound

theorem sound_start (reachable : s.Reachable act) (r : Request) :
    (start r s).Sound s.observed := by
  have orderly := (Store.target_grows r).orderly reachable.orderly
  refine ⟨fun w => ⟨nofun, ?_⟩, .nil, nofun, ?_, ?_⟩
  · rintro ⟨v, found, firing⟩
    have idle := orderly _ List.mem_cons_self v (List.mem_of_getElem? found)
    rw [idle] at firing
    cases firing
  · have counted : (r.target s).2.idle = s.idle := (Store.target_grows r).idle_eq
    exact counted ▸ s.idle_le_observed
  · intro scope member
    exact orderly scope (List.mem_cons_of_mem _ member)

end Activity

end CommandVM
