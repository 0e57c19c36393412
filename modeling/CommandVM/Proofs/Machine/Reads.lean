import CommandVM.Machine.Run
import CommandVM.Proofs.Machine.Variables

/-!
# Actions that only look at the stack

Until an instruction settles its effect, all that it does is to look at operands and to access
variables. Such an action keeps the machine around the variables of the current scope, cannot run
out of fuel, and violates the bounds of the stack only when operands are missing.
-/

namespace CommandVM

/-- The second machine differs from the first at most in the stack and in what code may change for
good: the variables of the current scope, the seed, results, marks and the output. -/
structure Machine.Alike (m m' : Machine) : Prop where
  callers : m'.store.callers = m.store.callers
  commands : m'.commands = m.commands
  functions : m'.functions = m.functions
  handlers : m'.handlers = m.handlers
  maxNesting : m'.maxNesting = m.maxNesting
  nesting : m'.nesting = m.nesting

/-- The machines are alike, and the stack is the same. -/
structure Machine.Keeps (m m' : Machine) : Prop extends Machine.Alike m m' where
  stack : m'.stack = m.stack

namespace Machine

variable {m m' m'' : Machine}

theorem Alike.refl (m : Machine) : m.Alike m := ⟨rfl, rfl, rfl, rfl, rfl, rfl⟩

theorem Alike.trans (first : m.Alike m') (second : m'.Alike m'') : m.Alike m'' where
  callers := second.callers.trans first.callers
  commands := second.commands.trans first.commands
  functions := second.functions.trans first.functions
  handlers := second.handlers.trans first.handlers
  maxNesting := second.maxNesting.trans first.maxNesting
  nesting := second.nesting.trans first.nesting

theorem Keeps.refl (m : Machine) : m.Keeps m := ⟨.refl m, rfl⟩

theorem Keeps.trans (first : m.Keeps m') (second : m'.Keeps m'') : m.Keeps m'' :=
  ⟨first.toAlike.trans second.toAlike, second.stack.trans first.stack⟩

end Machine

/-- An exception that neither reports broken code nor leaves a loop. -/
def Exception.Ordinary (e : Exception) : Prop := e.isMalformed = false ∧ e.code.loopExit? = none

theorem Fault.Ordinary.exception {f : Fault} (h : f.Ordinary) : (Exception.ofFault f).Ordinary := by
  constructor
  · cases f with
    | malformed e => exact absurd rfl (h e)
    | _ => rfl
  · rfl

namespace Action

variable {α β : Type} {need : Nat} {raises : Exception → Prop} {gives : α → Prop}
  {yields : β → Prop}

theorem bind_of_ok {action : Action α} {next : α → Action β} {m m' : Machine} {a : α}
    (gave : action m = (.ok a, m')) : (action >>= next) m = next a m' := by
  have unfolded : (action >>= next) m = Action.bind action next m := rfl
  rw [unfolded, Action.bind, gave]

theorem bind_of_error {action : Action α} {next : α → Action β} {m m' : Machine} {stop : Stop}
    (stopped : action m = (.error stop, m')) : (action >>= next) m = (.error stop, m') := by
  have unfolded : (action >>= next) m = Action.bind action next m := rfl
  rw [unfolded, Action.bind, stopped]

theorem bind_congr {action action' : Action α} {next : α → Action β} {m : Machine}
    (same : action m = action' m) : (action >>= next) m = (action' >>= next) m := by
  show Action.bind action next m = Action.bind action' next m
  unfold Action.bind
  rw [same]

/-- How an action may end that looks at no more than `need` of `depth` values. -/
def Ends (need depth : Nat) (raises : Exception → Prop) (gives : α → Prop) : Except Stop α → Prop
  | .ok v => gives v
  | .error (.exception e) => raises e
  | .error (.violation _) => depth < need
  | .error .outOfFuel => False

/-- The action looks at no more than `need` values. It keeps the machine; a value that it gives
satisfies `gives`, and an exception that it raises satisfies `raises`. -/
def Reads (need : Nat) (raises : Exception → Prop) (gives : α → Prop) (action : Action α) : Prop :=
  ∀ m, m.Keeps (action m).2 ∧ Ends need m.stack.depth raises gives (action m).1

namespace Reads

theorem pure {v : α} (given : gives v) : Reads need raises gives (Pure.pure v) :=
  fun m => ⟨.refl m, given⟩

theorem bind {action : Action α} {f : α → Action β} (first : Reads need raises gives action)
    (second : ∀ v, gives v → Reads need raises yields (f v)) :
    Reads need raises yields (action >>= f) := by
  intro m
  have before := first m
  have unfolded : (action >>= f) m = Action.bind action f m := rfl
  rw [unfolded, Action.bind]
  generalize action m = result at before ⊢
  obtain ⟨outcome, m'⟩ := result
  cases outcome with
  | ok v =>
    have after := second v before.2 m'
    rw [before.1.stack] at after
    exact ⟨before.1.trans after.1, after.2⟩
  | error stop =>
    cases stop with
    | exception e => exact before
    | violation v => exact before
    | outOfFuel => exact before

theorem raise {e : Exception} (allowed : raises e) :
    Reads need raises gives (Action.raise e) :=
  fun m => ⟨.refl m, allowed⟩

/-- Ordinary faults are allowed wherever ordinary exceptions are. -/
theorem fault {f : Fault} (ordinary : ∀ {e : Exception}, e.Ordinary → raises e)
    (h : f.Ordinary) : Reads need raises gives (Action.fault f) :=
  raise (ordinary h.exception)

theorem ofExcept {result : Except Fault α} (ordinary : ∀ {e : Exception}, e.Ordinary → raises e)
    (failed : ∀ f, result = .error f → f.Ordinary) (gave : ∀ v, result = .ok v → gives v) :
    Reads need raises gives (Action.ofExcept result) := by
  cases result with
  | ok v => exact pure (gave v rfl)
  | error f => exact fault ordinary (failed f rfl)

theorem read {f : Machine → α} (given : ∀ m, gives (f m)) :
    Reads need raises gives (Action.read f) :=
  fun m => ⟨.refl m, given m⟩

/-! ### The stack -/

theorem inspect {f : Stack → Except Violation α} (gave : ∀ s v, f s = .ok v → gives v)
    (failed : ∀ s v, f s = .error v → s.depth < need) :
    Reads need raises gives (Action.inspect f) := by
  intro m
  unfold Action.inspect
  split
  · rename_i v looked
    exact ⟨.refl m, gave _ v looked⟩
  · rename_i v looked
    exact ⟨.refl m, failed _ v looked⟩

theorem peekAt {n : Nat} (small : n < need) :
    Reads need raises (fun _ => True) (Action.peekAt n) := by
  refine inspect (fun _ _ _ => trivial) ?_
  intro s v missing
  apply Nat.lt_of_not_le
  intro enough
  have inside : n < s.slots.length := by
    have : s.depth ≤ s.height := Nat.sub_le _ _
    have : s.height = s.slots.length := rfl
    omega
  simp only [Stack.peekAt, if_pos (show n < s.depth by omega), List.getElem?_eq_getElem inside]
    at missing
  cases missing

theorem peek (small : 0 < need) : Reads need raises (fun _ => True) Action.peek := peekAt small

theorem peekText {n : Nat} (small : n < need) :
    Reads need raises (fun _ => True) (Action.peekText n) :=
  bind (peekAt small) fun _ _ => pure trivial

theorem top {n : Nat} (small : n ≤ need) :
    Reads need raises (fun vs => vs.length = n) (Action.top n) := by
  refine inspect ?_ ?_
  · intro s vs taken
    unfold Stack.top at taken
    split at taken
    · cases taken
    · rename_i enough
      cases taken
      have : s.depth ≤ s.height := Nat.sub_le _ _
      have : s.height = s.slots.length := rfl
      rw [List.length_reverse, List.length_take]
      omega
  · intro s v missing
    unfold Stack.top at missing
    split at missing
    · omega
    · cases missing

/-! ### Variables -/

variable (ordinary : ∀ {e : Exception}, e.Ordinary → raises e)
include ordinary

theorem onStore {f : Store → Except Fault Value × Store} (h : Store.Local f) :
    Reads need raises (fun _ => True) (Action.onStore f) := by
  intro m
  obtain ⟨callers, faults⟩ := h m.store
  have keeps : m.Keeps { m with store := (f m.store).2 } :=
    ⟨⟨callers, rfl, rfl, rfl, rfl, rfl⟩, rfl⟩
  unfold Action.onStore
  dsimp only
  split
  · exact ⟨keeps, trivial⟩
  · rename_i e failed
    exact ⟨keeps, ordinary (faults e failed).exception⟩

theorem access {var : Nat} {index : Option String} {access : Access} :
    Reads need raises (fun _ => True) (Action.access var index access) :=
  onStore ordinary Store.access_local

theorem accessParts {name : String} {index : Option String} {access : Access} :
    Reads need raises (fun _ => True) (Action.accessParts name index access) :=
  onStore ordinary Store.accessParts_local

theorem accessNamed {full : String} {access : Access} :
    Reads need raises (fun _ => True) (Action.accessNamed full access) :=
  onStore ordinary Store.accessNamed_local

end Reads

/-! ### Actions that clean up -/

/-- However the action completes, it keeps the machine. -/
structure Restores (action : Action α) : Prop where
  ok : ∀ {m m' v}, action m = (.ok v, m') → m.Keeps m'
  exception : ∀ {m m' e}, action m = (.error (.exception e), m') → m.Keeps m'

/-- How an action may end that keeps the machine, and stays within the bounds of the stack when the
commands are safe. -/
def Behaved (safe : List (String × Command) → Prop) (m : Machine) :
    Except Stop α × Machine → Prop
  | (.ok _, m') => m.Keeps m'
  | (.error (.exception _), m') => m.Keeps m'
  | (.error (.violation _), _) => ¬ safe m.commands
  | (.error .outOfFuel, _) => True

/-- The action keeps the machine, and stays within the bounds of the stack when the commands are
safe. -/
def Behaves (safe : List (String × Command) → Prop) (action : Action α) : Prop :=
  ∀ m, Behaved safe m (action m)

variable {safe : List (String × Command) → Prop}

theorem Behaved.after {m m' : Machine} {result : Except Stop α × Machine} (kept : m.Keeps m')
    (h : Behaved safe m' result) : Behaved safe m result := by
  obtain ⟨outcome, m''⟩ := result
  cases outcome with
  | ok v => exact kept.trans h
  | error stop =>
    cases stop with
    | exception e => exact kept.trans h
    | violation v =>
      rw [Behaved, ← kept.commands]
      exact h
    | outOfFuel => trivial

theorem Behaved.mono {safe' : List (String × Command) → Prop} {m : Machine}
    {result : Except Stop α × Machine} (h : Behaved safe m result)
    (more : safe' m.commands → safe m.commands) : Behaved safe' m result := by
  obtain ⟨outcome, m'⟩ := result
  cases outcome with
  | ok v => exact h
  | error stop =>
    cases stop with
    | exception e => exact h
    | violation v => exact fun also => h (more also)
    | outOfFuel => trivial

theorem Reads.behaves {action : Action α} (h : Reads 0 raises gives action) :
    action.Behaves safe := by
  intro m
  obtain ⟨kept, ends⟩ := h m
  generalize action m = result at kept ends ⊢
  obtain ⟨outcome, m'⟩ := result
  cases outcome with
  | ok v => exact kept
  | error stop =>
    cases stop with
    | exception e => exact kept
    | violation v => cases ends
    | outOfFuel => trivial

namespace Behaves

theorem of_restores {action : Action α} (h : action.Restores)
    (sound : ∀ {m m' v}, action m = (.error (.violation v), m') → ¬ safe m.commands) :
    action.Behaves safe := by
  intro m
  cases ended : action m with
  | mk outcome m' =>
    cases outcome with
    | ok v => exact h.ok ended
    | error stop =>
      cases stop with
      | exception e => exact h.exception ended
      | violation v => exact sound ended
      | outOfFuel => trivial

theorem restores {action : Action α} (h : action.Behaves safe) : action.Restores := by
  constructor <;> intro m m' _ ended <;> have ends := h m <;> rwa [ended] at ends

theorem mono {action : Action α} {safe' : List (String × Command) → Prop}
    (h : action.Behaves safe) (more : ∀ commands, safe' commands → safe commands) :
    action.Behaves safe' :=
  fun m => (h m).mono (more m.commands)

theorem sound {action : Action α} (h : action.Behaves safe) {m m' : Machine} {v : Violation}
    (ended : action m = (.error (.violation v), m')) : ¬ safe m.commands := by
  have ends := h m
  rwa [ended] at ends

theorem pure {v : α} : Behaves safe (Pure.pure v : Action α) := fun m => .refl m

theorem raise {e : Exception} : Behaves safe (Action.raise e : Action α) := fun m => .refl m

theorem read {f : Machine → α} : Behaves safe (Action.read f) := fun m => .refl m

theorem modify {f : Machine → Machine} (keeps : ∀ m : Machine, m.Keeps (f m)) :
    Behaves safe (Action.modify f) := keeps

theorem complete {outcome : Except Exception α} : Behaves safe (Action.complete outcome) := by
  cases outcome with
  | ok v => exact pure
  | error e => exact raise

theorem bind {action : Action α} {f : α → Action β} (first : action.Behaves safe)
    (second : ∀ v, (f v).Behaves safe) : (action >>= f).Behaves safe := by
  intro m
  have before := first m
  have unfolded : (action >>= f) m = Action.bind action f m := rfl
  rw [unfolded, Action.bind]
  generalize action m = result at before ⊢
  obtain ⟨outcome, m'⟩ := result
  cases outcome with
  | ok v => exact Behaved.after before (second v m')
  | error stop => cases stop <;> exact before

theorem attempt {action : Action α} (h : action.Behaves safe) :
    Behaves safe (Action.attempt action) := by
  intro m
  have before := h m
  unfold Action.attempt
  generalize action m = result at before ⊢
  obtain ⟨outcome, m'⟩ := result
  cases outcome with
  | ok v => exact before
  | error stop => cases stop <;> exact before

/-- What an action does one level deeper, it does at this level. -/
theorem nested {action : Action α} (h : action.Behaves safe) :
    Behaves safe (Action.nested action) := by
  intro m
  unfold Action.nested
  by_cases full : m.maxNesting ≤ m.nesting
  · rw [if_pos full]
    exact raise m
  · rw [if_neg full]
    have before := h { m with nesting := m.nesting + 1 }
    have back {m' : Machine} (kept : Machine.Keeps { m with nesting := m.nesting + 1 } m') :
        m.Keeps { m' with nesting := m'.nesting - 1 } := by
      have nesting : m'.nesting - 1 = m.nesting := by rw [kept.nesting, Nat.add_sub_cancel]
      exact ⟨⟨kept.callers, kept.commands, kept.functions, kept.handlers, kept.maxNesting,
        nesting⟩, kept.stack⟩
    generalize action { m with nesting := m.nesting + 1 } = result at before ⊢
    obtain ⟨outcome, m'⟩ := result
    cases outcome with
    | ok v => exact back before
    | error stop =>
      cases stop with
      | exception e => exact back before
      | violation v => exact before
      | outOfFuel => trivial

end Behaves

end Action

end CommandVM
