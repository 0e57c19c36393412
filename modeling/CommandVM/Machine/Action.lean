import CommandVM.Machine.State

/-!
# Actions

An action changes a machine and gives a value, or stops: with an exception, which ranges and callers
may handle, with a violation of the stack's bounds, or because its fuel ran out.
-/

namespace CommandVM

/-- Why an action gives no value. -/
inductive Stop where
  | exception (e : Exception)
  | violation (v : Violation)
  | outOfFuel

/-- A change of a machine that gives a value or stops. -/
def Action (α : Type) := Machine → Except Stop α × Machine

namespace Action

def pure {α : Type} (a : α) : Action α := fun m => (.ok a, m)

def bind {α β : Type} (action : Action α) (f : α → Action β) : Action β := fun m =>
  match action m with
  | (.ok a, m) => f a m
  | (.error stop, m) => (.error stop, m)

instance : Monad Action where
  pure := Action.pure
  bind := Action.bind

def stop {α : Type} (s : Stop) : Action α := fun m => (.error s, m)

def raise {α : Type} (e : Exception) : Action α := stop (.exception e)

def fault {α : Type} (f : Fault) : Action α := raise (.ofFault f)

def read {α : Type} (f : Machine → α) : Action α := fun m => (.ok (f m), m)

def modify (f : Machine → Machine) : Action Unit := fun m => (.ok (), f m)

def ofExcept {α : Type} : Except Fault α → Action α
  | .ok a => pure a
  | .error f => fault f

/-- The completion of an action; violations and the end of fuel still stop. -/
def attempt {α : Type} (action : Action α) : Action (Except Exception α) := fun m =>
  match action m with
  | (.ok a, m) => (.ok (.ok a), m)
  | (.error (.exception e), m) => (.ok (.error e), m)
  | (.error stop, m) => (.error stop, m)

def complete {α : Type} : Except Exception α → Action α
  | .ok a => pure a
  | .error e => raise e

/-! ### The stack -/

def inspect {α : Type} (f : Stack → Except Violation α) : Action α := fun m =>
  match f m.stack with
  | .ok a => (.ok a, m)
  | .error v => (.error (.violation v), m)

def reshape (f : Stack → Except Violation Stack) : Action Unit := fun m =>
  match f m.stack with
  | .ok stack => (.ok (), { m with stack })
  | .error v => (.error (.violation v), m)

def peekAt (n : Nat) : Action Value := inspect (·.peekAt n)

def peek : Action Value := peekAt 0

def peekText (n : Nat) : Action String := do
  let v ← peekAt n
  return v.str

def top (n : Nat) : Action (List Value) := inspect (·.top n)

def discard (n : Nat) : Action Unit := reshape (·.discard n)

def push (v : Value) : Action Unit := modify fun m => { m with stack := m.stack.push v }

/-! ### Variables -/

def onStore (f : Store → Except Fault Value × Store) : Action Value := fun m =>
  let (outcome, store) := f m.store
  match outcome with
  | .ok v => (.ok v, { m with store })
  | .error e => (.error (.exception (.ofFault e)), { m with store })

def access (var : Nat) (index : Option String) (access : Access) : Action Value :=
  onStore (Store.access var index access)

def accessParts (name : String) (index : Option String) (access : Access) : Action Value :=
  onStore (Store.accessParts name index access)

def accessNamed (full : String) (access : Access) : Action Value :=
  onStore (Store.accessNamed full access)

/-! ### Nesting -/

/-- Runs an action one level deeper, unless the nesting limit is reached. -/
def nested {α : Type} (action : Action α) : Action α := fun m =>
  if m.maxNesting ≤ m.nesting then fault .nestingLimit m
  else
    let (outcome, m) := action { m with nesting := m.nesting + 1 }
    (outcome, { m with nesting := m.nesting - 1 })

end Action

end CommandVM
