import CommandVM.Proofs.Machine.PlainVariables

/-!
# Accesses of one variable

Without observers an access concerns one variable alone: what it gives and what it leaves follow
from the variable, and the direct way comes to the same as the way around the observers. An access
that fails leaves the variable as it was, since only a place that was there can refuse a value.
-/

namespace CommandVM

theorem lookup_setElement (elements : List (String × Value)) (key : String) (x : Value) :
    (setElement elements key x).lookup key = some x := by
  induction elements with
  | nil => simp [setElement]
  | cons pair rest ih =>
    obtain ⟨k, w⟩ := pair
    by_cases same : k = key
    · subst same
      simp [setElement]
    · have differs : (key == k) = false := by simp [Ne.symm same]
      simp [setElement, same, List.lookup_cons, differs, ih]

namespace Binding

variable {b made : Binding} {index : Option String} {x y : Value}

/-- A place was there with its value, or it was made with the empty text in it. -/
theorem place_cases (placed : b.place index = .ok (x, made)) :
    made.read index = .ok x ∧ (made = b ∨ x = Value.empty) := by
  unfold place at placed
  split at placed
  · cases placed
    exact ⟨rfl, .inr rfl⟩
  · cases placed
    simp [read]
  · cases placed
    exact ⟨rfl, .inl rfl⟩
  · cases placed
  · cases placed
  · split at placed
    · rename_i found
      cases placed
      simp [read, found]
    · cases placed
      simp [read, lookup_setElement]

/-- Where there is a value, another one can be set in its place. -/
theorem read_set (holds : b.read index = .ok x) : (b.set index y).read index = .ok y := by
  cases b with
  | undefined => cases holds
  | scalar v =>
    cases index with
    | none => rfl
    | some key => cases holds
  | array elements =>
    cases index with
    | none => cases holds
    | some key => simp [set, read, lookup_setElement]

end Binding

/-- One more element can be joined to the empty text. -/
theorem WriteMode.combine_empty (mode : WriteMode) (x : Value) :
    ∃ y, mode.combine Value.empty x = .ok y := by
  cases mode with
  | set => exact ⟨x, rfl⟩
  | append => exact ⟨_, rfl⟩
  | listAppend =>
    have nothing : ListText.split "" = .ok [] := by
      simp [ListText.split, ListText.splitChars, Except.map]
    refine ⟨.list [x], ?_⟩
    simp only [combine, Value.push, Value.items, Value.empty, Value.str, nothing]
    rfl

namespace Variable

variable {v new : Variable} {index : Option String} {value written : Value} {mode : WriteMode}

/-- What a write left is what the variable now holds. -/
theorem write_ok (wrote : v.write index value mode = (.ok written, new)) :
    new.binding.read index = .ok written ∧ new.name = v.name ∧ new.observers = v.observers ∧
      new.firing = v.firing := by
  unfold write at wrote
  split at wrote
  · cases wrote
  · rename_i old made placed
    split at wrote
    · cases wrote
    · cases wrote
      exact ⟨Binding.read_set (Binding.place_cases placed).1, rfl, rfl, rfl⟩

/-- A place that is made for a write takes any value, so a write that fails has made none. -/
theorem write_failed {reason : String}
    (failed : v.write index value mode = (.error reason, new)) : new = v := by
  unfold write at failed
  split at failed
  · cases failed
    rfl
  · rename_i old made placed
    split at failed
    · rename_i refused
      cases failed
      rcases (Binding.place_cases placed).2 with same | empty
      · rw [same]
      · obtain ⟨y, joined⟩ := mode.combine_empty value
        rw [empty, joined] at refused
        cases refused
    · cases failed

/-- The access of a variable whose observers are left out. -/
def alone (v : Variable) (index : Option String) : Access → Except Fault Value × Variable
  | .read => match v.binding.read index with
    | .ok x => (.ok x, v)
    | .error reason => (.error (Store.accessFault .read v index reason), v)
  | .write value mode => match v.write index value mode with
    | (.ok written, new) => (.ok written, new)
    | (.error reason, new) => (.error (Store.accessFault .set v index reason), new)
  | .increment amount => match v.binding.read index with
    | .error reason => (.error (Store.accessFault .read v index reason), v)
    | .ok current => match incremented current amount with
      | .error e => (.error e, v)
      | .ok n => (.ok (.ofNumber n), { v with binding := v.binding.set index (.ofNumber n) })

theorem alone_failed {access : Access} {f : Fault}
    (failed : v.alone index access = (.error f, new)) : new = v := by
  cases access with
  | read =>
    unfold alone at failed
    dsimp only at failed
    split at failed <;> cases failed
    rfl
  | write value mode =>
    unfold alone at failed
    dsimp only at failed
    split at failed
    · cases failed
    · rename_i refused
      cases failed
      exact write_failed refused
  | increment amount =>
    unfold alone at failed
    dsimp only at failed
    split at failed
    · cases failed
      rfl
    · split at failed <;> cases failed
      rfl

/-- The direct way is the access of the variable alone. -/
theorem alone_of_direct {access : Access} {x : Value}
    (direct : v.direct? index access = some (x, new)) : v.alone index access = (.ok x, new) := by
  unfold direct? at direct
  split at direct
  · rename_i _ _ binding
    cases direct
    simp only [alone, binding, Binding.read]
  · rename_i _ _ binding
    cases direct
    simp only [alone, write, binding, Binding.place, WriteMode.combine, Binding.set]
  · cases direct

end Variable

namespace Store

variable {fire : Fire} {s : Store} {var : Nat} {v : Variable} {index : Option String}
  {access : Access}

/-- Where a variable has no observers, there is nothing to run. -/
def SkipsUnobserved (fire : Fire) : Prop :=
  ∀ {var event s v}, s.var? var = some v → v.observers = [] → fire var event s = (.ok (), s)

theorem settle_unobserved (skips : SkipsUnobserved fire) {now : Variable} {written : Value}
    (found : s.var? var = some now) (unobserved : now.observers = [])
    (holds : now.binding.read index = .ok written) :
    settle fire var v index written s = (.ok written, s) := by
  simp only [settle, skips found unobserved, found, holds]
  rfl

theorem writeObserved_alone (skips : SkipsUnobserved fire) (found : s.var? var = some v)
    (unobserved : v.observers = []) (value : Value) (mode : WriteMode) :
    writeObserved fire var v index value mode s = ((v.alone index (.write value mode)).1,
      s.update var fun _ => (v.alone index (.write value mode)).2) := by
  cases wrote : v.write index value mode with
  | mk outcome new =>
    cases outcome with
    | error reason => simp only [writeObserved, Variable.alone, wrote]
    | ok written =>
      obtain ⟨holds, name, observers, _⟩ := Variable.write_ok wrote
      simp only [writeObserved, Variable.alone, wrote]
      exact settle_unobserved skips (var?_update found name) (observers.trans unobserved) holds

theorem incrementObserved_alone (skips : SkipsUnobserved fire) (found : s.var? var = some v)
    (unobserved : v.observers = []) (amount : Int64) :
    incrementObserved fire var v index amount s = ((v.alone index (.increment amount)).1,
      s.update var fun _ => (v.alone index (.increment amount)).2) := by
  cases holds : v.binding.read index with
  | error reason => simp only [incrementObserved, Variable.alone, holds, update_self found]
  | ok current =>
    cases sum : incremented current amount with
    | error e => simp only [incrementObserved, Variable.alone, holds, sum, update_self found]
    | ok n =>
      have same : (s.update var fun v => { v with binding := v.binding.set index (.ofNumber n) }) =
          s.update var fun _ => { v with binding := v.binding.set index (.ofNumber n) } :=
        update_congr_at found rfl
      simp only [incrementObserved, Variable.alone, holds, sum, same]
      exact settle_unobserved skips (var?_update found rfl) unobserved (Binding.read_set holds)

/-- The way around the observers, where there are none. -/
theorem accessObserved_alone (skips : SkipsUnobserved fire) (found : s.var? var = some v)
    (unobserved : v.observers = []) :
    accessObserved fire var index access s =
      ((v.alone index access).1, s.update var fun _ => (v.alone index access).2) := by
  cases access with
  | read =>
    simp only [accessObserved, found, skips found unobserved, readObserved, Variable.alone]
    cases v.binding.read index <;> simp only [update_self found]
  | write value mode =>
    simp only [accessObserved, found]
    exact writeObserved_alone skips found unobserved value mode
  | increment amount =>
    simp only [accessObserved, found, skips found unobserved]
    exact incrementObserved_alone skips found unobserved amount

/-- Both ways to a variable without observers are the access of the variable alone. -/
theorem accessWith_alone (skips : SkipsUnobserved fire) (found : s.var? var = some v)
    (unobserved : v.observers = []) :
    accessWith fire var index access s =
      ((v.alone index access).1, s.update var fun _ => (v.alone index access).2) := by
  rw [accessWith, found, Option.bind_some]
  cases direct : v.direct? index access with
  | none => exact accessObserved_alone skips found unobserved
  | some pair =>
    obtain ⟨x, new⟩ := pair
    rw [Variable.alone_of_direct direct]

theorem fireTo_skips (depth : Nat) : SkipsUnobserved (fireTo depth) :=
  fun found unobserved => fireTo_of_unobserved found unobserved

end Store

end CommandVM
