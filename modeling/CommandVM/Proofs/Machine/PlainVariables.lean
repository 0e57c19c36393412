import CommandVM.Machine.Frame
import CommandVM.Proofs.Variables.Scopes

/-!
# Plain variables

A variable that is no array and that nobody observes is read and set without side effects: reading
it changes nothing, and setting it changes no other variable.
-/

namespace CommandVM

/-- The variable is no array, and nobody observes it. -/
structure Variable.Plain (v : Variable) : Prop where
  unobserved : v.observers = []
  no_array : ∀ elements, v.binding ≠ .array elements

/-- The value of a scalar. -/
def Binding.scalar? : Binding → Option Value
  | .scalar value => some value
  | _ => none

theorem Binding.eq_scalar {b : Binding} {x : Value} (holds : b.scalar? = some x) :
    b = .scalar x := by
  cases b with
  | scalar value => rw [Option.some.inj holds]
  | undefined => cases holds
  | array elements => cases holds

namespace Store

variable {s t : Store} {var other : Nat} {v : Variable} {x : Value}

theorem ext_var? (vars : ∀ i, s.var? i = t.var? i) (callers : s.callers = t.callers)
    (log : s.log = t.log) : s = t := by
  have current : s.current = t.current := Scope.eq_of_vars (List.ext_getElem? vars)
  obtain ⟨_, _, _⟩ := s
  cases current
  cases callers
  cases log
  rfl

/-- There is such a variable, and it is plain. -/
def PlainAt (s : Store) (var : Nat) : Prop := ∃ v, s.var? var = some v ∧ v.Plain

/-- The value of a scalar variable. -/
def scalar? (s : Store) (var : Nat) : Option Value := (s.var? var).bind fun v => v.binding.scalar?

/-- The store with a variable set to a scalar. -/
def setScalar (s : Store) (var : Nat) (x : Value) : Store :=
  s.update var fun v => { v with binding := .scalar x }

theorem var?_update_self (f : Variable → Variable) :
    (s.update var f).var? var = (s.var? var).map fun v => { f v with name := v.name } := by
  rw [var?, update, Scope.modify, List.getElem?_modify_eq]
  rfl

/-- A change that keeps the name is made as it is. -/
theorem var?_update {f : Variable → Variable} (found : s.var? var = some v)
    (kept : (f v).name = v.name) : (s.update var f).var? var = some (f v) := by
  rw [var?_update_self, found, Option.map_some, ← kept]

theorem var?_update_of_ne (f : Variable → Variable) (different : other ≠ var) :
    (s.update var f).var? other = s.var? other := by
  rw [var?, update, Scope.modify, List.getElem?_modify_ne _ _ different.symm]
  rfl

/-- Updates that agree on the variable that is there are the same. -/
theorem update_congr_at {f g : Variable → Variable} (found : s.var? var = some v)
    (same : f v = g v) : s.update var f = s.update var g := by
  refine ext_var? (fun i => ?_) rfl rfl
  by_cases here : i = var
  · subst here
    rw [var?_update_self, var?_update_self, found, Option.map_some, Option.map_some, same]
  · rw [var?_update_of_ne _ here, var?_update_of_ne _ here]

theorem update_self (found : s.var? var = some v) : (s.update var fun _ => v) = s := by
  refine ext_var? (fun i => ?_) rfl rfl
  by_cases here : i = var
  · subst here
    rw [var?_update found rfl, found]
  · rw [var?_update_of_ne _ here]

/-! ### What is there after a variable was set -/

theorem var?_setScalar_self (found : s.var? var = some v) :
    (s.setScalar var x).var? var = some { v with binding := .scalar x } := by
  rw [setScalar, var?_update_self, found, Option.map_some]

theorem scalar?_setScalar_self (plain : s.PlainAt var) :
    (s.setScalar var x).scalar? var = some x := by
  obtain ⟨v, found, -⟩ := plain
  rw [scalar?, var?_setScalar_self found]
  rfl

theorem scalar?_setScalar_of_ne (different : other ≠ var) :
    (s.setScalar var x).scalar? other = s.scalar? other := by
  rw [scalar?, setScalar, var?_update_of_ne _ different, scalar?]

theorem PlainAt.setScalar (plain : s.PlainAt other) : (s.setScalar var x).PlainAt other := by
  obtain ⟨v, found, plain⟩ := plain
  by_cases here : other = var
  · subst here
    exact ⟨_, var?_setScalar_self found, plain.unobserved, fun _ same => Binding.noConfusion same⟩
  · exact ⟨v, (var?_update_of_ne _ here).trans found, plain⟩

/-! ### Accesses -/

theorem access_read (plain : s.PlainAt var) (holds : s.scalar? var = some x) :
    s.access var none .read = (.ok x, s) := by
  obtain ⟨v, found, plain⟩ := plain
  rw [scalar?, found] at holds
  have direct : v.direct? none .read = some (x, v) := by
    simp only [Variable.direct?, plain.unobserved, Binding.eq_scalar holds]
  rw [access, accessWith, found, Option.bind_some, direct]
  exact congrArg (Prod.mk _) (update_self found)

/-- Observers that are not there are not run. -/
theorem fireTo_of_unobserved {depth : Nat} {event : Event} (found : s.var? var = some v)
    (unobserved : v.observers = []) : fireTo depth var event s = (.ok (), s) := by
  cases depth with
  | zero => rfl
  | succ depth => simp only [fireTo, found, unobserved, List.isEmpty_nil, Bool.true_or, if_true]

theorem access_set (plain : s.PlainAt var) :
    s.access var none (.write x .set) = (.ok x, s.setScalar var x) := by
  obtain ⟨v, found, plain⟩ := plain
  have updated : (s.update var fun _ => { v with binding := .scalar x }) = s.setScalar var x :=
    update_congr_at found rfl
  cases holds : v.binding with
  | scalar current =>
    have direct : v.direct? none (.write x .set) = some (x, { v with binding := .scalar x }) := by
      simp only [Variable.direct?, plain.unobserved, holds]
    rw [access, accessWith, found, Option.bind_some, direct]
    exact congrArg (Prod.mk _) updated
  | undefined =>
    have direct : v.direct? none (.write x .set) = none := by
      simp only [Variable.direct?, plain.unobserved, holds]
    have written : v.write none x .set = (.ok x, { v with binding := .scalar x }) := by
      simp only [Variable.write, holds, Binding.place, WriteMode.combine, Binding.set]
    have there := var?_setScalar_self (x := x) found
    rw [access, accessWith, found, Option.bind_some, direct, accessObserved, found]
    simp only [writeObserved, written, updated, settle,
      fireTo_of_unobserved there plain.unobserved, there]
    rfl
  | array elements => exact absurd holds (plain.no_array elements)

/-! ### Several assignments -/

/-- The store with variables set to scalars, in order. -/
def setScalars (s : Store) (assignments : List (Nat × Value)) : Store :=
  assignments.foldl (fun s a => s.setScalar a.1 a.2) s

theorem setScalars_append (first second : List (Nat × Value)) :
    s.setScalars (first ++ second) = (s.setScalars first).setScalars second :=
  List.foldl_append

theorem PlainAt.setScalars (plain : s.PlainAt other) (assignments : List (Nat × Value)) :
    (s.setScalars assignments).PlainAt other := by
  induction assignments generalizing s with
  | nil => exact plain
  | cons a rest ih => exact ih plain.setScalar

theorem scalar?_setScalars_of_notMem {assignments : List (Nat × Value)}
    (apart : other ∉ assignments.map Prod.fst) :
    (s.setScalars assignments).scalar? other = s.scalar? other := by
  induction assignments generalizing s with
  | nil => rfl
  | cons a rest ih =>
    rw [List.map_cons, List.mem_cons, not_or] at apart
    exact (ih apart.2).trans (scalar?_setScalar_of_ne apart.1)

/-- A variable that is set once holds its value in the end. -/
theorem scalar?_setScalars_of_mem {assignments : List (Nat × Value)}
    (distinct : (assignments.map Prod.fst).Nodup) (plain : s.PlainAt var)
    (member : (var, x) ∈ assignments) : (s.setScalars assignments).scalar? var = some x := by
  induction assignments generalizing s with
  | nil => cases member
  | cons a rest ih =>
    obtain ⟨fresh, distinct⟩ := List.nodup_cons.mp distinct
    rcases List.mem_cons.mp member with rfl | later
    · exact (scalar?_setScalars_of_notMem fresh).trans (scalar?_setScalar_self plain)
    · exact ih distinct plain.setScalar later

end Store

end CommandVM
