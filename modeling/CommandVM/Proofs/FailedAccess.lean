import CommandVM.Proofs.ProcedureIsolation
import CommandVM.Proofs.Variables.Growth
import CommandVM.Proofs.Variables.Unobserved

/-!
# Accesses that fail

Where nobody observes, an access that fails may leave one trace: a variable that was asked for by a
new name is there, undefined. No read can tell it from a variable that is not there.
-/

namespace CommandVM

namespace Store

/-- No variable of any scope has observers. -/
def Unobserved (s : Store) : Prop := ∀ scope ∈ s.scopes, ∀ v ∈ scope.vars, v.observers = []

/-- What a read of a variable that is there gives, by its place in the scope that is `depth` calls
out. -/
def readSlotAt (s : Store) (depth var : Nat) (index : Option String) :
    Option (Except Fault Value) :=
  s.scopes[depth]?.bind fun scope =>
    scope.vars[var]?.map fun _ => (Store.access var index .read { current := scope }).1

variable {s s' : Store} {name : String} {index : Option String} {var : Nat} {v : Variable}

theorem access_read_alone (found : s.var? var = some v) (unobserved : v.observers = []) :
    (Store.access var index .read s).1 = (v.alone index .read).1 := by
  rw [Store.access, accessWith_alone (fireTo_skips _) found unobserved]

/-- A read by name is one of the variable that has the name, or of an undefined one. -/
theorem accessParts_read_alone (unobserved : ∀ v ∈ s.current.vars, v.observers = []) :
    (Store.accessParts name index .read s).1 =
      (((s.current.vars.find? (·.name == name)).getD { name }).alone index .read).1 := by
  show (accessWith (fireTo s.observed) (s.resolve name).1 index .read (s.resolve name).2).1 = _
  cases looked : s.current.byName.lookup name with
  | some i =>
    obtain ⟨v, there, named⟩ := Scope.lookup_eq_some_iff.mp looked
    have found : s.current.vars.find? (·.name == name) = some v := Scope.find?_eq_some there named
    rw [resolve_of_some looked,
      accessWith_alone (fireTo_skips _) there (unobserved v (List.mem_of_getElem? there)), found]
    rfl
  | none =>
    have absent : s.current.vars.find? (·.name == name) = none := by
      rw [List.find?_eq_none]
      intro v member
      obtain ⟨i, there⟩ := List.getElem?_of_mem member
      simpa using Scope.lookup_eq_none_iff.mp looked i v there
    have there : (s.resolve name).2.var? s.current.vars.length = some { name } := by
      rw [resolve_of_none looked]
      exact List.getElem?_concat_length
    rw [resolve_of_none looked] at there ⊢
    rw [accessWith_alone (fireTo_skips _) there rfl, absent]
    rfl

/-- An undefined variable more does not change the variable that a name stands for. -/
theorem find?_append_undefined (vars : List Variable) (other : String) :
    ((vars ++ [({ name := other } : Variable)]).find? (·.name == name)).getD { name } =
      (vars.find? (·.name == name)).getD { name } := by
  rw [List.find?_append]
  cases vars.find? (·.name == name) with
  | some v => rfl
  | none =>
    by_cases same : other = name
    · subst same
      simp
    · simp [same]

/-- The store after a failure is that in which the variable was looked for. -/
theorem store_of_failed (unobserved : s.Unobserved) (r : Request) {f : Fault}
    (failed : r.perform s = (.error f, s')) : s' = (r.target s).2 := by
  rw [← performBy_scripted, performBy, fireBy_scripted, serve] at failed
  have grown : s.Grows (r.target s).2 := target_grows r
  generalize r.target s = aimed at failed grown ⊢
  obtain ⟨⟨var, index, access⟩, t⟩ := aimed
  dsimp only at failed grown ⊢
  cases found : t.var? var with
  | none =>
    rw [accessWith, found] at failed
    simp only [Option.bind_none, accessObserved, found] at failed
    exact (Prod.mk.inj failed).2.symm
  | some v =>
    have plain : v.observers = [] := by
      cases before : s.var? var with
      | none => exact (grown.added before found).1
      | some w =>
        obtain ⟨v', found', same⟩ := grown.kept before
        rw [found] at found'
        cases found'
        have none := unobserved s.current List.mem_cons_self w (List.mem_of_getElem? before)
        exact (congrArg Traits.observers same).trans none
    rw [accessWith_alone (fireTo_skips _) found plain] at failed
    obtain ⟨outcome, same⟩ := Prod.mk.inj failed
    have kept : (v.alone index access).2 = v := Variable.alone_failed (Prod.ext outcome rfl)
    rw [← same, kept, update_self found]

/-- The search for a variable leaves the scopes as they are, or adds an undefined variable to the
current one. -/
theorem target_scopes (s : Store) (r : Request) : (r.target s).2.scopes = s.scopes ∨
    ∃ other fresh, (r.target s).2.scopes = s.current.add other fresh :: s.callers := by
  have resolved (name : String) : (s.resolve name).2.scopes = s.scopes ∨
      ∃ other fresh, (s.resolve name).2.scopes = s.current.add other fresh :: s.callers := by
    rcases resolve_cases s name with ⟨_, _, same, _⟩ | ⟨fresh, same⟩
    · rw [same]
      exact .inl rfl
    · rw [same]
      exact .inr ⟨name, fresh, rfl⟩
  cases r with
  | slot var index access => exact .inl rfl
  | parts name index access => exact resolved name
  | named full access => exact resolved _

/-- No read sees an undefined variable more. -/
theorem reads_append_undefined {other : String} {fresh : s.current.byName.lookup other = none}
    (unobserved : s.Unobserved) (scopes : s'.scopes = s.current.add other fresh :: s.callers)
    (depth : Nat) (index : Option String) :
    (∀ name, s'.readAt depth name index = s.readAt depth name index) ∧
      ∀ var result, s.readSlotAt depth var index = some result →
        s'.readSlotAt depth var index = some result := by
  cases depth with
  | succ depth =>
    constructor
    · intro name
      rw [readAt, readAt, scopes]
      rfl
    · intro var result read
      rw [readSlotAt, scopes]
      exact read
  | zero =>
    let old : Store := { current := s.current }
    let new : Store := { current := s.current.add other fresh }
    have before : ∀ v ∈ old.current.vars, v.observers = [] :=
      unobserved s.current List.mem_cons_self
    have after : ∀ v ∈ new.current.vars, v.observers = [] := by
      intro v member
      rcases List.mem_append.mp member with kept | added
      · exact before v kept
      · rw [List.mem_singleton.mp added]
    constructor
    · intro name
      have here : s.readAt 0 name index = some (old.accessParts name index .read).1 := rfl
      have there : s'.readAt 0 name index = some (new.accessParts name index .read).1 := by
        rw [readAt, scopes]
        rfl
      rw [here, there, accessParts_read_alone after, accessParts_read_alone before]
      exact congrArg (fun v : Variable => some (v.alone index .read).1)
        (find?_append_undefined s.current.vars other)
    · intro var result read
      have here : s.readSlotAt 0 var index =
          (old.var? var).map fun _ => (old.access var index .read).1 := rfl
      have there : s'.readSlotAt 0 var index =
          (new.var? var).map fun _ => (new.access var index .read).1 := by
        rw [readSlotAt, scopes]
        rfl
      rw [here] at read
      obtain ⟨v, found, given⟩ := Option.map_eq_some_iff.mp read
      have kept : new.var? var = some v :=
        (List.getElem?_append_left (List.getElem?_eq_some_iff.mp found).1).trans found
      have plain := before v (List.mem_of_getElem? found)
      rw [there, kept, Option.map_some, access_read_alone kept plain, ← given,
        access_read_alone found plain]

end Store

/-- An access that fails where nobody observes changes nothing that can be read: by name or by
place, in every scope, every scalar and every element is as it was, or is still missing for the same
reason. -/
theorem failed_accesses_unseen {s s' : Store} (unobserved : s.Unobserved) (r : Request) {f : Fault}
    (failed : r.perform s = (.error f, s')) (depth : Nat) (index : Option String) :
    (∀ name, s'.readAt depth name index = s.readAt depth name index) ∧
      ∀ var result, s.readSlotAt depth var index = some result →
        s'.readSlotAt depth var index = some result := by
  have same := congrArg Store.scopes (Store.store_of_failed unobserved r failed)
  rcases Store.target_scopes s r with unchanged | ⟨other, fresh, added⟩
  · have scopes : s'.scopes = s.scopes := same.trans unchanged
    refine ⟨fun name => Store.readAt_congr scopes depth name index, ?_⟩
    intro var result read
    rw [Store.readSlotAt, scopes]
    exact read
  · exact Store.reads_append_undefined unobserved (same.trans added) depth index

/-- The fault with which an access ended, if it failed. -/
def Store.fault? : Except Fault Value × Store → Option Fault
  | (.error f, _) => some f
  | _ => none

theorem Store.failed_of_fault? {ended : Except Fault Value × Store} {f : Fault}
    (faulty : Store.fault? ended = some f) : ∃ s', ended = (.error f, s') := by
  obtain ⟨outcome, s'⟩ := ended
  cases outcome <;> cases faulty
  exact ⟨s', rfl⟩

/-- A store in which the element `a(k)` is no list. -/
def unlistedElement : Store where
  current := .ofVars [{ name := "x", binding := .scalar (.int 1) },
    { name := "a", binding := .array [("k", .text "\x7bb")] }] (by decide)
  callers := [.ofVars [{ name := "x", binding := .scalar (.int 7) }] (by decide)]

theorem unlistedElement_unseen : unlistedElement.Unobserved ∧
    ∃ f s', (Request.named "a(k)" (.write (.text "c") .listAppend)).perform unlistedElement =
        (.error f, s') ∧
      f.message = "can't set \"a(k)\": unmatched open brace in list" ∧
      unlistedElement.readAt 1 "x" none = some (.ok (.int 7)) ∧
      ∀ depth index, (∀ name, s'.readAt depth name index =
          unlistedElement.readAt depth name index) ∧
        ∀ var result, unlistedElement.readSlotAt depth var index = some result →
          s'.readSlotAt depth var index = some result := by
  have unobserved : unlistedElement.Unobserved := by
    simp [Store.Unobserved, Store.scopes, unlistedElement, Scope.ofVars]
  have told : (Store.fault? ((Request.named "a(k)" (.write (.text "c") .listAppend)).perform
      unlistedElement)).map Fault.message =
        some "can't set \"a(k)\": unmatched open brace in list" := by decide +kernel
  obtain ⟨f, faulty, message⟩ := Option.map_eq_some_iff.mp told
  obtain ⟨s', failed⟩ := Store.failed_of_fault? faulty
  exact ⟨unobserved, f, s', failed, message, rfl,
    fun depth index => failed_accesses_unseen unobserved _ failed depth index⟩

end CommandVM
