import CommandVM.Machine.Variables

/-!
# Accesses to variables

An access works on the current scope: the scopes of the callers stay as they are, whatever the
observers do. Its faults are about variables and values, never about compiled code.
-/

namespace CommandVM

/-- The fault is not about the code or the tables of a unit. -/
def Fault.Ordinary (f : Fault) : Prop := ∀ e, f ≠ .malformed e

namespace Store

variable {fire : Fire} {var : Nat} {index : Option String} {access : Access} {s : Store}

/-- An access that leaves the scopes of the callers alone and has ordinary faults. -/
def Local (access : Store → Except Fault Value × Store) : Prop :=
  ∀ s, (access s).2.callers = s.callers ∧ ∀ f, (access s).1 = .error f → f.Ordinary

/-- Observers that leave the scopes of the callers alone. -/
def FiresLocally (fire : Fire) : Prop := ∀ var event s, (fire var event s).2.callers = s.callers

theorem accessFault_ordinary {action : VariableAction} {v : Variable} {reason : String} :
    (accessFault action v index reason).Ordinary := by
  intro e same
  cases same

theorem incremented_ordinary {v : Value} {amount : Int64} {f : Fault}
    (failed : incremented v amount = .error f) : f.Ordinary := by
  intro e same
  unfold incremented at failed
  split at failed <;> cases failed
  cases same

theorem settle_local (fires : FiresLocally fire) {v : Variable} {written : Value} :
    Local (settle fire var v index written) := by
  intro s
  unfold settle
  have kept := fires var { kind := .write, name := v.name, index } s
  split
  · rename_i reason t fired
    rw [fired] at kept
    refine ⟨kept, ?_⟩
    rintro f ⟨⟩
    exact accessFault_ordinary
  · rename_i t fired
    rw [fired] at kept
    exact ⟨kept, fun f failed => nomatch failed⟩

theorem readObserved_local {v : Variable} : Local (readObserved v index) := by
  intro s
  unfold readObserved
  split
  · refine ⟨rfl, ?_⟩
    rintro f ⟨⟩
    exact accessFault_ordinary
  · exact ⟨rfl, fun f failed => nomatch failed⟩

theorem writeObserved_local (fires : FiresLocally fire) {v : Variable} {value : Value}
    {mode : WriteMode} : Local (writeObserved fire var v index value mode) := by
  intro s
  unfold writeObserved
  split
  · refine ⟨rfl, ?_⟩
    rintro f ⟨⟩
    exact accessFault_ordinary
  · rename_i written new _
    exact settle_local fires (s.update var fun _ => new)

theorem incrementObserved_local (fires : FiresLocally fire) {v : Variable} {amount : Int64} :
    Local (incrementObserved fire var v index amount) := by
  intro s
  unfold incrementObserved
  split
  · refine ⟨rfl, ?_⟩
    rintro f ⟨⟩
    exact accessFault_ordinary
  · split
    · rename_i failed
      refine ⟨rfl, ?_⟩
      rintro f ⟨⟩
      exact incremented_ordinary failed
    · exact settle_local fires _

/-- What follows once the observers of a read have run. -/
theorem observed_local (fires : FiresLocally fire) {v : Variable} {event : Event}
    {goOn : Variable → Store → Except Fault Value × Store} (inner : ∀ v, Local (goOn v)) :
    Local fun s => match fire var event s with
      | (.error reason, s) => (.error (accessFault .read v index reason), s)
      | (.ok (), s) => match s.var? var with
        | some v => goOn v s
        | none => (.error (accessFault .read v index "no such variable"), s) := by
  intro s
  have kept := fires var event s
  dsimp only
  split
  · rename_i fired
    rw [fired] at kept
    refine ⟨kept, ?_⟩
    rintro f ⟨⟩
    exact accessFault_ordinary
  · rename_i t fired
    rw [fired] at kept
    split
    · exact ⟨(inner _ t).1.trans kept, (inner _ t).2⟩
    · refine ⟨kept, ?_⟩
      rintro f ⟨⟩
      exact accessFault_ordinary

theorem accessObserved_local (fires : FiresLocally fire) :
    Local (accessObserved fire var index access) := by
  intro s
  unfold accessObserved
  split
  · refine ⟨rfl, ?_⟩
    rintro f ⟨⟩ e same
    cases same
  · cases access with
    | read => exact observed_local fires (fun v => readObserved_local) s
    | write value mode => exact writeObserved_local fires s
    | increment amount => exact observed_local fires (fun v => incrementObserved_local fires) s

theorem accessWith_local (fires : FiresLocally fire) :
    Local (accessWith fire var index access) := by
  intro s
  unfold accessWith
  split
  · exact ⟨rfl, fun f failed => nomatch failed⟩
  · exact accessObserved_local fires s

theorem accessPartsWith_local (fires : FiresLocally fire) {name : String} :
    Local (accessPartsWith fire name index access) := by
  intro s
  exact accessWith_local fires (s.resolve name).2

theorem accessNamedWith_local (fires : FiresLocally fire) {full : String} :
    Local (accessNamedWith fire full access) :=
  accessPartsWith_local fires

/-! ### Observers -/

theorem accessNamedWith_callers (fires : FiresLocally fire) (full : String) (access : Access) :
    (accessNamedWith fire full access s).2.callers = s.callers :=
  (accessNamedWith_local fires s).1

theorem react_callers (fires : FiresLocally fire) (event : Event) (reaction : Reaction) :
    (react fire event reaction s).2.callers = s.callers := by
  unfold react
  cases reaction with
  | note tag => rfl
  | deny message => rfl
  | read target =>
    have kept := accessNamedWith_callers (s := s) fires target .read
    dsimp only
    split <;> rename_i accessed <;> rw [accessed] at kept <;> exact kept
  | write target value mode =>
    have kept := accessNamedWith_callers (s := s) fires target (.write value mode)
    dsimp only
    split <;> rename_i accessed <;> rw [accessed] at kept <;> exact kept
  | increment target amount =>
    have kept := accessNamedWith_callers (s := s) fires target (.increment amount)
    dsimp only
    split <;> rename_i accessed <;> rw [accessed] at kept <;> exact kept

theorem reactAll_callers (fires : FiresLocally fire) (event : Event) (reactions : List Reaction) :
    (reactAll fire event reactions s).2.callers = s.callers := by
  induction reactions generalizing s with
  | nil => rfl
  | cons reaction reactions ih =>
    unfold reactAll
    have kept := react_callers (s := s) fires event reaction
    split
    · rename_i t reacted
      rw [reacted] at kept
      exact ih.trans kept
    · exact kept

theorem fireTo_local (depth : Nat) : FiresLocally (fireTo depth) := by
  induction depth with
  | zero => exact fun var event s => rfl
  | succ depth ih =>
    intro var event s
    unfold fireTo
    split
    · rfl
    · split
      · rfl
      · exact reactAll_callers ih event _

theorem access_local : Local (Store.access var index access) := by
  intro s
  exact accessWith_local (fireTo_local _) s

theorem accessParts_local {name : String} : Local (accessParts name index access) := by
  intro s
  exact accessPartsWith_local (fireTo_local _) s

theorem accessNamed_local {full : String} : Local (accessNamed full access) := by
  intro s
  exact accessNamedWith_local (fireTo_local _) s

theorem resolveAll_callers {names : List String} : (resolveAll names s).2.callers = s.callers := by
  induction names generalizing s with
  | nil => rfl
  | cons name names ih => exact ih

theorem resolveAll_length {names : List String} : (resolveAll names s).1.length = names.length := by
  induction names generalizing s with
  | nil => rfl
  | cons name names ih => exact congrArg Nat.succ ih

end Store

end CommandVM
