import CommandVM.Proofs.Variables.Firings
import CommandVM.Proofs.Variables.Unobserved

/-!
# Observers do not run inside themselves

Step by step an access comes to the end that `performBy` tells of: the observers that are idle
become fewer with each firing inside another one, so that the depth to which firings are followed is
always enough. An access of a variable whose observers are running passes them by, and when the
outermost access has ended nothing is marked any more.
-/

namespace CommandVM

namespace Activity

variable {act : Behaviour} {a a' a'' : Activity} {fire : Store.Fire} {depth : Nat} {s : Store}
  {var : Nat} {v : Variable} {index : Option String} {pending : List Pending}

/-! ### Chains of steps -/

/-- After some steps the first activity goes on as the second one. -/
def Leads (act : Behaviour) (a a' : Activity) : Prop :=
  ∃ n, ∀ k, a.after act (n + k) = a'.after act k

theorem Leads.refl (a : Activity) : Leads act a a := ⟨0, fun k => by rw [Nat.zero_add]⟩

theorem Leads.trans (first : Leads act a a') (second : Leads act a' a'') : Leads act a a'' := by
  obtain ⟨n, first⟩ := first
  obtain ⟨n', second⟩ := second
  exact ⟨n + n', fun k => by rw [Nat.add_assoc, first, second]⟩

theorem Leads.step (stepped : a.next act = some a') : Leads act a a' :=
  ⟨1, fun k => by rw [Nat.add_comm, after, stepped]⟩

theorem after_of_ended (ended : a.next act = none) (k : Nat) : a.after act k = a := by
  cases k with
  | zero => rfl
  | succ k => rw [after, ended]

/-! ### Accesses come to their end -/

/-- Where few enough observers are idle, firings end as told. -/
def Follows (act : Behaviour) (fire : Store.Fire) (depth : Nat) : Prop :=
  ∀ var event pending s, s.idle ≤ depth → Leads act ⟨.fire var event, pending, s⟩
    ⟨.fired (fire var event s).1, pending, (fire var event s).2⟩

section Accesses

variable (follows : Follows act fire depth) (growing : Store.FiresGrowing fire)
include follows

theorem settle_leads (few : s.idle ≤ depth) (written : Value) :
    Leads act ⟨.fire var ⟨.write, v.name, index⟩, .settle var v index written :: pending, s⟩
      ⟨.accessed (Store.settle fire var v index written s).1, pending,
        (Store.settle fire var v index written s).2⟩ := by
  refine (follows var ⟨.write, v.name, index⟩ _ s few).trans (.step ?_)
  unfold Store.settle
  generalize fire var ⟨.write, v.name, index⟩ s = fired
  obtain ⟨outcome, s'⟩ := fired
  cases outcome <;> rfl

theorem read_leads (few : s.idle ≤ depth) (found : s.var? var = some v) :
    Leads act ⟨.fire var ⟨.read, v.name, index⟩, .fetch ⟨var, index, .read⟩ v :: pending, s⟩
      ⟨.accessed (Store.accessObserved fire var index .read s).1, pending,
        (Store.accessObserved fire var index .read s).2⟩ := by
  refine (follows var ⟨.read, v.name, index⟩ _ s few).trans (.step ?_)
  simp only [Store.accessObserved, found]
  generalize fire var ⟨.read, v.name, index⟩ s = fired
  obtain ⟨outcome, s'⟩ := fired
  cases outcome with
  | error reason => rfl
  | ok _ =>
    show some (fetched ⟨var, index, .read⟩ v pending s') = _
    cases there : s'.var? var with
    | none => simp only [fetched, there]
    | some v' =>
      have kept : (Store.readObserved v' index s').2 = s' := by
        unfold Store.readObserved
        split <;> rfl
      simp only [fetched, there, kept]

include growing

theorem increment_leads (few : s.idle ≤ depth) (found : s.var? var = some v) (amount : Int64) :
    Leads act
      ⟨.fire var ⟨.read, v.name, index⟩, .fetch ⟨var, index, .increment amount⟩ v :: pending, s⟩
      ⟨.accessed (Store.accessObserved fire var index (.increment amount) s).1, pending,
        (Store.accessObserved fire var index (.increment amount) s).2⟩ := by
  refine (follows var ⟨.read, v.name, index⟩ _ s few).trans ?_
  have few' := (growing var ⟨.read, v.name, index⟩ s).idle_le few
  simp only [Store.accessObserved, found]
  generalize fire var ⟨.read, v.name, index⟩ s = fired at few'
  obtain ⟨outcome, s'⟩ := fired
  cases outcome with
  | error reason => exact .step rfl
  | ok _ =>
    have stepped : next act ⟨.fired (.ok ()), .fetch ⟨var, index, .increment amount⟩ v :: pending,
        s'⟩ = some (fetched ⟨var, index, .increment amount⟩ v pending s') := rfl
    refine (Leads.step stepped).trans ?_
    cases there : s'.var? var with
    | none =>
      simp only [fetched, there]
      exact .refl _
    | some v' =>
      cases holds : v'.binding.read index with
      | error reason =>
        simp only [fetched, there, holds, Store.incrementObserved]
        exact .refl _
      | ok current =>
        cases sum : incremented current amount with
        | error e =>
          simp only [fetched, there, holds, sum, Store.incrementObserved]
          exact .refl _
        | ok n =>
          simp only [fetched, there, holds, sum, Store.incrementObserved]
          exact settle_leads follows ((Store.update_grows there rfl).idle_le few') _

theorem access_leads (few : s.idle ≤ depth) (t : Target) :
    Leads act ⟨.access t, pending, s⟩
      ⟨.accessed (Store.accessWith fire t.var t.index t.access s).1, pending,
        (Store.accessWith fire t.var t.index t.access s).2⟩ := by
  obtain ⟨var, index, asked⟩ := t
  have stepped : next act ⟨.access ⟨var, index, asked⟩, pending, s⟩ =
      some (access ⟨var, index, asked⟩ pending s) := rfl
  refine (Leads.step stepped).trans ?_
  cases found : s.var? var with
  | none =>
    simp only [access, Store.accessWith, Store.accessObserved, found, Option.bind_none]
    exact .refl _
  | some v =>
    cases direct : v.direct? index asked with
    | some pair =>
      simp only [access, Store.accessWith, found, Option.bind_some, direct]
      exact .refl _
    | none =>
      simp only [access, Store.accessWith, found, Option.bind_some, direct]
      cases asked with
      | read => exact read_leads follows few found
      | increment amount => exact increment_leads follows growing few found amount
      | write value mode =>
        simp only [Store.accessObserved, found, Store.writeObserved]
        have kept : (v.write index value mode).2.traits = v.traits :=
          Variable.traits_write value mode
        generalize v.write index value mode = wrote at kept
        obtain ⟨outcome, new⟩ := wrote
        cases outcome with
        | error reason => exact .refl _
        | ok written =>
          exact settle_leads follows ((Store.update_grows found kept).idle_le few) written

theorem callback_leads (few : s.idle ≤ depth) (c : Callback) :
    Leads act ⟨.callback c, pending, s⟩
      ⟨.callback (.finish (Store.runCallback fire c s).1), pending,
        (Store.runCallback fire c s).2⟩ := by
  induction c generalizing s with
  | finish outcome => exact .refl _
  | look next ih => exact (Leads.step rfl).trans (ih s few)
  | note line rest ih => exact (Leads.step rfl).trans (ih few)
  | access r next ih =>
    -- Neither the search for the variable nor the access changes how many are idle.
    have aimed : (r.target s).2.idle ≤ depth := (Store.target_grows r).idle_le few
    have served : (Store.serve fire r s).2.idle ≤ depth :=
      (Store.serve_grows growing r).idle_le few
    refine (Leads.step rfl).trans ((access_leads follows growing aimed (r.target s).1).trans ?_)
    exact (Leads.step rfl).trans (ih _ served)

theorem callbacks_leads (few : s.idle ≤ depth) (cs : List Callback) :
    Leads act ⟨.callback (.finish (.ok ())), .firing var cs :: pending, s⟩
      ⟨.fired (Store.runCallbacks fire cs s).1, pending,
        (Store.runCallbacks fire cs s).2.update var ({ · with firing := false })⟩ := by
  induction cs generalizing s with
  | nil => exact .step rfl
  | cons c cs ih =>
    have ran : (Store.runCallback fire c s).2.idle ≤ depth :=
      (Store.runCallback_grows growing c).idle_le few
    refine (Leads.step rfl).trans ((callback_leads follows growing few c).trans ?_)
    unfold Store.runCallbacks Store.andThen
    generalize Store.runCallback fire c s = ended at ran
    obtain ⟨outcome, s'⟩ := ended
    cases outcome with
    | ok _ => exact ih ran
    | error message => exact .step rfl

end Accesses

/-- There is nothing to fire: no variable, no observers, or observers that are running. -/
def Skips (s : Store) (var : Nat) : Prop :=
  ∀ v, s.var? var = some v → (v.observers.isEmpty || v.firing) = true

theorem Skips.next {event : Event} (skips : Skips s var) :
    next act ⟨.fire var event, pending, s⟩ = some ⟨.fired (.ok ()), pending, s⟩ := by
  show some (Activity.fire act var event pending s) = _
  cases found : s.var? var with
  | none => simp only [Activity.fire, found]
  | some v => simp only [Activity.fire, found, if_pos (skips v found)]

theorem Skips.fireBy {event : Event} (skips : Skips s var) :
    Store.fireBy act (depth + 1) var event s = (.ok (), s) := by
  cases found : s.var? var with
  | none => simp only [Store.fireBy, found]
  | some v => simp only [Store.fireBy, found, if_pos (skips v found)]

theorem skips_or_idle (s : Store) (var : Nat) :
    Skips s var ∨ ∃ v, s.var? var = some v ∧ v.observers ≠ [] ∧ v.firing = false := by
  cases found : s.var? var with
  | none =>
    refine .inl fun v found' => ?_
    rw [found] at found'
    cases found'
  | some v =>
    by_cases idle : (v.observers.isEmpty || v.firing) = true
    · refine .inl fun v' found' => ?_
      rw [found] at found'
      cases found'
      exact idle
    · simp only [Bool.or_eq_true, List.isEmpty_iff, not_or, Bool.not_eq_true] at idle
      exact .inr ⟨v, rfl, idle⟩

/-- Inside each firing fewer observers are idle, so that none are left out. -/
theorem fire_follows (act : Behaviour) (depth : Nat) :
    Follows act (Store.fireBy act depth) depth := by
  induction depth with
  | zero =>
    intro var event pending s few
    rcases skips_or_idle s var with skips | ⟨v, found, observed, idle⟩
    · exact .step skips.next
    · have counted := Store.idle_mark found observed idle
      omega
  | succ depth ih =>
    intro var event pending s few
    rcases skips_or_idle s var with skips | ⟨v, found, observed, idle⟩
    · rw [skips.fireBy]
      exact .step skips.next
    · -- The mark leaves one idle variable fewer, which is why the depth inside is enough.
      have counted := Store.idle_mark found observed idle
      have starts : ¬ (v.observers.isEmpty || v.firing) = true := by simp [observed, idle]
      have stepped : next act ⟨.fire var event, pending, s⟩ =
          some (Activity.fire act var event pending s) := rfl
      refine (Leads.step stepped).trans ?_
      simp only [Activity.fire, Store.fireBy, found, if_neg starts]
      exact callbacks_leads ih (Store.fireBy_grows act depth) (by omega) _

theorem start_leads (r : Request) (s : Store) : Leads act (start r s)
    ⟨.accessed (Store.performBy act r s).1, [], (Store.performBy act r s).2⟩ := by
  have few : (r.target s).2.idle ≤ s.observed := (Store.target_grows r).idle_le s.idle_le_observed
  exact access_leads (fire_follows act _) (Store.fireBy_grows act _) few (r.target s).1

/-! ### Accesses of variables whose observers are running -/

/-- The second activity follows from the first by steps that begin and end no firing. -/
inductive Quietly (act : Behaviour) : Activity → Activity → Prop where
  | refl {a : Activity} : Quietly act a a
  | step {a a' a'' : Activity} : a.next act = some a' → a'.firings = a.firings →
      Quietly act a' a'' → Quietly act a a''

section Running

variable {now : Variable} (found : s.var? var = some now) (firing : now.firing = true)
include found firing

theorem skips_of_firing : Skips s var := by
  intro v found'
  rw [found] at found'
  cases found'
  rw [firing, Bool.or_true]

theorem settle_quietly {written : Value} (holds : now.binding.read index = .ok written) :
    Quietly act ⟨.fire var ⟨.write, v.name, index⟩, .settle var v index written :: pending, s⟩
      ⟨.accessed (.ok written), pending, s⟩ := by
  have value :
      Store.settle (fun _ _ s => (.ok (), s)) var v index written s = (.ok written, s) := by
    simp only [Store.settle, found, holds]
    rfl
  have ended : next act ⟨.fired (.ok ()), .settle var v index written :: pending, s⟩ =
      some ⟨.accessed (.ok written), pending, s⟩ := by
    show some (Activity.mk (.accessed (Store.settle _ var v index written s).1) pending s) = _
    rw [value]
  exact .step (skips_of_firing found firing).next rfl (.step ended rfl .refl)

theorem read_quietly :
    Quietly act ⟨.fire var ⟨.read, now.name, index⟩, .fetch ⟨var, index, .read⟩ now :: pending, s⟩
      ⟨.accessed (now.alone index .read).1, pending,
        s.update var fun _ => (now.alone index .read).2⟩ := by
  have ended : next act ⟨.fired (.ok ()), .fetch ⟨var, index, .read⟩ now :: pending, s⟩ =
      some ⟨.accessed (now.alone index .read).1, pending,
        s.update var fun _ => (now.alone index .read).2⟩ := by
    show some (fetched ⟨var, index, .read⟩ now pending s) = _
    simp only [fetched, found, Store.readObserved, Variable.alone]
    cases now.binding.read index <;> simp only [Store.update_self found]
  exact .step (skips_of_firing found firing).next rfl (.step ended rfl .refl)

theorem increment_quietly (amount : Int64) :
    Quietly act
      ⟨.fire var ⟨.read, now.name, index⟩,
        .fetch ⟨var, index, .increment amount⟩ now :: pending, s⟩
      ⟨.accessed (now.alone index (.increment amount)).1, pending,
        s.update var fun _ => (now.alone index (.increment amount)).2⟩ := by
  have told : next act
      ⟨.fired (.ok ()), .fetch ⟨var, index, .increment amount⟩ now :: pending, s⟩ =
        some (fetched ⟨var, index, .increment amount⟩ now pending s) := rfl
  refine .step (skips_of_firing found firing).next rfl (.step told (fetched_grows _ _ _ _).2 ?_)
  cases holds : now.binding.read index with
  | error reason =>
    simp only [fetched, found, Variable.alone, holds, Store.update_self found]
    exact .refl
  | ok current =>
    cases sum : incremented current amount with
    | error e =>
      simp only [fetched, found, Variable.alone, holds, sum, Store.update_self found]
      exact .refl
    | ok n =>
      have same : (s.update var fun v => { v with binding := v.binding.set index (.ofNumber n) }) =
          s.update var fun _ => { now with binding := now.binding.set index (.ofNumber n) } :=
        Store.update_congr_at found rfl
      simp only [fetched, found, Variable.alone, holds, sum, same]
      exact settle_quietly (Store.var?_update found rfl) firing (Binding.read_set holds)

end Running

/-- The access ends as if the variable had no observers. -/
theorem access_quietly {t : Target} (found : s.var? t.var = some v) (firing : v.firing = true) :
    Quietly act ⟨.access t, pending, s⟩
      ⟨.accessed (v.alone t.index t.access).1, pending,
        s.update t.var fun _ => (v.alone t.index t.access).2⟩ := by
  obtain ⟨var, index, asked⟩ := t
  have stepped : next act ⟨.access ⟨var, index, asked⟩, pending, s⟩ =
      some (access ⟨var, index, asked⟩ pending s) := rfl
  refine .step stepped (access_grows _ _ _).2 ?_
  cases direct : v.direct? index asked with
  | some pair =>
    obtain ⟨x, new⟩ := pair
    simp only [access, found, direct, Variable.alone_of_direct direct]
    exact .refl
  | none =>
    simp only [access, found, direct]
    cases asked with
    | read => exact read_quietly found firing
    | increment amount => exact increment_quietly found firing amount
    | write value mode =>
      cases wrote : v.write index value mode with
      | mk outcome new =>
        cases outcome with
        | error reason =>
          simp only [Variable.alone, wrote]
          exact .refl
        | ok written =>
          obtain ⟨holds, name, _, same⟩ := Variable.write_ok wrote
          simp only [Variable.alone, wrote]
          exact settle_quietly (Store.var?_update found name) (same.trans firing) holds

end Activity

/-- At every step of an access the marks tell which observers are running, none of them twice, and
an access of their variables passes them by. The access ends, and leaves no mark in any scope. -/
theorem observers_never_reenter {act : Behaviour} {s : Store} (reachable : s.Reachable act)
    (r : Request) :
    (∀ k, let a := (Activity.start r s).after act k
      (∀ w, w ∈ a.firings ↔ ∃ v, a.store.var? w = some v ∧ v.firing = true) ∧
      (∀ scope ∈ a.store.callers, ∀ v ∈ scope.vars, v.firing = false) ∧
      a.firings.Nodup ∧ a.firings.length ≤ s.observed ∧
      ∀ t v, a.task = .access t → t.var ∈ a.firings → a.store.var? t.var = some v →
        Activity.Quietly act a
          ⟨.accessed (v.alone t.index t.access).1, a.pending,
            a.store.update t.var fun _ => (v.alone t.index t.access).2⟩) ∧
      (∃ n, ∀ k, n ≤ k → (Activity.start r s).after act k =
        ⟨.accessed (Store.performBy act r s).1, [], (Store.performBy act r s).2⟩) ∧
      (∀ scope ∈ (Store.performBy act r s).2.current :: (Store.performBy act r s).2.callers,
        ∀ v ∈ scope.vars, v.firing = false) ∧
      (act = scripted → Store.performBy act r s = r.perform s) := by
  refine ⟨fun k => ?_, ?_, ?_, ?_⟩
  · have sound : ((Activity.start r s).after act k).Sound s.observed :=
      (Activity.sound_start reachable r).after k
    generalize (Activity.start r s).after act k = a at sound
    have counted := sound.count
    refine ⟨sound.marked, sound.outer, sound.once, by omega, fun t v accesses member found => ?_⟩
    obtain ⟨v', found', firing⟩ := (sound.marked t.var).mp member
    rw [found] at found'
    cases found'
    obtain ⟨task, pending, store⟩ := a
    cases accesses
    exact Activity.access_quietly found firing
  · have leads : Activity.Leads act (Activity.start r s)
        ⟨.accessed (Store.performBy act r s).1, [], (Store.performBy act r s).2⟩ :=
      Activity.start_leads r s
    obtain ⟨n, leads⟩ := leads
    refine ⟨n, fun k late => ?_⟩
    obtain ⟨j, rfl⟩ := Nat.exists_eq_add_of_le late
    rw [leads, Activity.after_of_ended rfl]
  · intro scope member
    exact (reachable.request r).orderly scope member
  · rintro rfl
    exact Store.performBy_scripted r

/-- The observers of each of two variables write to the other one, and one of them fails. -/
def mutualObservers : Store :=
  Store.observe "y" ⟨false, true, [.write "x" (.int 2) .set, .deny "no"]⟩
    (Store.observe "x" ⟨false, true, [.write "y" (.int 1) .set]⟩ {})

theorem mutualObservers_never_reenter : mutualObservers.Reachable scripted ∧
    let r := Request.named "x" (.write (.int 0) .set)
    let a := (Activity.start r mutualObservers).after scripted 8
    a.firings = [1, 0] ∧
      (∃ v t, a.task = .access t ∧ t.var = 0 ∧ a.store.var? 0 = some v ∧ v.firing = true ∧
        Activity.Quietly scripted a ⟨.accessed (v.alone t.index t.access).1, a.pending,
          a.store.update 0 fun _ => (v.alone t.index t.access).2⟩) ∧
      ∃ f s', r.perform mutualObservers = (.error f, s') ∧
        (∃ n, ∀ k, n ≤ k → (Activity.start r mutualObservers).after scripted k =
          ⟨.accessed (.error f), [], s'⟩) ∧
        ∀ scope ∈ s'.current :: s'.callers, ∀ v ∈ scope.vars, v.firing = false := by
  have reachable : mutualObservers.Reachable scripted := .observe _ _ (.observe _ _ .empty)
  obtain ⟨steps, ends, clear, same⟩ :=
    observers_never_reenter reachable (.named "x" (.write (.int 0) .set))
  obtain ⟨_, _, _, _, quiet⟩ := steps 8
  rw [same rfl] at ends clear
  refine ⟨reachable, rfl, ?_, _, _, rfl, ends, clear⟩
  exact ⟨_, _, rfl, rfl, rfl, rfl, quiet _ _ rfl (List.mem_cons_of_mem _ List.mem_cons_self) rfl⟩

end CommandVM
