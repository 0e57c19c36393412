import CommandVM.Proofs.Machine.PlainVariables
import CommandVM.Proofs.Variables.Callbacks

/-!
# Scopes grow

An access changes what variables hold and may add variables with new names at the end of the current
scope. It changes nothing else: names and observers stay, and a mark that observers are running is
gone again when they have run.
-/

namespace CommandVM

/-- What an access leaves of a variable. -/
structure Traits where
  name : String
  observers : List Observer := []
  firing : Bool := false

namespace Variable

variable {v new : Variable} {index : Option String}

def traits (v : Variable) : Traits := ⟨v.name, v.observers, v.firing⟩

theorem traits_write (value : Value) (mode : WriteMode) :
    (v.write index value mode).2.traits = v.traits := by
  unfold write
  split
  · rfl
  · split <;> rfl

theorem traits_of_direct {access : Access} {x : Value}
    (direct : v.direct? index access = some (x, new)) : new.traits = v.traits := by
  unfold direct? at direct
  split at direct <;> cases direct <;> rfl

end Variable

namespace Store

/-- The second store has the variables of the first, as far as an access leaves them, and after them
unobserved ones. -/
structure Grows (s s' : Store) : Prop where
  callers : s'.callers = s.callers
  kept : ∀ ⦃i v⦄, s.var? i = some v → ∃ v', s'.var? i = some v' ∧ v'.traits = v.traits
  added : ∀ ⦃i v⦄, s.var? i = none → s'.var? i = some v → v.observers = [] ∧ v.firing = false

variable {s s' s'' : Store} {var : Nat} {v : Variable} {index : Option String} {access : Access}
  {fire : Fire} {act : Behaviour}

namespace Grows

theorem of_traits (callers : s'.callers = s.callers)
    (same : ∀ i, (s'.var? i).map Variable.traits = (s.var? i).map Variable.traits) :
    s.Grows s' where
  callers := callers
  kept i v found := by
    have traits := same i
    rw [found] at traits
    exact Option.map_eq_some_iff.mp traits
  added i v missing found := by
    have traits := same i
    rw [missing, found] at traits
    cases traits

theorem refl (s : Store) : s.Grows s := .of_traits rfl fun _ => rfl

theorem trans (first : s.Grows s') (second : s'.Grows s'') : s.Grows s'' where
  callers := second.callers.trans first.callers
  kept i v found := by
    obtain ⟨v', found', same⟩ := first.kept found
    obtain ⟨v'', found'', same'⟩ := second.kept found'
    exact ⟨v'', found'', same'.trans same⟩
  added i v missing found := by
    cases found' : s'.var? i with
    | none => exact second.added found' found
    | some v' =>
      obtain ⟨observers, firing⟩ := first.added missing found'
      obtain ⟨_, same, traits⟩ := second.kept found'
      rw [found] at same
      cases same
      exact ⟨(congrArg Traits.observers traits).trans observers,
        (congrArg Traits.firing traits).trans firing⟩

end Grows

/-! ### Single changes -/

theorem update_grows (found : s.var? var = some v) {f : Variable → Variable}
    (kept : (f v).traits = v.traits) : s.Grows (s.update var f) := by
  refine .of_traits rfl fun i => ?_
  by_cases here : i = var
  · subst here
    rw [var?_update found (congrArg Traits.name kept), found]
    exact congrArg some kept
  · rw [var?_update_of_ne _ here]

/-- A name is found, or a variable is added for it. -/
theorem resolve_cases (s : Store) (name : String) :
    (∃ i v, s.resolve name = (i, s) ∧ s.var? i = some v ∧ v.name = name) ∨
      ∃ fresh, s.resolve name =
        (s.current.vars.length, { s with current := s.current.add name fresh }) := by
  rcases Option.eq_none_or_eq_some (s.current.byName.lookup name) with fresh | ⟨i, found⟩
  · exact .inr ⟨fresh, resolve_of_none fresh⟩
  · obtain ⟨v, here, same⟩ := Scope.lookup_eq_some_iff.mp found
    exact .inl ⟨i, v, resolve_of_some found, here, same⟩

theorem grows_add {name : String} (fresh : s.current.byName.lookup name = none) :
    s.Grows { s with current := s.current.add name fresh } := by
  refine ⟨rfl, ?_, ?_⟩
  · intro i v found
    have inside := (List.getElem?_eq_some_iff.mp found).1
    exact ⟨v, (List.getElem?_append_left inside).trans found, rfl⟩
  · intro i v missing found
    have outside : s.current.vars.length ≤ i := List.getElem?_eq_none_iff.mp missing
    have added : (s.current.vars ++ [({ name } : Variable)])[i]? = some v := found
    rw [List.getElem?_append_right outside] at added
    rw [List.mem_singleton.mp (List.mem_of_getElem? added)]
    exact ⟨rfl, rfl⟩

theorem resolve_grows (name : String) : s.Grows (s.resolve name).2 := by
  rcases resolve_cases s name with ⟨_, _, same, _⟩ | ⟨fresh, same⟩
  · rw [same]
    exact .refl s
  · rw [same]
    exact grows_add fresh

theorem resolveAll_grows (wanted : List String) : s.Grows (resolveAll wanted s).2 := by
  induction wanted generalizing s with
  | nil => exact .refl s
  | cons name rest ih => exact (resolve_grows name).trans ih

theorem target_grows (r : Request) : s.Grows (r.target s).2 := by
  cases r with
  | slot var index access => exact .refl s
  | parts name index access => exact resolve_grows name
  | named full access => exact resolve_grows _

/-! ### Accesses -/

/-- Observers that leave the store grown. -/
def FiresGrowing (fire : Fire) : Prop :=
  ∀ (var : Nat) (event : Event) (s : Store), s.Grows (fire var event s).2

section Accesses

variable (fires : FiresGrowing fire)
include fires

theorem settle_grows (written : Value) :
    s.Grows (settle fire var v index written s).2 := by
  have grown := fires var { kind := .write, name := v.name, index } s
  unfold settle
  split <;> rename_i fired <;> rw [fired] at grown <;> exact grown

theorem writeObserved_grows (found : s.var? var = some v) (value : Value) (mode : WriteMode) :
    s.Grows (writeObserved fire var v index value mode s).2 := by
  have grown : s.Grows (s.update var fun _ => (v.write index value mode).2) :=
    update_grows found (Variable.traits_write value mode)
  unfold writeObserved
  split <;> rename_i wrote <;> rw [wrote] at grown
  · exact grown
  · exact grown.trans (settle_grows fires _)

theorem incrementObserved_grows (found : s.var? var = some v) (amount : Int64) :
    s.Grows (incrementObserved fire var v index amount s).2 := by
  unfold incrementObserved
  split
  · exact .refl s
  · split
    · exact .refl s
    · exact (update_grows found rfl).trans (settle_grows fires _)

theorem accessObserved_grows : s.Grows (accessObserved fire var index access s).2 := by
  cases found : s.var? var with
  | none =>
    simp only [accessObserved, found]
    exact .refl s
  | some v =>
    cases access with
    | write value mode =>
      simp only [accessObserved, found]
      exact writeObserved_grows fires found value mode
    | read =>
      have grown := fires var { kind := .read, name := v.name, index } s
      simp only [accessObserved, found]
      split <;> rename_i fired <;> rw [fired] at grown
      · exact grown
      · split
        · unfold readObserved
          split <;> exact grown
        · exact grown
    | increment amount =>
      have grown := fires var { kind := .read, name := v.name, index } s
      simp only [accessObserved, found]
      split <;> rename_i fired <;> rw [fired] at grown
      · exact grown
      · split
        · rename_i found'
          exact grown.trans (incrementObserved_grows fires found' amount)
        · exact grown

theorem accessWith_grows : s.Grows (accessWith fire var index access s).2 := by
  unfold accessWith
  split
  · rename_i x new direct
    obtain ⟨v, found, direct⟩ := Option.bind_eq_some_iff.mp direct
    exact update_grows found (Variable.traits_of_direct direct)
  · exact accessObserved_grows fires

theorem serve_grows (r : Request) : s.Grows (serve fire r s).2 :=
  (target_grows r).trans (accessWith_grows fires)

theorem runCallback_grows (c : Callback) : s.Grows (runCallback fire c s).2 := by
  induction c generalizing s with
  | finish outcome => exact .refl s
  | look next ih => exact ih s
  | note line rest ih =>
    have noted : s.Grows (s.note line) := .of_traits rfl fun _ => rfl
    exact noted.trans ih
  | access r next ih => exact (serve_grows fires r).trans (ih _)

theorem runCallbacks_grows (cs : List Callback) : s.Grows (runCallbacks fire cs s).2 := by
  induction cs generalizing s with
  | nil => exact .refl s
  | cons c cs ih =>
    have grown : s.Grows (runCallback fire c s).2 := runCallback_grows fires c
    unfold runCallbacks andThen
    split <;> rename_i ran <;> rw [ran] at grown
    · exact grown.trans ih
    · exact grown

end Accesses

/-- A variable that is marked for the time in which the store grows has no mark in the end. -/
theorem unmarked_grows (found : s.var? var = some v) (idle : v.firing = false)
    (grown : (s.update var ({ · with firing := true })).Grows s') :
    s.Grows (s'.update var ({ · with firing := false })) := by
  refine ⟨grown.callers, ?_, ?_⟩
  · intro i w there
    by_cases here : i = var
    · subst here
      rw [found] at there
      cases there
      have marked : (s.update i ({ · with firing := true })).var? i =
          some { v with firing := true } := var?_update found rfl
      obtain ⟨v', found', traits⟩ := grown.kept marked
      refine ⟨{ v' with firing := false }, var?_update found' rfl, ?_⟩
      have name : v'.name = v.name := congrArg Traits.name traits
      have observers : v'.observers = v.observers := congrArg Traits.observers traits
      simp only [Variable.traits, name, observers, idle]
    · rw [var?_update_of_ne _ here]
      exact grown.kept ((var?_update_of_ne _ here).trans there)
  · intro i w missing there
    have here : i ≠ var := by
      rintro rfl
      rw [found] at missing
      cases missing
    rw [var?_update_of_ne _ here] at there
    exact grown.added ((var?_update_of_ne _ here).trans missing) there

/-- Observers of any behaviour leave the store grown, with no mark of theirs. -/
theorem fireBy_grows (act : Behaviour) (depth : Nat) : FiresGrowing (fireBy act depth) := by
  induction depth with
  | zero => exact fun var event s => .refl s
  | succ depth ih =>
    intro var event s
    unfold fireBy
    split
    · exact .refl s
    · rename_i v found
      split
      · exact .refl s
      · rename_i idle
        have idle : v.firing = false := by
          simp only [Bool.or_eq_true, not_or, Bool.not_eq_true] at idle
          exact idle.2
        exact unmarked_grows found idle (runCallbacks_grows ih _)

theorem performBy_grows (r : Request) : s.Grows (performBy act r s).2 :=
  serve_grows (fireBy_grows act _) r

end Store

end CommandVM
