import CommandVM.Proofs.Variables.Growth

/-!
# Reachable stores

Whatever was accessed, observed, entered and left before: between accesses no variable of any scope
is marked as one whose observers run. The position of a variable and its name tell one another.
-/

namespace CommandVM

namespace Store

variable {act : Behaviour} {s s' : Store} {name : String} {var : Nat}

/-- The stores between accesses, with observers of a behaviour. -/
inductive Reachable (act : Behaviour) : Store → Prop where
  | empty : Reachable act {}
  | request {s : Store} (r : Request) : Reachable act s → Reachable act (performBy act r s).2
  | resolve {s : Store} (name : String) : Reachable act s → Reachable act (s.resolve name).2
  | observe {s : Store} (name : String) (o : Observer) : Reachable act s →
      Reachable act (s.observe name o)
  | pushScope {s : Store} : Reachable act s → Reachable act s.pushScope
  | popScope {s : Store} : Reachable act s → Reachable act s.popScope

/-- No observers are running in any scope. -/
def Orderly (s : Store) : Prop :=
  ∀ scope ∈ s.current :: s.callers, ∀ v ∈ scope.vars, v.firing = false

theorem Grows.orderly (grown : s.Grows s') (orderly : s.Orderly) : s'.Orderly := by
  intro scope member
  rcases List.mem_cons.mp member with rfl | outer
  · intro v inside
    obtain ⟨i, found⟩ := List.getElem?_of_mem inside
    cases before : s.var? i with
    | none => exact (grown.added before found).2
    | some w =>
      obtain ⟨v', found', same⟩ := grown.kept before
      have equal : v = v' := Option.some.inj (found.symm.trans found')
      rw [equal]
      exact (congrArg Traits.firing same).trans
        (orderly s.current List.mem_cons_self w (List.mem_of_getElem? before))
  · rw [grown.callers] at outer
    exact orderly scope (List.mem_cons_of_mem _ outer)

/-- One more observer changes no mark. -/
theorem observe_orderly (name : String) (o : Observer) (orderly : s.Orderly) :
    (s.observe name o).Orderly := by
  have before := (resolve_grows (s := s) (splitName name).1).orderly orderly
  unfold observe
  generalize s.resolve (splitName name).1 = found at before ⊢
  obtain ⟨var, t⟩ := found
  dsimp only at before ⊢
  intro scope member
  rcases List.mem_cons.mp member with rfl | outer
  · intro v inside
    obtain ⟨i, found⟩ := List.getElem?_of_mem inside
    simp only [update, Scope.modify, List.getElem?_modify] at found
    obtain ⟨w, there, changed⟩ := Option.map_eq_some_iff.mp found
    have idle := before t.current List.mem_cons_self w (List.mem_of_getElem? there)
    rw [← changed]
    split <;> exact idle
  · exact before scope (List.mem_cons_of_mem _ outer)

theorem Reachable.orderly (reachable : s.Reachable act) : s.Orderly := by
  have nothing : ∀ v ∈ Scope.empty.vars, v.firing = false := nofun
  induction reachable with
  | empty =>
    intro scope member
    rw [List.mem_singleton.mp member]
    exact nothing
  | request r _ ih => exact (performBy_grows r).orderly ih
  | resolve name _ ih => exact (resolve_grows name).orderly ih
  | observe name o _ ih => exact observe_orderly name o ih
  | pushScope _ ih =>
    intro scope member
    rcases List.mem_cons.mp member with rfl | outer
    · exact nothing
    · exact ih scope outer
  | @popScope s _ ih =>
    intro scope member
    refine ih scope ?_
    unfold Store.popScope at member
    split at member
    · rename_i inner callers same
      rw [same]
      exact List.mem_cons_of_mem _ member
    · exact member

/-! ### Names and positions -/

/-- The position that is found for a name is the one at which a variable has this name. -/
theorem resolve_eq_iff :
    s.resolve name = (var, s) ↔ ∃ v, s.var? var = some v ∧ v.name = name := by
  constructor
  · intro resolved
    rcases resolve_cases s name with ⟨i, v, same, found, named⟩ | ⟨fresh, added⟩
    · obtain ⟨rfl, _⟩ := Prod.mk.inj (same.symm.trans resolved)
      exact ⟨v, found, named⟩
    · have longer := congrArg (fun pair => pair.2.current.vars.length) (added.symm.trans resolved)
      simp [Scope.add] at longer
  · intro there
    exact resolve_of_some (Scope.lookup_eq_some_iff.mpr there)

theorem resolve_named (s : Store) (name : String) :
    ∃ v, (s.resolve name).2.var? (s.resolve name).1 = some v ∧ v.name = name := by
  rcases resolve_cases s name with ⟨i, v, same, found, named⟩ | ⟨fresh, added⟩
  · rw [same]
    exact ⟨v, found, named⟩
  · refine ⟨{ name }, ?_, rfl⟩
    rw [added]
    exact List.getElem?_concat_length

/-- Each of several names has its variable when all have been looked for. -/
theorem resolveAll_named {names : List String} {k : Nat} (wanted : names[k]? = some name) :
    ∃ var v, (resolveAll names s).1[k]? = some var ∧ (resolveAll names s).2.var? var = some v ∧
      v.name = name := by
  induction names generalizing s k with
  | nil => cases wanted
  | cons first rest ih =>
    cases k with
    | zero =>
      cases wanted
      obtain ⟨v, found, named⟩ := resolve_named s name
      -- Looking for the others leaves the variable where it is.
      obtain ⟨v', found', same⟩ := (resolveAll_grows rest).kept found
      exact ⟨_, v', rfl, found', (congrArg Traits.name same).trans named⟩
    | succ k => exact ih wanted

end Store

end CommandVM
