import CommandVM.Machine.Variables

/-!
# Names in a scope

The index of a scope and its variables are inverse to one another: the position that the index has
for a name is that of the variable with this name, and there is one for each variable.
-/

namespace CommandVM

namespace Scope

variable {s t : Scope} {name : String} {i j : Nat} {v w : Variable}

/-- The index follows from the variables. -/
theorem eq_of_vars (vars : s.vars = t.vars) : s = t := by
  obtain ⟨vars, _, rfl, _⟩ := s
  obtain ⟨_, _, rfl, _⟩ := t
  cases vars
  rfl

theorem position_eq (first : s.vars[i]? = some v) (second : s.vars[j]? = some w)
    (names : v.name = w.name) : i = j := by
  have inside : i < (s.vars.map Variable.name).length := by
    rw [List.length_map]
    exact (List.getElem?_eq_some_iff.mp first).1
  apply (List.getElem?_inj inside s.distinct).mp
  rw [List.getElem?_map, List.getElem?_map, first, second, Option.map_some, Option.map_some, names]

/-- The index has a name at a position if and only if the variable there has the name. -/
theorem lookup_eq_some_iff :
    s.byName.lookup name = some i ↔ ∃ v, s.vars[i]? = some v ∧ v.name = name := by
  have entry {k : Nat} (found : s.byName.lookup name = some k) :
      ∃ v, s.vars[k]? = some v ∧ v.name = name := by
    obtain ⟨before, after, split, _⟩ := List.lookup_eq_some_iff.mp found
    have member : (name, k) ∈ (s.vars.map Variable.name).zipIdx := by
      rw [← s.indexed, split]
      exact List.mem_append_right _ List.mem_cons_self
    rw [List.mk_mem_zipIdx_iff_getElem?, List.getElem?_map] at member
    exact Option.map_eq_some_iff.mp member
  refine ⟨entry, ?_⟩
  rintro ⟨v, here, rfl⟩
  cases found : s.byName.lookup v.name with
  | none =>
    exact absurd (List.mem_map_of_mem (List.mem_of_getElem? here)) (notMem_of_lookup found)
  | some k =>
    obtain ⟨w, there, same⟩ := entry found
    rw [position_eq there here same]

theorem find?_eq_some (here : s.vars[i]? = some v) (named : v.name = name) :
    s.vars.find? (·.name == name) = some v := by
  obtain ⟨inside, rfl⟩ := List.getElem?_eq_some_iff.mp here
  refine List.find?_eq_some_iff_getElem.mpr ⟨by simpa using named, i, inside, rfl, ?_⟩
  intro j earlier
  have other : j ≠ i := by omega
  simp only [Bool.not_eq_true', beq_eq_false_iff_ne]
  intro same
  exact other (position_eq (List.getElem?_eq_getElem (by omega)) here (same.trans named.symm))

theorem lookup_eq_none_iff : s.byName.lookup name = none ↔
    ∀ (i : Nat) (v : Variable), s.vars[i]? = some v → v.name ≠ name := by
  constructor
  · rintro missing i v here rfl
    rw [lookup_eq_some_iff.mpr ⟨v, here, rfl⟩] at missing
    cases missing
  · intro absent
    cases found : s.byName.lookup name with
    | none => rfl
    | some i =>
      obtain ⟨v, here, same⟩ := lookup_eq_some_iff.mp found
      exact absurd same (absent i v here)

theorem resolve_of_some (found : s.byName.lookup name = some i) : s.resolve name = (i, s) := by
  unfold resolve
  split
  · next same =>
    rw [found] at same
    cases same
    rfl
  · next fresh =>
    rw [found] at fresh
    cases fresh

theorem resolve_of_none (fresh : s.byName.lookup name = none) :
    s.resolve name = (s.vars.length, s.add name fresh) := by
  unfold resolve
  split
  · next found =>
    rw [fresh] at found
    cases found
  · rfl

/-- The scope of some variables with different names. -/
def ofVars (vars : List Variable) (distinct : (vars.map Variable.name).Nodup) : Scope :=
  ⟨vars, (vars.map Variable.name).zipIdx, rfl, distinct⟩

end Scope

namespace Store

variable {s : Store} {name : String} {i : Nat}

theorem resolve_of_some (found : s.current.byName.lookup name = some i) :
    s.resolve name = (i, s) := by
  rw [resolve, Scope.resolve_of_some found]

theorem resolve_of_none (fresh : s.current.byName.lookup name = none) :
    s.resolve name = (s.current.vars.length, { s with current := s.current.add name fresh }) := by
  rw [resolve, Scope.resolve_of_none fresh]

end Store

end CommandVM
