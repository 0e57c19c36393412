import CommandVM.Proofs.ForeachIteration
import CommandVM.Proofs.Verifier.Accepted

/-!
# The end of foreach loops

The verifier checks that the slots of a foreach loop exist, and asks nothing else of it. So a loop
of an accepted unit comes to its end exactly when each list without variables is empty: such a list
uses up none of its items, however many rounds there are.
-/

namespace CommandVM.ForeachLoop

variable {loop : ForeachLoop} {run : loop.Execution} {lists : List (List Value)} {t : Nat}

/-- A loop of an accepted unit, in a frame with a variable for each local name. -/
def ofAccepted (unit : CompiledUnit) (accepted : Verifier.accepts unit = true) (slots : List Nat)
    (resolved : slots.length = unit.locals.length) (index : Nat) (info : ForeachInfo)
    (found : unit.foreachInfos[index]? = some info) : ForeachLoop where
  unit := unit
  slots := slots
  index := index
  info := info
  found := found
  bound := by
    intro slot named
    obtain ⟨l, checked⟩ := Verifier.accepted_of_accepts accepted
    rw [resolved]
    exact checked.foreachSlot_lt (List.mem_of_getElem? found) named

/-- A list that has items and no variables has items left in every round. -/
theorem more_of_not_covered (uncovered : ¬ loop.Covered lists) : loop.more lists t = true := by
  simp only [Covered, not_forall] at uncovered
  obtain ⟨p, member, none, filled⟩ := uncovered
  refine List.any_eq_true.mpr ⟨p, member, decide_eq_true ?_⟩
  rw [none, List.length_nil, Nat.mul_zero, Frame.position, Nat.zero_mod]
  exact List.length_pos_iff.mpr filled

theorem pushes_of_not_covered (iterates : run.Iterates lists) (uncovered : ¬ loop.Covered lists)
    {b : Bool} : run.Pushes t b ↔ true = b := by
  have ready := Execution.ready iterates.apart iterates.plain iterates.holds fun s (_ : s < t) =>
    more_of_not_covered (t := iteration s) uncovered
  rw [Execution.Pushes, ready.pushes_iff iterates.apart, more_of_not_covered uncovered]

/-- A loop of an accepted unit tells its end after finitely many steps if and only if its lists
without variables are empty; otherwise it tells its body to run for ever. -/
theorem accepted_loops_end_iff (unit : CompiledUnit) (accepted : Verifier.accepts unit = true)
    (slots : List Nat) (resolved : slots.length = unit.locals.length) (index : Nat)
    (info : ForeachInfo) (found : unit.foreachInfos[index]? = some info)
    (run : (ofAccepted unit accepted slots resolved index info found).Execution)
    (lists : List (List Value)) (iterates : run.Iterates lists) :
    ((∃ t, (∀ s < t, run.Pushes s true) ∧ run.Pushes t false) ↔
        ∀ p ∈ info.lists.zip lists, p.1.varSlots = [] → p.2 = []) ∧
      ((∃ p ∈ info.lists.zip lists, p.1.varSlots = [] ∧ p.2 ≠ []) → ∀ t, run.Pushes t true) := by
  refine ⟨⟨?_, ?_⟩, ?_⟩
  · rintro ⟨t, -, told⟩
    by_contra uncovered
    exact nomatch (pushes_of_not_covered iterates uncovered).mp told
  · intro covered
    exact ⟨_, fun s early => iterates.pushes_true covered early, iterates.pushes_false covered⟩
  · rintro ⟨p, member, none, filled⟩ t
    refine (pushes_of_not_covered iterates fun covered => ?_).mpr rfl
    exact filled (covered p member none)

/-! ### A loop with and without variables -/

/-- A loop over one list: `FOREACH_START4`, `FOREACH_STEP4`, and a jump back to the step as long as
it tells the body to run. -/
def walking (vars : List UInt32) : CompiledUnit where
  code := [0x48, 0, 0, 0, 0, 0x49, 0, 0, 0, 0, 0x29, 0xfb, 0x01, 0, 0x00]
  literals := [.text "done"]
  maxStack := 1
  locals := ["n", "list", "x"]
  foreachInfos := [⟨0, [⟨1, vars⟩]⟩]

/-- The loop in a frame with three variables. -/
def walkingLoop (vars : List UInt32) (accepted : Verifier.accepts (walking vars) = true) :
    ForeachLoop :=
  ofAccepted (walking vars) accepted [0, 1, 2] rfl 0 ⟨0, [⟨1, vars⟩]⟩ rfl

/-- The loop runs over a list of one item. -/
def walkingRun (vars : List UInt32) (accepted : Verifier.accepts (walking vars) = true) :
    (walkingLoop vars accepted).Execution :=
  .idle _ { store := { current := .ofVars [{ name := "n" },
    { name := "list", binding := .scalar (.list [.text "a"]) }, { name := "x" }] (by decide) } }

theorem walking_iterates {vars : List UInt32} (accepted : Verifier.accepts (walking vars) = true)
    (only : ∀ slot ∈ vars, slot = 2) (few : vars.length < 2 ^ 64) :
    (walkingRun vars accepted).Iterates [[.text "a"]] := by
  have items : ∀ var ∈ (walkingLoop vars accepted).itemVars, var = 2 := by
    intro var member
    obtain ⟨l, listed, named⟩ := List.mem_flatMap.mp member
    cases List.mem_singleton.mp listed
    obtain ⟨slot, inside, rfl⟩ := List.mem_map.mp named
    rw [only slot inside]
    rfl
  have lists : ∀ var ∈ (walkingLoop vars accepted).listVars, var = 1 :=
    fun var => List.mem_singleton.mp
  have bounded : (walkingLoop vars accepted).Bounded [[.text "a"]] := by
    intro l listed
    cases List.mem_singleton.mp listed
    have once : (walkingLoop vars accepted).rounds [[.text "a"]] ≤ 1 :=
      Nat.lt_succ_iff.mp (rounds_lt Nat.two_pos (by decide))
    calc _ ≤ 1 * vars.length := Nat.mul_le_mul_right _ once
      _ < 2 ^ 64 := by omega
  refine ⟨⟨?_, ?_, ?_⟩, ?_, .cons ⟨_, rfl, rfl⟩ .nil, by decide, bounded⟩
  · exact fun member => nomatch lists _ member
  · exact fun member => nomatch items _ member
  · intro var listed member
    cases (lists var listed).symm.trans (items var member)
  · intro slot member
    rcases List.mem_cons.mp member with rfl | member
    · exact ⟨_, rfl, rfl, nofun⟩
    obtain ⟨l, listed, named⟩ := List.mem_flatMap.mp member
    cases List.mem_singleton.mp listed
    rcases List.mem_cons.mp named with rfl | inside
    · exact ⟨_, rfl, rfl, nofun⟩
    · rw [only slot inside]
      exact ⟨_, rfl, rfl, nofun⟩

theorem walking_ends : ∃ accepted : Verifier.accepts (walking [2]) = true,
    ∃ t, (∀ s < t, (walkingRun [2] accepted).Pushes s true) ∧
      (walkingRun [2] accepted).Pushes t false := by
  have accepted : Verifier.accepts (walking [2]) = true := by decide
  refine ⟨accepted, (accepted_loops_end_iff (walking [2]) accepted [0, 1, 2] rfl 0
    ⟨0, [⟨1, [2]⟩]⟩ rfl (walkingRun [2] accepted) [[.text "a"]]
    (walking_iterates accepted (fun slot => List.mem_singleton.mp) (by decide))).1.mpr ?_⟩
  intro p member none
  cases List.mem_singleton.mp member
  cases none

/-- Without a variable the loop never comes to its end. -/
theorem walking_without_variables_never_ends :
    ∃ accepted : Verifier.accepts (walking []) = true,
      ∀ t, (walkingRun [] accepted).Pushes t true := by
  have accepted : Verifier.accepts (walking []) = true := by decide
  refine ⟨accepted, fun t =>
    (pushes_of_not_covered (walking_iterates accepted nofun (by decide)) ?_).mpr rfl⟩
  intro covered
  exact nomatch covered (⟨1, []⟩, [.text "a"]) List.mem_cons_self rfl

end CommandVM.ForeachLoop
