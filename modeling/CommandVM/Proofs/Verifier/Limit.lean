import CommandVM.Proofs.DepthEquations

/-!
# The limit among the errors

Only the end of the third pass compares depths with the limit of a unit. A unit without other errors
has depths that solve the flow equations but for the limit, and is accepted when the limit covers
them.
-/

namespace CommandVM.Verifier

variable {u : CompiledUnit} {l : Layout} {o d offset depth : Nat} {i : Instruction} {w : Walk}
  {e : Error}

/-- The error is that the limit is too small. -/
def Error.isLimit : Error → Bool
  | .maxDepthTooSmall _ _ => true
  | _ => false

/-! ### The first two passes -/

theorem isLimit_of_mem_layoutErrors (member : e ∈ layoutErrors u l) : e.isLimit = false := by
  simp only [layoutErrors, List.mem_append, List.mem_flatMap] at member
  rcases member with (⟨⟨o, i⟩, _, operand | jump⟩ | terminal) | foreach
  · unfold operandErrors at operand
    grind [Error.isLimit]
  · unfold jumpErrors at jump
    grind [Error.isLimit]
  · unfold terminalErrors at terminal
    grind [Error.isLimit]
  · simp only [foreachErrors, List.mem_flatMap, List.mem_map] at foreach
    obtain ⟨_, _, _, _, rfl⟩ := foreach
    rfl

theorem isLimit_of_mem_targetErrors {range : Nat} {which : Target} {target : Option UInt32}
    (member : e ∈ targetErrors l range which target) : e.isLimit = false := by
  cases target with
  | none => cases member
  | some target => grind [targetErrors, Error.isLimit]

theorem isLimit_of_mem_rangeErrors {earlier : List ExceptionRange} {range : Nat}
    {r : ExceptionRange} (member : e ∈ rangeErrors l earlier range r) : e.isLimit = false := by
  simp only [rangeErrors, List.mem_append] at member
  rcases member with (((((bound | missing) | leave) | again) | handler) | order) | level
  · grind [boundErrors, Error.isLimit]
  · grind [missingErrors, Error.isLimit]
  · exact isLimit_of_mem_targetErrors leave
  · exact isLimit_of_mem_targetErrors again
  · exact isLimit_of_mem_targetErrors handler
  · simp only [orderErrors, List.mem_map] at order
    obtain ⟨_, _, rfl⟩ := order
    rfl
  · grind [levelErrors, Error.isLimit]

theorem isLimit_of_mem_tableErrors (member : e ∈ tableErrors u l) : e.isLimit = false := by
  simp only [tableErrors, List.mem_append, List.mem_flatMap] at member
  rcases member with ⟨_, _, range⟩ | ⟨_, _, command⟩
  · exact isLimit_of_mem_rangeErrors range
  · grind [commandErrors, Error.isLimit]

/-! ### The walk -/

namespace Walk

/-- The walk has found no error of the limit. -/
def Plain (w : Walk) : Prop := ∀ e ∈ w.errors, e.isLimit = false

theorem plain_report (plain : w.Plain) (other : e.isLimit = false) : (w.report e).Plain := by
  intro e' member
  rcases List.mem_append.mp member with old | new
  · exact plain e' old
  · rw [List.mem_singleton.mp new]
    exact other

theorem plain_enter (plain : w.Plain) : (w.enter l offset depth).Plain := by
  unfold enter
  split
  · exact plain
  · split
    · exact plain
    · split
      · exact plain
      · exact plain_report plain rfl

theorem plain_enterTarget (plain : w.Plain) {target : Option UInt32} :
    (w.enterTarget l target depth).Plain := by
  cases target with
  | none => exact plain
  | some target => exact plain_enter plain

theorem plain_enterLoops (plain : w.Plain) : (w.enterLoops u l offset depth).Plain := by
  rw [enterLoops_eq]
  generalize u.ranges.filter _ = ranges
  induction ranges generalizing w with
  | nil => exact plain
  | cons r ranges ih => exact ih (plain_enterTarget (plain_enterTarget plain))

theorem plain_enterAfter (plain : w.Plain) : (w.enterAfter u l offset i depth).Plain := by
  have caught : (w.enterCatch u l i depth).Plain := by
    unfold enterCatch
    split
    · exact plain_enterTarget plain
    · exact plain
  have jumped : ((w.enterCatch u l i depth).enterJump l offset i (depthAfter i depth)).Plain := by
    unfold enterJump
    split
    · split
      · exact plain_enter caught
      · exact caught
    · exact caught
  unfold enterAfter enterNext
  split
  · exact jumped
  · exact plain_enter jumped

theorem plain_visit (plain : w.Plain) : (w.visit u l offset i depth).Plain := by
  have entered : (w.enterLoops u l offset depth).Plain := plain_enterLoops plain
  unfold visit
  dsimp only
  split
  · split
    · exact entered
    · exact plain_report entered rfl
  · split
    · exact plain_report entered rfl
    · exact plain_enterAfter (w := { w.enterLoops u l offset depth with required := _ }) entered

theorem plain_step (plain : w.Plain) : (w.step u l).Plain := by
  unfold step
  split
  · exact plain
  · dsimp only
    split
    · exact plain_visit (w := { w with pending := _ }) plain
    · exact plain

theorem plain_steps (n : Nat) (plain : w.Plain) : (steps u l n w).Plain := by
  induction n generalizing w with
  | zero => exact plain
  | succ n ih =>
    unfold steps
    split
    · exact plain
    · exact ih (plain_step plain)

end Walk

theorem isLimit_of_mem_walk (member : e ∈ (walk u l).errors) : e.isLimit = false :=
  Walk.plain_steps _ (Walk.plain_enter (w := {}) nofun) e member

theorem isLimit_of_mem_exitErrors (member : e ∈ exitErrors u w o i) : e.isLimit = false := by
  unfold exitErrors at member
  grind [Error.isLimit]

/-! ### Units with no other error -/

/-- No pass finds an error, when the limit is left aside. -/
structure Unlimited (u : CompiledUnit) (l : Layout) : Prop extends LaidOut u l where
  walk : (walk u l).errors = []
  exits : ∀ pair ∈ l.instructions, exitErrors u (Verifier.walk u l) pair.1 pair.2 = []

theorem eq_nil_of_limits {es : List Error} (none : ∀ e ∈ es, e.isLimit = false)
    (only : ∀ e ∈ es, e.isLimit = true) : es = [] := by
  rw [List.eq_nil_iff_forall_not_mem]
  intro e member
  have limit := only e member
  rw [none e member] at limit
  cases limit

theorem unlimited_of_errors (only : ∀ e ∈ errors u, e.isLimit = true) : ∃ l, Unlimited u l := by
  unfold errors at only
  split at only
  · rename_i e failed
    have limit := only e List.mem_cons_self
    unfold layout at failed
    split at failed
    · cases failed
      cases limit
    · split at failed
      · cases failed
        cases limit
      · cases failed
  · rename_i l found
    simp only [List.mem_append] at only
    have code : layoutErrors u l = [] := eq_nil_of_limits (fun e => isLimit_of_mem_layoutErrors)
      fun e member => only e (.inl (.inl member))
    have tables : tableErrors u l = [] := eq_nil_of_limits (fun e => isLimit_of_mem_tableErrors)
      fun e member => only e (.inl (.inr member))
    rw [if_pos (jumpsLand_of_layoutErrors code)] at only
    simp only [depthErrors, List.mem_append] at only
    refine ⟨l, ⟨found, code, tables⟩, ?_, ?_⟩
    · exact eq_nil_of_limits (fun e => isLimit_of_mem_walk)
        fun e member => only e (.inr (.inl (.inl member)))
    · intro pair member
      exact eq_nil_of_limits (fun e => isLimit_of_mem_exitErrors) fun e wrong =>
        only e (.inr (.inl (.inr (List.mem_flatMap.mpr ⟨pair, member, wrong⟩))))

/-- The limit of a unit covers the depths on both sides of the instruction at an offset. -/
def LimitCovers (u : CompiledUnit) (l : Layout) (o : Nat) : Prop :=
  ∀ i d, l.instruction? o = some i → assigned u o = some d →
    d ≤ u.maxStack.toNat ∧ (i.opcode ≠ .done → depthAfter i d ≤ u.maxStack.toNat)

namespace Unlimited

theorem errors_eq (h : Unlimited u l) : errors u =
    if u.maxStack.toNat < (Verifier.walk u l).required then
      [.maxDepthTooSmall u.maxStack (Verifier.walk u l).required] else [] := by
  have exits : l.instructions.flatMap
      (fun pair => exitErrors u (Verifier.walk u l) pair.1 pair.2) = [] :=
    List.flatMap_eq_nil_iff.mpr h.exits
  simp only [errors, h.layout, h.code, h.tables, if_pos (jumpsLand_of_layoutErrors h.code),
    depthErrors, h.walk, exits, List.nil_append]

theorem leaves (h : Unlimited u l) (here : l.instruction? o = some i)
    (reached : (Verifier.walk u l).depth? o = some d) {r : ExceptionRange}
    (last : (u.ranges.filter (·.contains o)).getLast? = some r) (may : MayLeave i r) {start : Nat}
    (entered : (Verifier.walk u l).depth? r.start.toNat = some start) : d - i.pops = start := by
  obtain ⟨range, exits⟩ := exitRange?_iff.mpr ⟨last, may⟩
  have clean := h.exits (o, i) (mem_of_lookup here)
  simp only [exitErrors, exits, reached, entered] at clean
  split at clean
  · assumption
  · cases clean

/-- When the limit covers all depths that the walk assigns, they solve the equations. -/
theorem solution (h : Unlimited u l) (covers : ∀ o, LimitCovers u l o) :
    Solution u l (Verifier.walk u l).depth? := by
  refine ⟨walk_zero h.toLaidOut, ?_⟩
  intro o d reached
  obtain ⟨i, here, passes, _⟩ := walk_passes h.toLaidOut h.walk reached
  obtain ⟨before, after⟩ := covers o i d here (h.assigned_eq.trans reached)
  exact ⟨i, here, passes, fun r last may start => h.leaves here reached last may, before, after⟩

theorem errors_eq_nil_iff (h : Unlimited u l) : errors u = [] ↔ ∀ o, LimitCovers u l o := by
  rw [h.errors_eq]
  constructor
  · intro clean o i d here reached
    rw [h.assigned_eq] at reached
    obtain ⟨j, found, _, covers⟩ := walk_passes h.toLaidOut h.walk reached
    obtain rfl : i = j := Option.some.inj (here.symm.trans found)
    split at clean
    · cases clean
    · rename_i enough
      have enough := Nat.le_of_not_lt enough
      exact ⟨Nat.le_trans covers.1 enough, fun goesOn => Nat.le_trans (covers.2 goesOn) enough⟩
  · intro covers
    exact if_neg (Nat.not_lt.mpr (h.solution covers).walk_below.required)

end Unlimited

end CommandVM.Verifier
