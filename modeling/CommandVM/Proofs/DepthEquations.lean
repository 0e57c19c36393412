import CommandVM.Proofs.Verifier.Flow

/-!
# The third pass decides the flow equations

Depths for some of the instructions solve the equations of a unit when each instruction that has one
finds its operands, leads only to instructions with the depths that follow, and stays below the
limit. The walk notes the least such solution, so it finds no error exactly when there is one.
-/

namespace CommandVM.Verifier

variable {u : CompiledUnit} {l : Layout} {D : Nat → Option Nat} {o d offset depth : Nat}
  {i : Instruction} {w : Walk}

/-! ### The equations -/

/-- The equations at an instruction with depth `d`: it passes the depth on, a loop exit leaves the
depth that the loop starts with, and neither depth is above the limit. -/
structure Balanced (u : CompiledUnit) (D : Nat → Option Nat) (o : Nat) (i : Instruction)
    (d : Nat) : Prop extends Passes u D o i d where
  leaves : ∀ r, (u.ranges.filter (·.contains o)).getLast? = some r → MayLeave i r →
    ∀ start, D r.start.toNat = some start → d - i.pops = start
  before : d ≤ u.maxStack.toNat
  after : i.opcode ≠ .done → depthAfter i d ≤ u.maxStack.toNat

/-- Depths for some instructions, the first among them, that solve the equations. -/
structure Solution (u : CompiledUnit) (l : Layout) (D : Nat → Option Nat) : Prop where
  zero : D 0 = some 0
  balanced : ∀ {o d}, D o = some d → ∃ i, l.instruction? o = some i ∧ Balanced u D o i d

/-! ### The walk below a solution -/

namespace Walk

/-- The walk has noted only depths of the solution, and nothing against it. -/
structure Below (u : CompiledUnit) (D : Nat → Option Nat) (w : Walk) : Prop where
  depths : ∀ {o d}, w.depth? o = some d → D o = some d
  errors : w.errors = []
  required : w.required ≤ u.maxStack.toNat

theorem below_enter (below : w.Below u D) (holds : D offset = some depth) :
    (w.enter l offset depth).Below u D := by
  unfold enter
  split
  · exact below
  · split
    · refine ⟨?_, below.errors, below.required⟩
      intro o d known
      simp only [depth?, List.lookup_append, Option.or_eq_some_iff] at known
      rcases known with earlier | ⟨_, new⟩
      · exact below.depths earlier
      · obtain ⟨rfl, rfl⟩ := Prod.mk.inj (List.mem_singleton.mp (mem_of_lookup new))
        exact holds
    · rename_i seen known
      have same : seen = depth := Option.some.inj ((below.depths known).symm.trans holds)
      rwa [if_pos same]

theorem below_enterTarget (below : w.Below u D) {target : Option UInt32}
    (holds : ∀ offset, target = some offset → D offset.toNat = some depth) :
    (w.enterTarget l target depth).Below u D := by
  cases target with
  | none => exact below
  | some offset => exact below_enter below (holds offset rfl)

theorem below_foldl_enterLoop (below : w.Below u D) {ranges : List ExceptionRange}
    (holds : ∀ r ∈ ranges, ∀ target,
      r.breakTarget = some target ∨ r.continueTarget = some target → D target.toNat = some depth) :
    (ranges.foldl (enterLoop l depth) w).Below u D := by
  induction ranges generalizing w with
  | nil => exact below
  | cons r ranges ih =>
    refine ih ?_ fun r later => holds r (List.mem_cons_of_mem _ later)
    have here := holds r List.mem_cons_self
    exact below_enterTarget (below_enterTarget below fun target has => here target (.inl has))
      fun target has => here target (.inr has)

theorem below_enterLoops (below : w.Below u D) (passes : Passes u D offset i depth) :
    (w.enterLoops u l offset depth).Below u D := by
  rw [enterLoops_eq]
  refine below_foldl_enterLoop below ?_
  intro r listed target has
  simp only [List.mem_filter, Bool.and_eq_true, decide_eq_true_eq, beq_iff_eq] at listed
  obtain ⟨member, start, kind⟩ := listed
  exact passes.loop r member kind start target has

theorem below_enterCatch (below : w.Below u D) (passes : Passes u D offset i depth) :
    (w.enterCatch u l i depth).Below u D := by
  unfold enterCatch
  split
  · rename_i catches
    refine below_enterTarget below ?_
    intro target has
    obtain ⟨r, found, leads⟩ := Option.bind_eq_some_iff.mp has
    exact passes.handler (eq_of_beq catches) r target found leads
  · exact below

theorem below_enterJump (below : w.Below u D) (goesOn : i.opcode ≠ .done)
    (passes : Passes u D offset i depth) :
    (w.enterJump l offset i (depthAfter i depth)).Below u D := by
  unfold enterJump
  split
  · rename_i target jumps
    split
    · exact below_enter below (passes.jump goesOn target jumps)
    · exact below
  · exact below

theorem below_enterNext (below : w.Below u D) (passes : Passes u D offset i depth) :
    (w.enterNext l offset i (depthAfter i depth)).Below u D := by
  unfold enterNext
  split
  · exact below
  · rename_i goesOn
    exact below_enter below (passes.next (Bool.eq_false_iff.mpr goesOn))

theorem below_required (below : w.Below u D) {n : Nat} (small : n ≤ u.maxStack.toNat) :
    ({ w with required := n } : Walk).Below u D :=
  ⟨below.depths, below.errors, small⟩

theorem below_visit (below : w.Below u D) (balanced : Balanced u D offset i depth) :
    (w.visit u l offset i depth).Below u D := by
  have passes := balanced.toPasses
  have entered := below_enterLoops (l := l) below passes
  have bound := entered.required
  have before := balanced.before
  unfold visit
  dsimp only
  by_cases done : i.opcode = .done
  · rw [if_pos (by simp [done]), if_pos (passes.done done)]
    exact below_required entered (by omega)
  · rw [if_neg (by simp [done]), if_neg (Nat.not_lt.mpr (passes.pops done))]
    have after : depth - i.pops + i.pushes ≤ u.maxStack.toNat := balanced.after done
    have noted := below_required entered (n := max (max (w.enterLoops u l offset depth).required
      (depth - i.pops + i.pushes)) depth) (by omega)
    exact below_enterNext (below_enterJump (below_enterCatch noted passes) done passes) passes

theorem below_step (solves : Solution u l D) (below : w.Below u D) : (w.step u l).Below u D := by
  unfold step
  split
  · exact below
  · rename_i offset pending _
    have rest : ({ w with pending } : Walk).Below u D :=
      ⟨below.depths, below.errors, below.required⟩
    dsimp only
    split
    · rename_i i depth here known
      obtain ⟨j, found, balanced⟩ := solves.balanced (rest.depths known)
      obtain rfl : i = j := Option.some.inj (here.symm.trans found)
      exact below_visit rest balanced
    · exact rest

theorem below_steps (solves : Solution u l D) (n : Nat) (below : w.Below u D) :
    (steps u l n w).Below u D := by
  induction n generalizing w with
  | zero => exact below
  | succ n ih =>
    unfold steps
    split
    · exact below
    · exact ih (below_step solves below)

end Walk

theorem Solution.walk_below (solves : Solution u l D) : (walk u l).Below u D := by
  have nothing : ({} : Walk).Below u D := ⟨nofun, rfl, Nat.zero_le _⟩
  exact Walk.below_steps solves _ (Walk.below_enter nothing solves.zero)

/-! ### Both directions -/

/-- Where the third pass finds no error, the depths of its walk solve the equations. -/
theorem Accepted.solution (h : Accepted u l) : Solution u l (walk u l).depth? := by
  refine ⟨walk_zero h.toLaidOut, ?_⟩
  intro o d reached
  obtain ⟨i, here, passes, covers⟩ := walk_passes h.toLaidOut h.walk_clean reached
  have limit := h.required_le
  refine ⟨i, here, passes, ?_, Nat.le_trans covers.1 limit, ?_⟩
  · intro r last leaves start entered
    obtain ⟨range, exits⟩ := exitRange?_iff.mpr ⟨last, leaves⟩
    rw [← h.assigned_eq] at reached entered
    exact h.exit_depth here exits reached entered
  · intro goesOn
    exact Nat.le_trans (covers.2 goesOn) limit

theorem Solution.exitErrors_eq_nil (solves : Solution u l D) (here : l.instruction? o = some i) :
    exitErrors u (walk u l) o i = [] := by
  have below := solves.walk_below
  unfold exitErrors
  split
  · rename_i r range depth exits known
    split
    · rename_i start entered
      obtain ⟨j, found, balanced⟩ := solves.balanced (below.depths known)
      obtain rfl : i = j := Option.some.inj (here.symm.trans found)
      obtain ⟨last, leaves⟩ := exitRange?_iff.mp ⟨range, exits⟩
      exact if_pos (balanced.leaves r last leaves start (below.depths entered))
    · rfl
  · rfl

/-- In a laid out unit the third pass finds no error if and only if the flow equations have a
solution. -/
theorem depthErrors_eq_nil_iff (h : LaidOut u l) :
    depthErrors u l = [] ↔ ∃ D, Solution u l D := by
  constructor
  · intro clean
    exact ⟨_, Accepted.solution ⟨h, clean⟩⟩
  · rintro ⟨D, solves⟩
    have below := solves.walk_below
    have exits : l.instructions.flatMap (fun pair => exitErrors u (walk u l) pair.1 pair.2) = [] := by
      rw [List.flatMap_eq_nil_iff]
      rintro ⟨o, i⟩ member
      exact solves.exitErrors_eq_nil (instruction?_of_mem h.layout member)
    simp only [depthErrors, List.append_eq_nil_iff]
    exact ⟨⟨below.errors, exits⟩, if_neg (Nat.not_lt.mpr below.required)⟩

/-- Pushes a value, goes through one more instruction and starts again. -/
def turning (opcode : UInt8) : CompiledUnit where
  code := [0x01, 0, opcode, 0x27, 0xfd]
  literals := [.text "again"]
  maxStack := 2

/-- A turn that ends with `POP` is balanced; one that ends with `DUP` has no solution. -/
theorem turning_solution :
    (∃ l, LaidOut (turning 0x03) l ∧ ∃ D, Solution (turning 0x03) l D) ∧
      ∃ l, LaidOut (turning 0x04) l ∧ ¬ ∃ D, Solution (turning 0x04) l D := by
  have popping : LaidOut (turning 0x03) ⟨[(0, ⟨.push1, [0]⟩), (2, ⟨.pop, []⟩),
      (3, ⟨.jump1, [-3]⟩)], 5⟩ := ⟨rfl, by decide, by decide⟩
  have doubling : LaidOut (turning 0x04) ⟨[(0, ⟨.push1, [0]⟩), (2, ⟨.dup, []⟩),
      (3, ⟨.jump1, [-3]⟩)], 5⟩ := ⟨rfl, by decide, by decide⟩
  refine ⟨⟨_, popping, ?_⟩, _, doubling, ?_⟩
  · exact (depthErrors_eq_nil_iff popping).mp (by decide)
  · rw [← depthErrors_eq_nil_iff doubling]
    decide

end CommandVM.Verifier
