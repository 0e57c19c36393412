import CommandVM.Proofs.Verifier.Accepted

/-!
# Depths along the control flow

An instruction passes a depth on to the places that control may go to from it. The walk ends with no
offset pending; when it found no error, every instruction that it reached has passed its depth on.
-/

namespace CommandVM.Verifier

variable {u : CompiledUnit} {l : Layout} {o d offset depth n : Nat} {i : Instruction}
  {w w' w'' : Walk}

/-- The depth after an instruction that is reached with depth `d`. -/
def depthAfter (i : Instruction) (d : Nat) : Nat := d - i.pops + i.pushes

/-- An instruction that is reached with depth `d` finds its operands, and has passed on the depths
that follow from it: to the targets of loops that start here, to a handler, and to the instructions
that may come next. -/
structure Passes (u : CompiledUnit) (depth? : Nat → Option Nat) (o : Nat) (i : Instruction)
    (d : Nat) : Prop where
  loop : ∀ r ∈ u.ranges, r.kind = .loop → r.start.toNat = o → ∀ target,
    r.breakTarget = some target ∨ r.continueTarget = some target → depth? target.toNat = some d
  done : i.opcode = .done → d = 1
  pops : i.opcode ≠ .done → i.pops ≤ d
  handler : i.opcode = .beginCatch4 → ∀ r target, u.ranges[i.index]? = some r →
    r.catchTarget = some target → depth? target.toNat = some d
  jump : i.opcode ≠ .done → ∀ target, i.jumpTarget? o = some target →
    depth? target.toNat = some (depthAfter i d)
  next : i.opcode.isTerminal = false → depth? (o + i.size) = some (depthAfter i d)

theorem Passes.mono {depth? depth?' : Nat → Option Nat} (h : Passes u depth? o i d)
    (more : ∀ {o d}, depth? o = some d → depth?' o = some d) : Passes u depth?' o i d where
  loop r member kind start target has := more (h.loop r member kind start target has)
  done := h.done
  pops := h.pops
  handler opcode r target found has := more (h.handler opcode r target found has)
  jump opcode target jumps := more (h.jump opcode target jumps)
  next goesOn := more (h.next goesOn)

namespace Walk

/-! ### What every move of the walk keeps -/

/-- Each reached offset is noted once, and `n` of them have been looked at. -/
structure Tidy (l : Layout) (n : Nat) (w : Walk) : Prop where
  nodup : (w.depths.map Prod.fst).Nodup
  boundary : ∀ o ∈ w.depths.map Prod.fst, l.isBoundary o = true
  pending : ∀ o ∈ w.pending, o ∈ w.depths.map Prod.fst
  count : n + w.pending.length = w.depths.length

/-- A walk after some moves: notes, errors and pending offsets only come in addition, and each new
note is pending. -/
structure Grows (l : Layout) (w w' : Walk) : Prop where
  depths : ∀ {o d}, w.depth? o = some d → w'.depth? o = some d
  errors : w'.errors = [] → w.errors = []
  required : w.required ≤ w'.required
  pending : ∀ o ∈ w.pending, o ∈ w'.pending
  fresh : ∀ {o d}, w'.depth? o = some d → w.depth? o = some d ∨ o ∈ w'.pending
  tidy : ∀ {n}, w.Tidy l n → w'.Tidy l n

theorem Grows.refl (l : Layout) (w : Walk) : Grows l w w where
  depths known := known
  errors clean := clean
  required := Nat.le_refl _
  pending _ member := member
  fresh known := Or.inl known
  tidy tidy := tidy

theorem Grows.trans (first : Grows l w w') (second : Grows l w' w'') : Grows l w w'' where
  depths known := second.depths (first.depths known)
  errors clean := first.errors (second.errors clean)
  required := Nat.le_trans first.required second.required
  pending o member := second.pending o (first.pending o member)
  fresh known := by
    rcases second.fresh known with before | pending
    · rcases first.fresh before with before | pending
      · exact Or.inl before
      · exact Or.inr (second.pending _ pending)
    · exact Or.inr pending
  tidy tidy := second.tidy (first.tidy tidy)

theorem grows_report (e : Error) : Grows l w (w.report e) where
  depths known := known
  errors clean := by simp [report] at clean
  required := Nat.le_refl _
  pending _ member := member
  fresh known := Or.inl known
  tidy tidy := ⟨tidy.nodup, tidy.boundary, tidy.pending, tidy.count⟩

theorem grows_required (more : w.required ≤ n) : Grows l w { w with required := n } where
  depths known := known
  errors clean := clean
  required := more
  pending _ member := member
  fresh known := Or.inl known
  tidy tidy := ⟨tidy.nodup, tidy.boundary, tidy.pending, tidy.count⟩

theorem depth?_of_mem_keys (member : o ∈ w.depths.map Prod.fst) : ∃ d, w.depth? o = some d := by
  obtain ⟨⟨_, d⟩, listed, rfl⟩ := List.mem_map.mp member
  exact Option.isSome_iff_exists.mp (lookup_isSome_of_mem listed)

theorem grows_note (boundary : l.isBoundary offset = true) (unknown : w.depth? offset = none) :
    Grows l w { w with
      depths := w.depths ++ [(offset, depth)], pending := offset :: w.pending } where
  depths known := by
    rw [depth?] at known
    simp [depth?, List.lookup_append, known]
  errors clean := clean
  required := Nat.le_refl _
  pending _ member := List.mem_cons_of_mem _ member
  fresh {o d} known := by
    simp only [depth?, List.lookup_append, Option.or_eq_some_iff] at known
    rcases known with before | ⟨_, new⟩
    · exact Or.inl before
    · exact Or.inr (by rw [(Prod.mk.inj (List.mem_singleton.mp (mem_of_lookup new))).1]; simp)
  tidy tidy := by
    have new : offset ∉ w.depths.map Prod.fst := by
      intro member
      obtain ⟨d, known⟩ := depth?_of_mem_keys member
      rw [unknown] at known
      cases known
    constructor
    · rw [List.map_append, List.nodup_append]
      refine ⟨tidy.nodup, by simp, ?_⟩
      intro a before b after same
      rw [List.map_singleton, List.mem_singleton] at after
      rw [same, after] at before
      exact new before
    · intro o member
      rw [List.map_append, List.mem_append, List.map_singleton, List.mem_singleton] at member
      rcases member with before | rfl
      · exact tidy.boundary o before
      · exact boundary
    · intro o member
      rw [List.map_append, List.mem_append, List.map_singleton, List.mem_singleton]
      rcases List.mem_cons.mp member with rfl | before
      · exact Or.inr rfl
      · exact Or.inl (tidy.pending o before)
    · have count := tidy.count
      simp only [List.length_cons, List.length_append, List.length_nil]
      omega

theorem grows_enter : Grows l w (w.enter l offset depth) := by
  unfold enter
  split
  · exact Grows.refl l w
  · rename_i boundary
    split
    · rename_i unknown
      exact grows_note (by simpa using boundary) unknown
    · split
      · exact Grows.refl l w
      · exact grows_report _

/-- After an offset was entered without an error it has the depth that it was entered with. -/
theorem depth?_enter (boundary : l.isBoundary offset = true)
    (clean : (w.enter l offset depth).errors = []) :
    (w.enter l offset depth).depth? offset = some depth := by
  unfold enter at clean ⊢
  rw [if_neg (by simp [boundary])] at clean ⊢
  split at clean
  · rename_i unknown
    rw [depth?] at unknown
    simp [depth?, List.lookup_append, unknown]
  · split at clean
    · rename_i seen same
      rw [if_pos same, seen, same]
    · simp [report] at clean

/-! ### The places that an instruction enters -/

theorem grows_enterTarget {target : Option UInt32} : Grows l w (w.enterTarget l target depth) := by
  cases target with
  | none => exact Grows.refl l w
  | some target => exact grows_enter

theorem depth?_enterTarget {target : UInt32} (boundary : l.isBoundary target.toNat = true)
    (clean : (w.enterTarget l (some target) depth).errors = []) :
    (w.enterTarget l (some target) depth).depth? target.toNat = some depth :=
  depth?_enter boundary clean

/-- Enters both targets of a loop range. -/
def enterLoop (l : Layout) (depth : Nat) (w : Walk) (r : ExceptionRange) : Walk :=
  (w.enterTarget l r.breakTarget depth).enterTarget l r.continueTarget depth

theorem grows_enterLoop {r : ExceptionRange} : Grows l w (w.enterLoop l depth r) :=
  grows_enterTarget.trans grows_enterTarget

theorem grows_foldl_enterLoop (ranges : List ExceptionRange) :
    Grows l w (ranges.foldl (enterLoop l depth) w) := by
  induction ranges generalizing w with
  | nil => exact Grows.refl l w
  | cons r ranges ih => exact grows_enterLoop.trans ih

theorem depth?_enterLoop (h : LaidOut u l) {r : ExceptionRange} (member : r ∈ u.ranges)
    {target : UInt32} (has : r.breakTarget = some target ∨ r.continueTarget = some target)
    (clean : (w.enterLoop l depth r).errors = []) :
    (w.enterLoop l depth r).depth? target.toNat = some depth := by
  unfold enterLoop at clean ⊢
  rcases has with breaks | continues
  · rw [breaks] at clean ⊢
    exact grows_enterTarget.depths
      (depth?_enterTarget (h.break_lands member breaks) (grows_enterTarget.errors clean))
  · rw [continues] at clean ⊢
    exact depth?_enterTarget (h.continue_lands member continues) clean

theorem depth?_foldl_enterLoop (h : LaidOut u l) {ranges : List ExceptionRange}
    (sub : ∀ r ∈ ranges, r ∈ u.ranges) (clean : (ranges.foldl (enterLoop l depth) w).errors = [])
    {r : ExceptionRange} (member : r ∈ ranges) {target : UInt32}
    (has : r.breakTarget = some target ∨ r.continueTarget = some target) :
    (ranges.foldl (enterLoop l depth) w).depth? target.toNat = some depth := by
  induction ranges generalizing w with
  | nil => cases member
  | cons first ranges ih =>
    rw [List.foldl_cons] at clean ⊢
    rcases List.mem_cons.mp member with rfl | later
    · have rest : Grows l (w.enterLoop l depth r)
          (ranges.foldl (enterLoop l depth) (w.enterLoop l depth r)) := grows_foldl_enterLoop ranges
      exact rest.depths (depth?_enterLoop h (sub r member) has (rest.errors clean))
    · exact ih (fun r later => sub r (List.mem_cons_of_mem _ later)) clean later

theorem enterLoops_eq : w.enterLoops u l offset depth =
    (u.ranges.filter fun r => r.start.toNat = offset && r.kind == .loop).foldl
      (enterLoop l depth) w := rfl

theorem grows_enterLoops : Grows l w (w.enterLoops u l offset depth) := grows_foldl_enterLoop _

theorem depth?_enterLoops (h : LaidOut u l) (clean : (w.enterLoops u l offset depth).errors = [])
    {r : ExceptionRange} (member : r ∈ u.ranges) (kind : r.kind = .loop)
    (start : r.start.toNat = offset) {target : UInt32}
    (has : r.breakTarget = some target ∨ r.continueTarget = some target) :
    (w.enterLoops u l offset depth).depth? target.toNat = some depth := by
  rw [enterLoops_eq] at clean ⊢
  apply depth?_foldl_enterLoop h _ clean _ has
  · intro r listed
    exact (List.mem_filter.mp listed).1
  · exact List.mem_filter.mpr ⟨member, by simp [kind, start]⟩

theorem grows_enterCatch : Grows l w (w.enterCatch u l i depth) := by
  unfold enterCatch
  split
  · exact grows_enterTarget
  · exact Grows.refl l w

theorem depth?_enterCatch (h : LaidOut u l) (catches : i.opcode = .beginCatch4)
    {r : ExceptionRange} {target : UInt32} (found : u.ranges[i.index]? = some r)
    (has : r.catchTarget = some target) (clean : (w.enterCatch u l i depth).errors = []) :
    (w.enterCatch u l i depth).depth? target.toNat = some depth := by
  rw [enterCatch, if_pos (by simp [catches]), found, Option.bind_some, has] at clean ⊢
  exact depth?_enterTarget (h.catch_lands (List.mem_of_getElem? found) has) clean

theorem grows_enterJump : Grows l w (w.enterJump l offset i depth) := by
  unfold enterJump
  split
  · split
    · exact grows_enter
    · exact Grows.refl l w
  · exact Grows.refl l w

theorem depth?_enterJump (h : LaidOut u l) (here : l.instruction? offset = some i) {target : Int}
    (jumps : i.jumpTarget? offset = some target)
    (clean : (w.enterJump l offset i depth).errors = []) :
    (w.enterJump l offset i depth).depth? target.toNat = some depth := by
  obtain ⟨nonneg, lands⟩ := h.jump_lands here jumps
  simp only [enterJump, jumps, if_pos nonneg] at clean ⊢
  exact depth?_enter lands clean

theorem grows_enterNext : Grows l w (w.enterNext l offset i depth) := by
  unfold enterNext
  split
  · exact Grows.refl l w
  · exact grows_enter

theorem depth?_enterNext (h : LaidOut u l) (here : l.instruction? offset = some i)
    (goesOn : i.opcode.isTerminal = false)
    (clean : (w.enterNext l offset i depth).errors = []) :
    (w.enterNext l offset i depth).depth? (offset + i.size) = some depth := by
  simp only [enterNext, goesOn] at clean ⊢
  exact depth?_enter (h.next_lands here goesOn) clean

/-- Enters the places to which an instruction that is not the end of the frame may lead. -/
def enterAfter (u : CompiledUnit) (l : Layout) (offset : Nat) (i : Instruction) (depth : Nat)
    (w : Walk) : Walk :=
  ((w.enterCatch u l i depth).enterJump l offset i (depthAfter i depth)).enterNext l offset i
    (depthAfter i depth)

theorem grows_enterAfter : Grows l w (w.enterAfter u l offset i depth) :=
  grows_enterCatch.trans (grows_enterJump.trans grows_enterNext)

theorem enterAfter_passes (h : LaidOut u l) (here : l.instruction? offset = some i)
    (goesOn : i.opcode ≠ .done) (enough : i.pops ≤ depth)
    (clean : (w.enterAfter u l offset i depth).errors = [])
    (loops : ∀ r ∈ u.ranges, r.kind = .loop → r.start.toNat = offset → ∀ target,
      r.breakTarget = some target ∨ r.continueTarget = some target →
      (w.enterAfter u l offset i depth).depth? target.toNat = some depth) :
    Passes u (w.enterAfter u l offset i depth).depth? offset i depth := by
  have nextGrows : Grows l
      ((w.enterCatch u l i depth).enterJump l offset i (depthAfter i depth))
      (w.enterAfter u l offset i depth) := grows_enterNext
  have jumpGrows : Grows l (w.enterCatch u l i depth) (w.enterAfter u l offset i depth) :=
    grows_enterJump.trans nextGrows
  refine ⟨loops, fun done => absurd done goesOn, fun _ => enough, ?_, ?_, ?_⟩
  · intro catches r target found has
    exact jumpGrows.depths (depth?_enterCatch h catches found has (jumpGrows.errors clean))
  · intro _ target jumps
    exact nextGrows.depths (depth?_enterJump h here jumps (nextGrows.errors clean))
  · intro continues
    exact depth?_enterNext h here continues clean

/-! ### One step -/

/-- An instruction is looked at: its loops are entered, then the rest of `visit` follows. -/
theorem grows_visit : Grows l (w.enterLoops u l offset depth) (w.visit u l offset i depth) := by
  unfold visit
  dsimp only
  split
  · have noted : Grows l (w.enterLoops u l offset depth)
        { w.enterLoops u l offset depth with
          required := max (w.enterLoops u l offset depth).required depth } :=
      grows_required (Nat.le_max_left _ _)
    split
    · exact noted
    · exact noted.trans (grows_report _)
  · split
    · exact grows_report _
    · exact (grows_required (by omega)).trans grows_enterAfter

/-- The required depth covers the depth before an instruction and, unless the frame ends there, the
depth after it. -/
def Covers (w : Walk) (i : Instruction) (d : Nat) : Prop :=
  d ≤ w.required ∧ (i.opcode ≠ .done → depthAfter i d ≤ w.required)

theorem Covers.mono (h : w.Covers i d) (more : w.required ≤ w'.required) : w'.Covers i d :=
  ⟨Nat.le_trans h.1 more, fun goesOn => Nat.le_trans (h.2 goesOn) more⟩

theorem visit_passes (h : LaidOut u l) (here : l.instruction? offset = some i)
    (clean : (w.visit u l offset i depth).errors = []) :
    Passes u (w.visit u l offset i depth).depth? offset i depth ∧
      (w.visit u l offset i depth).Covers i depth := by
  have loops : ∀ r ∈ u.ranges, r.kind = .loop → r.start.toNat = offset → ∀ target,
      r.breakTarget = some target ∨ r.continueTarget = some target →
      (w.visit u l offset i depth).depth? target.toNat = some depth := by
    intro r member kind start target has
    exact grows_visit.depths (depth?_enterLoops h (grows_visit.errors clean) member kind start has)
  revert loops clean
  unfold visit
  dsimp only
  generalize w.enterLoops u l offset depth = w
  by_cases done : i.opcode = .done
  · rw [if_pos (by simp [done])]
    intro clean loops
    split at clean
    · rename_i one
      rw [if_pos one] at loops ⊢
      refine ⟨⟨loops, fun _ => one, fun goesOn => absurd done goesOn, ?_,
        fun goesOn => absurd done goesOn, ?_⟩, ?_, fun goesOn => absurd done goesOn⟩
      · intro catches
        rw [done] at catches
        cases catches
      · intro goesOn
        rw [done] at goesOn
        cases goesOn
      · exact Nat.le_max_right _ _
    · simp [report] at clean
  · rw [if_neg (by simp [done])]
    by_cases under : depth < i.pops
    · rw [if_pos under]
      intro clean
      simp [report] at clean
    · rw [if_neg under]
      intro clean loops
      refine ⟨enterAfter_passes h here done (Nat.le_of_not_lt under) clean loops, ?_⟩
      refine Covers.mono ⟨Nat.le_max_right _ _, ?_⟩ (grows_enterAfter (l := l)).required
      intro _
      exact Nat.le_trans (Nat.le_max_right _ _) (Nat.le_max_left _ _)

/-- Unless an error was found, every offset that is not pending has passed its depth on. -/
def Settled (u : CompiledUnit) (l : Layout) (w : Walk) : Prop :=
  w.errors = [] → ∀ {o d}, w.depth? o = some d → o ∈ w.pending ∨
    ∃ i, l.instruction? o = some i ∧ Passes u w.depth? o i d ∧ w.Covers i d

theorem step_of_pending (tidy : w.Tidy l n) {pending : List Nat}
    (next : w.pending = offset :: pending) :
    ∃ i depth, l.instruction? offset = some i ∧ w.depth? offset = some depth ∧
      w.step u l = ({ w with pending } : Walk).visit u l offset i depth := by
  have member := tidy.pending offset (by simp [next])
  obtain ⟨i, here⟩ := isBoundary_iff.mp (tidy.boundary offset member)
  obtain ⟨depth, known⟩ := depth?_of_mem_keys member
  refine ⟨i, depth, here, known, ?_⟩
  have known : ({ w with pending } : Walk).depth? offset = some depth := known
  simp only [step, next, here, known]

theorem step_tidy (tidy : w.Tidy l n) (more : w.pending ≠ []) : (w.step u l).Tidy l (n + 1) := by
  obtain ⟨offset, pending, next⟩ := List.exists_cons_of_ne_nil more
  obtain ⟨i, depth, _, _, visits⟩ := step_of_pending (u := u) tidy next
  rw [visits]
  refine (grows_enterLoops.trans grows_visit).tidy ⟨tidy.nodup, tidy.boundary, ?_, ?_⟩
  · intro o member
    exact tidy.pending o (by rw [next]; exact List.mem_cons_of_mem _ member)
  · have count := tidy.count
    rw [next, List.length_cons] at count
    dsimp only
    omega

theorem step_settled (h : LaidOut u l) (tidy : w.Tidy l n) (more : w.pending ≠ [])
    (settled : w.Settled u l) : (w.step u l).Settled u l := by
  obtain ⟨offset, pending, next⟩ := List.exists_cons_of_ne_nil more
  obtain ⟨i, depth, here, known, visits⟩ := step_of_pending (u := u) tidy next
  rw [visits]
  intro clean o d reached
  have grows : Grows l { w with pending }
      (({ w with pending } : Walk).visit u l offset i depth) := grows_enterLoops.trans grows_visit
  rcases grows.fresh reached with before | pending
  · by_cases same : o = offset
    · subst same
      have depthSame : depth = d := Option.some.inj (known.symm.trans before)
      subst depthSame
      exact Or.inr ⟨i, here, visit_passes h here clean⟩
    · rcases settled (grows.errors clean) before with pending | ⟨j, found, passes, covers⟩
      · rw [next] at pending
        rcases List.mem_cons.mp pending with rfl | pending
        · exact absurd rfl same
        · exact Or.inl (grows.pending o pending)
      · exact Or.inr ⟨j, found, passes.mono grows.depths, covers.mono grows.required⟩
  · exact Or.inl pending

/-! ### The whole walk -/

theorem steps_tidy (k : Nat) (tidy : w.Tidy l n) :
    (steps u l k w).pending = [] ∨ (steps u l k w).Tidy l (n + k) := by
  induction k generalizing w n with
  | zero => exact Or.inr tidy
  | succ k ih =>
    unfold steps
    split
    · rename_i ended
      exact Or.inl ended
    · rename_i more
      have moved := ih (step_tidy (u := u) tidy (by simp [more]))
      rwa [show n + 1 + k = n + (k + 1) by omega] at moved

theorem steps_settled (h : LaidOut u l) (k : Nat) (tidy : w.Tidy l n) (settled : w.Settled u l) :
    (steps u l k w).Settled u l := by
  induction k generalizing w n with
  | zero => exact settled
  | succ k ih =>
    unfold steps
    split
    · exact settled
    · rename_i more
      have more : w.pending ≠ [] := by simp [more]
      exact ih (step_tidy tidy more) (step_settled h tidy more settled)

theorem steps_depths (k : Nat) (tidy : w.Tidy l n) (known : w.depth? o = some d) :
    (steps u l k w).depth? o = some d := by
  induction k generalizing w n with
  | zero => exact known
  | succ k ih =>
    unfold steps
    split
    · exact known
    · rename_i offset pending next
      apply ih (step_tidy tidy (by simp [next]))
      obtain ⟨i, depth, _, _, visits⟩ := step_of_pending (u := u) tidy next
      rw [visits]
      exact (grows_enterLoops.trans grows_visit).depths known

/-- There are no more notes than instructions. -/
theorem Tidy.depths_le (tidy : w.Tidy l n) : w.depths.length ≤ l.instructions.length := by
  have sub : w.depths.map Prod.fst ⊆ l.instructions.map Prod.fst := by
    intro o member
    obtain ⟨i, here⟩ := isBoundary_iff.mp (tidy.boundary o member)
    exact List.mem_map_of_mem (mem_of_lookup here)
  have bound := tidy.nodup.length_le_of_subset sub
  rwa [List.length_map, List.length_map] at bound

theorem start_tidy : Tidy l 0 (({} : Walk).enter l 0 0) :=
  grows_enter.tidy ⟨List.nodup_nil, by simp, by simp, rfl⟩

end Walk

theorem walk_pending : (walk u l).pending = [] := by
  unfold walk
  rcases Walk.steps_tidy (u := u) l.instructions.length (Walk.start_tidy (l := l)) with ended | tidy
  · exact ended
  · have count := tidy.count
    have bound := tidy.depths_le
    exact List.eq_nil_of_length_eq_zero (by omega)

theorem walk_zero (h : LaidOut u l) : (walk u l).depth? 0 = some 0 := by
  apply Walk.steps_depths _ Walk.start_tidy
  simp [Walk.enter, isBoundary_zero h.layout, Walk.depth?]

/-- An instruction that the walk reached has passed its depth on, unless there was an error. -/
theorem walk_passes (h : LaidOut u l) (clean : (walk u l).errors = [])
    (reached : (walk u l).depth? o = some d) :
    ∃ i, l.instruction? o = some i ∧ Passes u (walk u l).depth? o i d ∧ (walk u l).Covers i d := by
  have start : (({} : Walk).enter l 0 0).Settled u l := by
    intro _ o d known
    rcases (Walk.grows_enter (l := l)).fresh known with before | pending
    · simp [Walk.depth?] at before
    · exact Or.inl pending
  rcases Walk.steps_settled h _ Walk.start_tidy start clean reached with pending | passes
  · rw [← walk, walk_pending] at pending
    cases pending
  · exact passes

/-! ### Loop exits -/

/-- The range is a loop that the instruction may leave, with a target for that. -/
def MayLeave (i : Instruction) (r : ExceptionRange) : Prop :=
  r.kind = .loop ∧ match i.opcode with
    | .breakLoop => r.breakTarget.isSome = true
    | .continueLoop => r.continueTarget.isSome = true
    | .invokeStk1 | .invokeStk4 => r.breakTarget.isSome = true ∨ r.continueTarget.isSome = true
    | _ => False

theorem getLast?_filter_zipIdx {α : Type} {p : α → Bool} {items : List α} {n : Nat} :
    ((items.zipIdx n).filter fun pair => p pair.1).getLast?.map Prod.fst =
      (items.filter p).getLast? := by
  have projected : ((items.zipIdx n).filter (p ∘ Prod.fst)).map Prod.fst = items.filter p := by
    rw [← List.filter_map, List.zipIdx_map_fst]
  rw [← projected, List.getLast?_map]
  rfl

theorem exitRange?_iff {r : ExceptionRange} :
    (∃ range, exitRange? u o i = some (r, range)) ↔
      (u.ranges.filter fun r => r.contains o).getLast? = some r ∧ MayLeave i r := by
  rw [← getLast?_filter_zipIdx (n := 0)]
  unfold exitRange? MayLeave
  cases (u.ranges.zipIdx.filter fun pair => pair.1.contains o).getLast? with
  | none => simp
  | some pair =>
    obtain ⟨r', index⟩ := pair
    dsimp only [Option.map_some]
    by_cases same : r' = r
    · subst same
      cases r'.kind with
      | loop => split <;> simp [*]
      | «catch» => simp
    · simp [same]

/-! ### Assigned depths -/

/-- The depth that the third pass assigns to an offset; none where its walk does not come. -/
def assigned (u : CompiledUnit) (offset : Nat) : Option Nat :=
  match layout u with
  | .ok l => (walk u l).depth? offset
  | .error _ => none

theorem LaidOut.assigned_eq (h : LaidOut u l) : assigned u o = (walk u l).depth? o := by
  simp only [assigned, h.layout]

namespace Accepted

theorem walk_clean (h : Accepted u l) : (walk u l).errors = [] := by
  have clean := h.depths
  simp only [depthErrors, List.append_eq_nil_iff] at clean
  exact clean.1.1

theorem required_le (h : Accepted u l) : (walk u l).required ≤ u.maxStack.toNat := by
  have clean := h.depths
  simp only [depthErrors, List.append_eq_nil_iff] at clean
  have small := clean.2
  split at small
  · cases small
  · omega

theorem assigned_zero (h : Accepted u l) : assigned u 0 = some 0 := by
  rw [h.assigned_eq]
  exact walk_zero h.toLaidOut

/-- An instruction with an assigned depth finds its operands and passes its depth on. -/
theorem assigned_passes (h : Accepted u l) (reached : assigned u o = some d) :
    ∃ i, l.instruction? o = some i ∧ Passes u (assigned u) o i d := by
  rw [h.assigned_eq] at reached
  obtain ⟨i, here, passes, _⟩ := walk_passes h.toLaidOut h.walk_clean reached
  exact ⟨i, here, passes.mono (by intro o d known; rwa [h.assigned_eq])⟩

theorem assigned_le (h : Accepted u l) (reached : assigned u o = some d) :
    d ≤ u.maxStack.toNat := by
  rw [h.assigned_eq] at reached
  obtain ⟨i, _, _, covers⟩ := walk_passes h.toLaidOut h.walk_clean reached
  exact Nat.le_trans covers.1 h.required_le

/-- A loop exit leaves the depth that its range starts with, if the walk came there. -/
theorem exit_depth (h : Accepted u l) (here : l.instruction? o = some i) {r : ExceptionRange}
    {range : Nat} (leaves : exitRange? u o i = some (r, range)) (reached : assigned u o = some d)
    {start : Nat} (entered : assigned u r.start.toNat = some start) : d - i.pops = start := by
  have clean := h.depths
  simp only [depthErrors, List.append_eq_nil_iff, List.flatMap_eq_nil_iff] at clean
  have exits := clean.1.2 (o, i) (mem_of_lookup here)
  rw [h.assigned_eq] at reached entered
  simp only [exitErrors, leaves, reached, entered] at exits
  split at exits
  · assumption
  · cases exits

end Accepted

end CommandVM.Verifier
