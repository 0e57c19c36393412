import CommandVM.Proofs.Foreach.Execution

/-!
# Rounds of foreach loops

A foreach loop takes as many rounds as its longest list needs, counted in groups of as many items as
the list has variables. In round `t` the variables of a list hold its items from `t` groups on, and
the empty text past its end, so that the rounds go through all items in order.
-/

namespace CommandVM.ForeachLoop

variable {loop : ForeachLoop} {run : loop.Execution} {lists : List (List Value)} {t : Nat}
  {l : ForeachList} {items : List Value}

/-! ### How many rounds there are -/

/-- The rounds of a loop: the most that one of its lists takes, with an item for each of its
variables in each. -/
def rounds (loop : ForeachLoop) (lists : List (List Value)) : Nat :=
  ((loop.info.lists.zip lists).map fun p => p.2.length ⌈/⌉ p.1.varSlots.length).foldr max 0

/-- A list without variables is empty. -/
def Covered (loop : ForeachLoop) (lists : List (List Value)) : Prop :=
  ∀ p ∈ loop.info.lists.zip lists, p.1.varSlots = [] → p.2 = []

/-- No position that is looked at in a round leaves 64 bits. -/
def Bounded (loop : ForeachLoop) (lists : List (List Value)) : Prop :=
  ∀ l ∈ loop.info.lists, loop.rounds lists * l.varSlots.length < 2 ^ 64

instance : Decidable (loop.Bounded lists) :=
  inferInstanceAs (Decidable (∀ l ∈ loop.info.lists, _ < _))

theorem Bounded.position_eq (bounded : loop.Bounded lists) (member : l ∈ loop.info.lists)
    {n : Nat} (small : n ≤ loop.rounds lists * l.varSlots.length) : Frame.position n = n :=
  Nat.mod_eq_of_lt (small.trans_lt (bounded l member))

theorem lt_foldr_max {ns : List Nat} : t < ns.foldr max 0 ↔ ∃ n ∈ ns, t < n := by
  induction ns with
  | nil => simp
  | cons n ns ih => simp [ih]

theorem lt_ceilDiv_iff {n width : Nat} (covered : width = 0 → n = 0) :
    t < n ⌈/⌉ width ↔ t * width < n := by
  rcases Nat.eq_zero_or_pos width with rfl | positive
  · rw [covered rfl, ceilDiv_zero]
    simp
  · rw [← Nat.not_le, ceilDiv_le_iff_le_mul positive, Nat.not_le, Nat.mul_comm]

theorem ceilDiv_le (n width : Nat) : n ⌈/⌉ width ≤ n := by
  rcases Nat.eq_zero_or_pos width with rfl | positive
  · rw [ceilDiv_zero]
    exact Nat.zero_le n
  · exact (ceilDiv_le_iff_le_mul positive).mpr (Nat.le_mul_of_pos_left n positive)

theorem more_iff (covered : loop.Covered lists) (bounded : loop.Bounded lists)
    (early : t ≤ loop.rounds lists) : loop.more lists t = true ↔ t < loop.rounds lists := by
  rw [more, Frame.hasMore, List.any_eq_true]
  conv_rhs => rw [rounds, lt_foldr_max]
  simp only [List.mem_map, exists_exists_and_eq_and, decide_eq_true_eq]
  refine exists_congr fun p => and_congr_right fun member => ?_
  rw [bounded.position_eq (List.of_mem_zip member).1 (Nat.mul_le_mul_right _ early)]
  refine (lt_ceilDiv_iff fun none => ?_).symm
  rw [covered p member (List.length_eq_zero_iff.mp none), List.length_nil]

theorem rounds_lt {limit : Nat} (positive : 0 < limit)
    (short : ∀ items ∈ lists, items.length < limit) : loop.rounds lists < limit := by
  by_contra reached
  have beyond : limit - 1 < loop.rounds lists := by omega
  obtain ⟨n, member, long⟩ := lt_foldr_max.mp beyond
  obtain ⟨p, paired, rfl⟩ := List.mem_map.mp member
  have few := ceilDiv_le p.2.length p.1.varSlots.length
  have fits := short p.2 (List.of_mem_zip paired).2
  omega

theorem flatMap_range_groups {α : Type} (n width : Nat) (h : Nat → α) :
    ((List.range n).flatMap fun t => (List.range width).map fun j => h (t * width + j)) =
      (List.range (n * width)).map h := by
  induction n with
  | zero => simp
  | succ n ih =>
    rw [List.range_succ, List.flatMap_append, ih, Nat.succ_mul, List.range_add, List.map_append,
      List.map_map, List.flatMap_singleton]
    rfl

theorem map_getD_range {α : Type} (xs : List α) (past : α) {n : Nat} (enough : xs.length ≤ n) :
    (List.range n).map (fun i => xs.getD i past) = xs ++ List.replicate (n - xs.length) past := by
  refine List.ext_getElem (by simp; omega) fun i inside _ => ?_
  rw [List.getElem_map, List.getElem_range, List.getElem_append]
  split
  · next here => exact List.getD_eq_getElem _ _ here
  · next beyond =>
    rw [List.getElem_replicate]
    exact List.getD_eq_default _ _ (Nat.le_of_not_lt beyond)

/-! ### What the steps tell -/

/-- The execution iterates over these lists: the variables of the loop are plain and kept apart, and
no list is too long to count its items or, in groups, its rounds. -/
structure Execution.Iterates (run : loop.Execution) (lists : List (List Value)) : Prop where
  apart : loop.Apart
  plain : loop.Plain run.initial
  holds : loop.Holds run.initial lists
  short : ∀ items ∈ lists, items.length < 2 ^ 63
  bounded : loop.Bounded lists

namespace Execution.Iterates

theorem ready (iterates : run.Iterates lists) (covered : loop.Covered lists)
    (early : t ≤ loop.rounds lists) : loop.Ready lists t (run.before t) ∧ iteration t = t := by
  have small : ∀ s ≤ loop.rounds lists, iteration s = s := fun s early =>
    iteration_eq (early.trans_lt (rounds_lt (Nat.two_pow_pos 63) iterates.short))
  refine ⟨Execution.ready iterates.apart iterates.plain iterates.holds fun s before => ?_,
    small t early⟩
  rw [small s (before.le.trans early)]
  exact (more_iff covered iterates.bounded (before.le.trans early)).mpr (before.trans_le early)

theorem pushes_iff (iterates : run.Iterates lists) (covered : loop.Covered lists)
    (early : t ≤ loop.rounds lists) {b : Bool} : run.Pushes t b ↔ loop.more lists t = b := by
  obtain ⟨ready, same⟩ := iterates.ready covered early
  rw [Execution.Pushes, ready.pushes_iff iterates.apart, same]

theorem pushes_true (iterates : run.Iterates lists) (covered : loop.Covered lists)
    (early : t < loop.rounds lists) : run.Pushes t true :=
  (iterates.pushes_iff covered early.le).mpr
    ((more_iff covered iterates.bounded early.le).mpr early)

theorem pushes_false (iterates : run.Iterates lists) (covered : loop.Covered lists) :
    run.Pushes (loop.rounds lists) false := by
  refine (iterates.pushes_iff covered le_rfl).mpr (Bool.eq_false_iff.mpr fun left => ?_)
  exact Nat.lt_irrefl _ ((more_iff covered iterates.bounded le_rfl).mp left)

/-! ### What the steps assign -/

theorem value?_after (iterates : run.Iterates lists) (covered : loop.Covered lists)
    (distinct : loop.itemVars.Nodup) (early : t < loop.rounds lists)
    (paired : (l, items) ∈ loop.info.lists.zip lists) {j : Nat} {slot : UInt32}
    (named : l.varSlots[j]? = some slot) :
    loop.value? (run.after t) slot =
      some (items.getD (t * l.varSlots.length + j) Value.empty) := by
  obtain ⟨ready, same⟩ := iterates.ready covered early.le
  have left := (more_iff covered iterates.bounded early.le).mpr early
  have lengths := ready.holds.length_eq
  have here := (List.of_mem_zip paired).1
  have updated : loop.updates lists (Int64.ofInt t) =
      (loop.var loop.info.counterSlot, .ofInt64 (Int64.ofInt t)) ::
        loop.round t (loop.info.lists.zip lists) := by
    rw [updates, ← iteration, same, if_pos left]
  have once : ((loop.updates lists (Int64.ofInt t)).map Prod.fst).Nodup := by
    rw [updated, List.map_cons, round_vars lengths]
    exact List.nodup_cons.mpr ⟨iterates.apart.counter_item, distinct⟩
  have assigned : (loop.var slot, items.getD (t * l.varSlots.length + j) Value.empty) ∈
      loop.updates lists (Int64.ofInt t) := by
    rw [updated]
    refine List.mem_cons_of_mem _ (List.mem_flatMap.mpr ⟨(l, items), paired, ?_⟩)
    have inside : t * l.varSlots.length + j ≤ loop.rounds lists * l.varSlots.length := by
      have column : j < l.varSlots.length := (List.getElem?_eq_some_iff.mp named).1
      have groups : (t + 1) * l.varSlots.length ≤ loop.rounds lists * l.varSlots.length :=
        Nat.mul_le_mul_right _ early
      rw [Nat.succ_mul] at groups
      omega
    refine List.mem_map.mpr ⟨(slot, t * l.varSlots.length + j), ?_, ?_⟩
    · exact List.mk_add_mem_zipIdx_iff_getElem?.mpr named
    · rw [iterates.bounded.position_eq here inside]
  have plain := ready.plain slot (varSlot_mem here (List.mem_of_getElem? named))
  rw [Execution.after, Site.leaves, ready.perform iterates.apart]
  exact Store.scalar?_setScalars_of_mem once plain assigned

/-- The values that a list's variables go through are its items, filled up with empty texts. -/
theorem values_after (iterates : run.Iterates lists) (covered : loop.Covered lists)
    (distinct : loop.itemVars.Nodup) (paired : (l, items) ∈ loop.info.lists.zip lists) :
    ((List.range (loop.rounds lists)).flatMap fun t =>
        l.varSlots.map (loop.value? (run.after t))) =
      (items ++ List.replicate (loop.rounds lists * l.varSlots.length - items.length)
        Value.empty).map some := by
  have enough : items.length ≤ loop.rounds lists * l.varSlots.length := by
    refine Nat.le_of_not_lt fun left => Nat.lt_irrefl (loop.rounds lists)
      ((more_iff covered iterates.bounded le_rfl).mp ?_)
    refine List.any_eq_true.mpr ⟨(l, items), paired, decide_eq_true ?_⟩
    rwa [iterates.bounded.position_eq (List.of_mem_zip paired).1 le_rfl]
  have group : ∀ t ∈ List.range (loop.rounds lists),
      l.varSlots.map (loop.value? (run.after t)) = (List.range l.varSlots.length).map fun j =>
        some (items.getD (t * l.varSlots.length + j) Value.empty) := by
    intro t early
    refine List.ext_getElem (by simp) fun j inside _ => ?_
    rw [List.getElem_map, List.getElem_map, List.getElem_range]
    refine iterates.value?_after covered distinct (List.mem_range.mp early) paired ?_
    exact List.getElem?_eq_getElem (by simpa using inside)
  rw [List.flatMap_congr group, flatMap_range_groups _ _ fun i => some (items.getD i Value.empty),
    ← map_getD_range items Value.empty enough, List.map_map]
  rfl

end Execution.Iterates

/-- A loop whose lists all have variables tells its body to run as many times as it has rounds, and
then its end. In each round the variables hold the next items of their list, or the empty text past
its end; so they go through all items in order. -/
theorem items_assigned_in_rounds (loop : ForeachLoop) (run : loop.Execution)
    (lists : List (List Value)) (iterates : run.Iterates lists) (distinct : loop.itemVars.Nodup)
    (grouped : ∀ l ∈ loop.info.lists, l.varSlots ≠ []) :
    run.start.Completes run.initial run.initial.stack ∧
      (∀ t < loop.rounds lists, run.Pushes t true) ∧ run.Pushes (loop.rounds lists) false ∧
      ∀ l items, (l, items) ∈ loop.info.lists.zip lists →
        (∀ t < loop.rounds lists, ∀ j slot, l.varSlots[j]? = some slot →
          loop.value? (run.after t) slot =
            some (items.getD (t * l.varSlots.length + j) Value.empty)) ∧
        ((List.range (loop.rounds lists)).flatMap fun t =>
            l.varSlots.map (loop.value? (run.after t))) =
          (items ++ List.replicate (loop.rounds lists * l.varSlots.length - items.length)
            Value.empty).map some := by
  have covered : loop.Covered lists := fun p paired none =>
    absurd none (grouped p.1 (List.of_mem_zip paired).1)
  refine ⟨?_, fun t early => iterates.pushes_true covered early, iterates.pushes_false covered, ?_⟩
  · rw [Site.Completes, Site.leaves, run.start.perform_start iterates.plain]
    exact ⟨rfl, rfl⟩
  · intro l items paired
    exact ⟨fun t early j slot named => iterates.value?_after covered distinct early paired named,
      iterates.values_after covered distinct paired⟩

/-! ### Loops without a body -/

/-- An instruction of the loop in a frame of its unit. -/
def Site.alone (loop : ForeachLoop) (op : Opcode) : loop.Site op where
  invoke _ := pure Value.empty
  frame := { unit := loop.unit, base := 0, slots := loop.slots }
  pc := 0
  instruction := ⟨op, [loop.index]⟩
  inside := ⟨rfl, rfl⟩
  opcode := rfl
  index := Int.toNat_natCast _

/-- The execution of a loop with nothing between its instructions. -/
def Execution.idle (loop : ForeachLoop) (m : Machine) : loop.Execution where
  initial := m
  start := .alone loop .foreachStart4
  steps _ := .alone loop .foreachStep4
  before t := (Site.alone loop .foreachStep4).leaves^[t]
    ((Site.alone loop .foreachStart4).leaves m)
  first := .refl _
  next t _ := by
    rw [Function.iterate_succ_apply']
    exact .refl _

/-- A loop over two lists: pairs of items of the first, and single items of the second. -/
def pairing : ForeachLoop where
  unit := { foreachInfos := [⟨0, [⟨1, [2, 3]⟩, ⟨4, [5]⟩]⟩] }
  slots := [0, 1, 2, 3, 4, 5]
  index := 0
  info := ⟨0, [⟨1, [2, 3]⟩, ⟨4, [5]⟩]⟩
  found := rfl
  bound := by simp [Verifier.foreachSlots]

/-- The loop over three numbers and a text. -/
def pairingRun : pairing.Execution :=
  .idle pairing
    { store := { current := .ofVars [{ name := "n" },
      { name := "list", binding := .scalar (.list [.int 1, .int 2, .int 3]) },
      { name := "k" }, { name := "v" },
      { name := "text", binding := .scalar (.text "x") }, { name := "w" }] (by decide) } }

theorem pairing_iterates :
    pairingRun.Iterates [[.int 1, .int 2, .int 3], [.text "x"]] where
  apart := ⟨by decide, by decide, by decide⟩
  plain := by
    simp only [Plain, Verifier.foreachSlots, pairing, List.flatMap_cons, List.flatMap_nil,
      List.cons_append, List.nil_append, List.forall_mem_cons]
    exact ⟨⟨_, rfl, rfl, nofun⟩, ⟨_, rfl, rfl, nofun⟩, ⟨_, rfl, rfl, nofun⟩, ⟨_, rfl, rfl, nofun⟩,
      ⟨_, rfl, rfl, nofun⟩, ⟨_, rfl, rfl, nofun⟩, nofun⟩
  holds := .cons ⟨_, rfl, rfl⟩ (.cons ⟨_, rfl, by cbv⟩ .nil)
  short := by decide
  bounded := by decide

theorem pairing_items_assigned :
    (pairingRun.Pushes 0 true ∧ pairingRun.Pushes 1 true ∧ pairingRun.Pushes 2 false) ∧
      ((List.range 2).flatMap fun t => [2, 3].map (pairing.value? (pairingRun.after t))) =
        [some (.int 1), some (.int 2), some (.int 3), some Value.empty] ∧
      ((List.range 2).flatMap fun t => [5].map (pairing.value? (pairingRun.after t))) =
        [some (.text "x"), some Value.empty] := by
  obtain ⟨-, during, last, values⟩ := items_assigned_in_rounds pairing pairingRun _
    pairing_iterates (by decide) (by decide)
  have two : pairing.rounds [[.int 1, .int 2, .int 3], [.text "x"]] = 2 := rfl
  rw [two] at during last values
  have pairs := values ⟨1, [2, 3]⟩ [.int 1, .int 2, .int 3] List.mem_cons_self
  have singles := values ⟨4, [5]⟩ [.text "x"] (List.mem_cons_of_mem _ List.mem_cons_self)
  exact ⟨⟨during 0 (by decide), during 1 (by decide), last⟩, pairs.2, singles.2⟩

end CommandVM.ForeachLoop
