import CommandVM.Machine.Stack.Session
import CommandVM.Proofs.Machine.Perform

/-!
# Frames stay above their floors

An operation inside a frame works on the values of that frame alone. Marks may be used in any order:
each of them saves a floor that is not above its base, so the floor never rises above the stack. A
frame that is left before all older ones gives back the stack that it was entered on.
-/

namespace CommandVM.Stack

variable {s s' : Stack} {g g' : Session} {op : Op} {ops : List Op} {own low : List Value}
  {limit : Option Nat} {marks old : List FrameMark} {seen : List Value}

/-! ### Inside a frame -/

/-- The values below the floor. -/
def below (s : Stack) : List Value := s.slots.drop s.depth

/-- The values above the floor, put on other values than those below it. -/
def onto (s : Stack) (low : List Value) : Stack := { s with slots := s.slots.take s.depth ++ low }

/-- What an operation inside a frame does to the values of the frame. -/
def Op.inside (floor : Nat) (own : List Value) : Op → Except Violation (List Value × List Value)
  | .enter _ | .leave _ => .ok ([], own)
  | .push v => .ok ([], v :: own)
  | .pop => match own with
    | v :: own => .ok ([v], own)
    | [] => .error (.popAtBase floor)
  | .peekAt n => match own[n]? with
    | some v => .ok ([v], own)
    | none => .error (.peek n own.length)
  | .setTop v => match own with
    | _ :: own => .ok ([], v :: own)
    | [] => .error (.noTop floor)
  | .top n =>
    if own.length < n then .error (.operands n own.length) else .ok ((own.take n).reverse, own)
  | .discard n =>
    if own.length < n then .error (.discard n own.length) else .ok ([], own.drop n)
  | .truncate height =>
    if height < floor || own.length + floor < height then
      .error (.unwind height floor (own.length + floor))
    else .ok ([], own.drop (own.length + floor - height))

/-- A stack with some values above the floor and some below. -/
def raised (own low : List Value) (limit : Option Nat) : Stack := ⟨own ++ low, low.length, limit⟩

@[simp] theorem floor_raised : (raised own low limit).floor = low.length := rfl

@[simp] theorem height_raised : (raised own low limit).height = own.length + low.length :=
  List.length_append

@[simp] theorem depth_raised : (raised own low limit).depth = own.length := by
  rw [depth, height_raised, floor_raised, Nat.add_sub_cancel]

@[simp] theorem below_raised : (raised own low limit).below = low := by
  rw [below, depth_raised]
  exact List.drop_left

theorem onto_raised {other : List Value} (same : other.length = low.length) :
    (raised own low limit).onto other = raised own other limit := by
  simp [onto, raised, same, depth, height]

/-- A stack that reaches its floor consists of what is above and below it. -/
theorem eq_raised (grounded : s.floor ≤ s.height) :
    s = raised (s.slots.take s.depth) s.below s.limit := by
  have floor : s.below.length = s.floor := by
    simp only [below, List.length_drop, depth, height] at *
    omega
  rw [raised, floor, below, List.take_append_drop]

theorem peekAt_raised (n : Nat) : (raised own low limit).peekAt n =
    match own[n]? with
    | some v => .ok v
    | none => .error (.peek n own.length) := by
  unfold peekAt
  rw [depth_raised]
  by_cases inside : n < own.length
  · rw [if_pos inside]
    simp only [raised, List.getElem?_append_left inside, List.getElem?_eq_getElem inside]
  · rw [if_neg inside, List.getElem?_eq_none (Nat.le_of_not_lt inside)]

theorem pop_raised : (raised own low limit).pop =
    match own with
    | v :: own => .ok (v, raised own low limit)
    | [] => .error (.popAtBase low.length) := by
  unfold pop
  cases own with
  | nil =>
    split
    · rw [if_pos (by simp)]
      rfl
    · rfl
  | cons v own =>
    have shape : (raised (v :: own) low limit).slots = v :: (own ++ low) := rfl
    simp only [shape]
    rw [if_neg (by simp)]
    rfl

theorem setTop_raised (v : Value) : (raised own low limit).setTop v =
    match own with
    | _ :: own => .ok (raised (v :: own) low limit)
    | [] => .error (.noTop low.length) := by
  unfold setTop
  cases own with
  | nil =>
    split
    · rw [if_pos (by simp)]
      rfl
    · rfl
  | cons w own =>
    have shape : (raised (w :: own) low limit).slots = w :: (own ++ low) := rfl
    simp only [shape]
    rw [if_neg (by simp)]
    rfl

theorem cut_raised {height : Nat} (above : low.length ≤ height) :
    (raised own low limit).cut height =
      raised (own.drop (own.length + low.length - height)) low limit := by
  rw [cut, height_raised]
  unfold raised
  dsimp only
  rw [List.drop_append_of_le_length (by omega)]

/-- Inside a frame an operation works on the values of the frame, whatever is below. -/
theorem apply_raised (inner : op.isInner = true) :
    Session.apply ⟨raised own low limit, marks⟩ op = (op.inside low.length own).map fun r =>
      (r.1, ⟨raised r.2 low limit, marks⟩) := by
  cases op with
  | enter | leave => cases inner
  | push v => rfl
  | pop =>
    simp only [Session.apply, pop_raised, Op.inside]
    cases own <;> rfl
  | peekAt n =>
    simp only [Session.apply, peekAt_raised, Op.inside]
    cases own[n]? <;> rfl
  | setTop v =>
    simp only [Session.apply, setTop_raised, Op.inside]
    cases own <;> rfl
  | top n =>
    simp only [Session.apply, top, depth_raised, Op.inside]
    split
    · rfl
    · rename_i enough
      simp only [raised, List.take_append_of_le_length (Nat.le_of_not_lt enough)]
      rfl
  | discard n =>
    simp only [Session.apply, discard, depth_raised, Op.inside]
    split
    · rfl
    · rename_i enough
      simp only [raised, List.drop_append_of_le_length (Nat.le_of_not_lt enough)]
      rfl
  | truncate height =>
    simp only [Session.apply, Op.inside]
    by_cases outside : height < low.length ∨ own.length + low.length < height
    · have refused : (raised own low limit).truncate height =
          .error (.unwind height low.length (own.length + low.length)) := by
        have beyond : height < (raised own low limit).floor ∨
            (raised own low limit).height < height := by rwa [floor_raised, height_raised]
        rw [truncate, if_pos (by simpa only [Bool.or_eq_true, decide_eq_true_eq] using beyond),
          height_raised]
        rfl
      rw [refused, if_pos (by simpa using outside)]
      rfl
    · have shortened : (raised own low limit).truncate height =
          .ok ((raised own low limit).cut height) :=
        truncate_eq (by rw [floor_raised]; omega) (by rw [height_raised]; omega)
      rw [shortened, if_neg (by simpa using outside), cut_raised (by omega)]
      rfl

/-! ### Sessions inside a frame -/

/-- The session with other values below the floor. -/
def Session.onto (g : Session) (low : List Value) : Session := { g with stack := g.stack.onto low }

/-- What operations inside a frame do to its values, one after the other. -/
def insideAll (floor : Nat) (own : List Value) :
    List Op → Except Violation (List (List Value) × List Value)
  | [] => .ok ([], own)
  | op :: ops => do
    let (seen, own) ← op.inside floor own
    let (more, own) ← insideAll floor own ops
    return (seen :: more, own)

theorem run_raised (inner : ∀ op ∈ ops, op.isInner = true) :
    Session.run ⟨raised own low limit, marks⟩ ops = (insideAll low.length own ops).map fun r =>
      (r.1, ⟨raised r.2 low limit, marks⟩) := by
  induction ops generalizing own with
  | nil => rfl
  | cons op ops ih =>
    obtain ⟨here, later⟩ := List.forall_mem_cons.mp inner
    rw [Session.run, insideAll, apply_raised here]
    cases op.inside low.length own with
    | error v => rfl
    | ok r =>
      simp only [Except.map, bind, Except.bind, ih later]
      cases insideAll low.length r.2 ops <;> rfl

theorem Session.run_inner (grounded : g.stack.floor ≤ g.stack.height)
    (inner : ∀ op ∈ ops, op.isInner = true) (same : low.length = g.stack.floor) :
    (g.onto low).run ops = (g.run ops).map fun r => (r.1, r.2.onto low) := by
  obtain ⟨s, marks⟩ := g
  have shape := eq_raised grounded
  generalize s.slots.take s.depth = own, s.below = bottom, s.limit = limit at shape
  subst shape
  have low_length : low.length = bottom.length := same
  have moved : (Session.mk (raised own bottom limit) marks).onto low =
      ⟨raised own low limit, marks⟩ := congrArg (Session.mk · marks) (onto_raised low_length)
  rw [moved, run_raised inner, run_raised inner, low_length]
  cases insideAll bottom.length own ops with
  | error v => rfl
  | ok r => exact congrArg (fun s => Except.ok (r.1, Session.mk s marks)) (onto_raised low_length).symm

theorem Session.run_inner_keeps {all : List (List Value)}
    (grounded : g.stack.floor ≤ g.stack.height) (inner : ∀ op ∈ ops, op.isInner = true)
    (ran : g.run ops = .ok (all, g')) :
    g'.stack.floor = g.stack.floor ∧ g'.stack.below = g.stack.below := by
  obtain ⟨s, marks⟩ := g
  have shape := eq_raised grounded
  generalize s.slots.take s.depth = own, s.below = bottom, s.limit = limit at shape
  subst shape
  rw [run_raised inner] at ran
  cases acted : insideAll bottom.length own ops with
  | error v =>
    rw [acted] at ran
    cases ran
  | ok r =>
    rw [acted] at ran
    cases ran
    exact ⟨rfl, by simp⟩

/-! ### Marks in any order -/

namespace Session

/-- The session has not gone below the values `low`: the floor is not below them, and neither is the
floor that a mark made since saves. The marks in `old` are still live. -/
structure Within (old : List FrameMark) (low : List Value) (g : Session) : Prop where
  marks : ∃ young, g.marks = old ++ young ∧
    ∀ m ∈ young, low.length ≤ m.savedFloor ∧ m.savedFloor ≤ m.base
  above : low.length ≤ g.stack.floor
  grounded : g.stack.floor ≤ g.stack.height
  slots : low <:+ g.stack.slots

theorem within_empty : Within [] [] {} :=
  ⟨⟨[], rfl, by simp⟩, Nat.le_refl 0, Nat.le_refl 0, List.nil_suffix⟩

theorem Within.enter (inside : Within old low g) (maxDepth : Nat) :
    Within old low ⟨(g.stack.enter maxDepth).2, g.marks ++ [(g.stack.enter maxDepth).1]⟩ := by
  obtain ⟨young, listed, saved⟩ := inside.marks
  have above := inside.above
  have grounded := inside.grounded
  refine ⟨⟨young ++ [(g.stack.enter maxDepth).1], by rw [listed, List.append_assoc], ?_⟩, ?_,
    Nat.le_refl _, inside.slots⟩
  · intro m member
    rcases List.mem_append.mp member with earlier | new
    · exact saved m earlier
    · rw [List.mem_singleton.mp new]
      exact ⟨above, grounded⟩
  · exact Nat.le_trans above grounded

/-- The base of a mark made since is not below `low` either, so leaving by it keeps `low`. -/
theorem Within.leave (inside : Within old low g) {k : Nat} {mark : FrameMark}
    (recent : old.length ≤ k) (found : g.marks[k]? = some mark)
    (left : g.stack.leave mark = .ok s) : Within old low ⟨s, g.marks.eraseIdx k⟩ := by
  obtain ⟨young, listed, saved⟩ := inside.marks
  rw [listed, List.getElem?_append_right recent] at found
  obtain ⟨floor, base⟩ := saved mark (List.mem_of_getElem? found)
  unfold Stack.leave at left
  split at left
  · cases left
  · rename_i high
    cases left
    have height : (g.stack.cut mark.base).height = mark.base := cut_height (Nat.le_of_not_lt high)
    refine ⟨⟨young.eraseIdx (k - old.length), ?_, ?_⟩, floor, ?_, ?_⟩
    · rw [listed, List.eraseIdx_append_of_length_le recent]
    · intro m member
      exact saved m (List.mem_of_mem_eraseIdx member)
    · exact Nat.le_trans base (Nat.le_of_eq height.symm)
    · refine List.suffix_of_suffix_length_le inside.slots (List.drop_suffix _ _) ?_
      exact Nat.le_trans (Nat.le_trans floor base) (Nat.le_of_eq height.symm)

theorem Within.inner (inside : Within old low g) (inner : op.isInner = true)
    (applied : g.apply op = .ok (seen, g')) : Within old low g' := by
  obtain ⟨s, marks⟩ := g
  have above : low.length ≤ s.floor := inside.above
  have slots : low <:+ s.slots := inside.slots
  have shape := eq_raised inside.grounded
  generalize s.slots.take s.depth = own, s.below = bottom, s.limit = limit at shape
  subst shape
  rw [apply_raised inner] at applied
  cases acted : op.inside bottom.length own with
  | error v =>
    rw [acted] at applied
    cases applied
  | ok r =>
    rw [acted] at applied
    cases applied
    have kept : low <:+ bottom :=
      List.suffix_of_suffix_length_le slots (List.suffix_append _ _) above
    exact ⟨inside.marks, above, by simp, kept.trans (List.suffix_append _ _)⟩

theorem Within.apply (inside : Within old low g) (recent : ∀ k, op = .leave k → old.length ≤ k)
    (applied : g.apply op = .ok (seen, g')) : Within old low g' := by
  cases op with
  | enter maxDepth =>
    cases applied
    exact inside.enter maxDepth
  | leave k =>
    simp only [Session.apply] at applied
    cases found : g.marks[k]? with
    | none =>
      rw [found] at applied
      cases applied
      exact inside
    | some mark =>
      rw [found] at applied
      dsimp only at applied
      cases left : g.stack.leave mark with
      | error v =>
        rw [left] at applied
        cases applied
      | ok s =>
        rw [left] at applied
        cases applied
        exact inside.leave (recent k rfl) found left
  | _ => exact inside.inner rfl applied

theorem run_cons {all : List (List Value)} (ran : g.run (op :: ops) = .ok (all, g')) :
    ∃ seen more between, g.apply op = .ok (seen, between) ∧ between.run ops = .ok (more, g') ∧
      all = seen :: more := by
  rw [run] at ran
  cases first : g.apply op with
  | error v =>
    rw [first] at ran
    cases ran
  | ok r =>
    rw [first] at ran
    simp only [bind, Except.bind] at ran
    cases rest : r.2.run ops with
    | error v =>
      rw [rest] at ran
      cases ran
    | ok r' =>
      rw [rest] at ran
      cases ran
      exact ⟨r.1, r'.1, r.2, rfl, rest, rfl⟩

theorem Within.run {all : List (List Value)} (inside : Within old low g)
    (recent : ∀ k, .leave k ∈ ops → old.length ≤ k) (ran : g.run ops = .ok (all, g')) :
    Within old low g' := by
  induction ops generalizing g all with
  | nil =>
    cases ran
    exact inside
  | cons op ops ih =>
    obtain ⟨seen, more, between, first, rest, _⟩ := run_cons ran
    have next := inside.apply (fun k same => recent k (same ▸ List.mem_cons_self)) first
    exact ih next (fun k later => recent k (List.mem_cons_of_mem _ later)) rest

/-- Where no mark that is as old has been used since a frame was entered, leaving the frame gives
back the stack. -/
theorem Within.left {maxDepth : Nat}
    (inside : Within (g.marks ++ [(g.stack.enter maxDepth).1]) g.stack.slots g') :
    ∃ young, g'.apply (.leave g.marks.length) = .ok ([], ⟨g.stack, g.marks ++ young⟩) := by
  obtain ⟨young, listed, _⟩ := inside.marks
  have found : g'.marks[g.marks.length]? = some (g.stack.enter maxDepth).1 := by
    rw [listed, List.append_assoc, List.getElem?_append_right (Nat.le_refl _), Nat.sub_self]
    rfl
  obtain ⟨own, same⟩ := inside.slots
  have height : g'.stack.height = own.length + g.stack.height := by
    rw [Stack.height, ← same, List.length_append]
    rfl
  have kept : g'.stack.slots.drop (g'.stack.height - g.stack.height) = g.stack.slots := by
    rw [height, Nat.add_sub_cancel, ← same, List.drop_left]
  have left : g'.stack.leave (g.stack.enter maxDepth).1 = .ok g.stack := by
    simp only [Stack.leave, Stack.enter, if_neg (show ¬ g'.stack.height < g.stack.height by omega),
      Stack.cut, kept]
  have erased : g'.marks.eraseIdx g.marks.length = g.marks ++ young := by
    rw [listed, List.append_assoc, List.eraseIdx_append_of_length_le (Nat.le_refl _), Nat.sub_self]
    rfl
  refine ⟨young, ?_⟩
  simp only [Session.apply, found, left, erased]
  rfl

end Session

/-- In a session without a violation the floor is never above the stack. Operations that neither
enter nor leave a frame give the same answers and do the same to the values above the floor whatever
is below it, which they leave alone. A frame gives back the stack that it was entered on when it is
left before all marks that are older than its own. -/
theorem frames_stay_above_their_floors {all : List (List Value)}
    (ran : Session.run {} ops = .ok (all, g)) :
    (g.stack.floor ≤ g.stack.height ∧ g.stack.depth + g.stack.floor = g.stack.height) ∧
    (∀ inner, (∀ op ∈ inner, op.isInner = true) →
      (∀ low : List Value, low.length = g.stack.floor →
        (g.onto low).run inner = (g.run inner).map fun r => (r.1, r.2.onto low)) ∧
      ∀ seen g', g.run inner = .ok (seen, g') →
        g'.stack.floor = g.stack.floor ∧ g'.stack.below = g.stack.below) ∧
    ∀ maxDepth inner seen g', (∀ k, .leave k ∈ inner → g.marks.length < k) →
      g.run (.enter maxDepth :: inner) = .ok (seen, g') →
      ∃ young, g'.apply (.leave g.marks.length) = .ok ([], ⟨g.stack, g.marks ++ young⟩) := by
  have reached : Session.Within [] [] g :=
    Session.within_empty.run (fun k _ => Nat.zero_le k) ran
  have grounded := reached.grounded
  refine ⟨⟨grounded, by rw [depth]; omega⟩, ?_, ?_⟩
  · intro inner stays
    exact ⟨fun low same => Session.run_inner grounded stays same,
      fun seen g' went => Session.run_inner_keeps grounded stays went⟩
  · intro maxDepth inner seen g' recent went
    obtain ⟨_, more, between, entered, rest, _⟩ := Session.run_cons went
    cases entered
    have inside : Session.Within (g.marks ++ [(g.stack.enter maxDepth).1]) g.stack.slots
        ⟨(g.stack.enter maxDepth).2, g.marks ++ [(g.stack.enter maxDepth).1]⟩ :=
      ⟨⟨[], (List.append_nil _).symm, by simp⟩, Nat.le_refl _, Nat.le_refl _, List.suffix_rfl⟩
    refine (inside.run ?_ rest).left
    intro k member
    have later := recent k member
    simp only [List.length_append, List.length_singleton]
    omega

/-- Three frames on one value; the second is left before the third, which is left later. -/
def crossedOps : List Op :=
  [.push (.text "a"), .enter 2, .push (.text "b"), .enter 1, .enter 4, .leave 1, .push (.text "c"),
    .leave 1]

theorem crossedOps_stay_above :
    ∃ all g, Session.run {} crossedOps = .ok (all, g) ∧ g.stack.floor = 2 ∧ g.stack.height = 2 ∧
      g.marks.length = 1 ∧ g.stack.floor ≤ g.stack.height ∧
      ∃ seen g' young, g.run [.enter 1, .push (.text "d"), .enter 3, .leave 2, .pop] =
          .ok (seen, g') ∧
        g'.apply (.leave 1) = .ok ([], ⟨g.stack, g.marks ++ young⟩) := by
  refine ⟨_, _, rfl, rfl, rfl, rfl, ?_⟩
  obtain ⟨⟨low, _⟩, _, restores⟩ := frames_stay_above_their_floors
    (show Session.run {} crossedOps = .ok (_, _) from rfl)
  obtain ⟨young, left⟩ := restores 1 [.push (.text "d"), .enter 3, .leave 2, .pop] _ _
    (by simp) rfl
  exact ⟨low, _, _, young, rfl, left⟩

end CommandVM.Stack
