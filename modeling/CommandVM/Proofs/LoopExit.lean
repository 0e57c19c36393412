import CommandVM.Proofs.AssignedDepth

/-!
# Loop exits

The third pass checks the exits of a loop against the depth at the start of its range, and skips
them if it never came there. So an exit of a frame that has entered no handler lands at the assigned
depth exactly if the depths assigned to the instruction and to the target agree, which they do when
the start of the range is reached.
-/

namespace CommandVM

open Verifier (Accepted Layout assigned)

/-- The depth assigned to the target of a loop exit is what the instruction at `pc` leaves of its
own assigned depth without its operands. -/
def Verifier.exitFits (u : CompiledUnit) (pc : Nat) (target : UInt32) : Bool :=
  match Instruction.decodeAt u.code pc, assigned u pc, assigned u target.toNat with
  | .ok i, some depth, some landing => landing == depth - i.pops
  | _, _, _ => false

variable {u : CompiledUnit} {l : Layout} {invoke : Invoke} {m m' : Machine} {c c' : Moment}
  {move : Move} {past : List (Moment × Move)} {r : ExceptionRange} {target : UInt32}

theorem Verifier.exitFits_iff {pc : Nat} {i : Instruction} {depth : Nat}
    (decoded : Instruction.decodeAt u.code pc = .ok i) (level : assigned u pc = some depth) :
    exitFits u pc target = true ↔ assigned u target.toNat = some (depth - i.pops) := by
  cases lands : assigned u target.toNat with
  | none => simp [exitFits, lands]
  | some landing => simp [exitFits, decoded, level, lands]

/-- A loop exit from the assigned depth lands at the assigned depth if the two fit. -/
theorem Moment.Moves.exit_level_iff (h : Accepted u l) (keeping : Frame.Keeping invoke)
    (reached : Run invoke u m past c) (level : c.Level u)
    (moved : c.Moves invoke (.exit r target) c') :
    c'.Level u ↔ Verifier.exitFits u c.pc target = true := by
  cases moved with
  | exit throws route dropped =>
    obtain ⟨s, same, depth⟩ := reached.exit_drops h keeping level throws route
    rw [dropped] at same
    cases same
    have decoded := throws.decoded
    rw [reached.serves.unit] at decoded
    rw [Verifier.exitFits_iff decoded level, ← depth]
    exact Iff.rfl

theorem Moment.Moves.exit_fits (h : Accepted u l) (reached : Run invoke u m past c)
    (level : c.Level u) (moved : c.Moves invoke (.exit r target) c')
    (entered : (assigned u r.start.toNat).isSome = true) :
    Verifier.exitFits u c.pc target = true := by
  cases moved with
  | exit throws route _ =>
    obtain ⟨start, entered⟩ := Option.isSome_iff_exists.mp entered
    have decoded := throws.decoded
    rw [reached.serves.unit] at decoded
    rw [Verifier.exitFits_iff decoded level]
    exact reached.exit_level h level throws route entered

/-! ### Whole runs -/

/-- No handler was entered in the run. -/
def Uncaught (past : List (Moment × Move)) : Prop :=
  ∀ step ∈ past, ∀ r target, step.2 ≠ .handler r target

/-- Every loop exit among the transitions has the property. -/
def Exits (past : List (Moment × Move)) (c : Moment)
    (holds : Transition → ExceptionRange → UInt32 → Prop) : Prop :=
  ∀ t ∈ transitions past c, ∀ r target, t.move = .exit r target → holds t r target

theorem Exits.tail {holds : Transition → ExceptionRange → UInt32 → Prop}
    (exits : Exits ((c, move) :: past) c' holds) : Exits past c holds :=
  fun t member => exits t (List.mem_cons_of_mem _ member)

theorem Exits.head {holds : Transition → ExceptionRange → UInt32 → Prop}
    (exits : Exits ((c, .exit r target) :: past) c' holds) :
    holds ⟨c, .exit r target, c'⟩ r target :=
  exits _ List.mem_cons_self r target rfl

theorem Exits.nil {holds : Transition → ExceptionRange → UInt32 → Prop} : Exits [] c holds := by
  intro t member
  cases member

theorem Exits.cons {holds : Transition → ExceptionRange → UInt32 → Prop}
    (exits : Exits past c holds)
    (last : ∀ r target, move = .exit r target → holds ⟨c, move, c'⟩ r target) :
    Exits ((c, move) :: past) c' holds := by
  intro t member
  rcases List.mem_cons.mp member with rfl | earlier
  · exact last
  · exact exits t earlier

theorem Uncaught.tail (uncaught : Uncaught ((c, move) :: past)) : Uncaught past :=
  fun step member => uncaught step (List.mem_cons_of_mem _ member)

/-- A run without handlers whose loop exits land at the assigned depths is at the assigned depth. -/
theorem Run.level_of_exits (h : Accepted u l) (keeping : Frame.Keeping invoke)
    (reached : Run invoke u m past c) (uncaught : Uncaught past)
    (exits : Exits past c fun t _ _ => t.after.Level u) : c.Level u := by
  refine reached.level_of_landed h keeping ?_
  intro t member jumped
  cases went : t.move with
  | next => exact absurd went jumped
  | exit r target => exact exits t member r target went
  | handler r target => exact absurd went (uncaught _ (mem_of_mem_transitions member) r target)

/-- Exits that fit land at the assigned depths. -/
theorem Run.exits_level (h : Accepted u l) (keeping : Frame.Keeping invoke)
    (reached : Run invoke u m past c) (uncaught : Uncaught past)
    (fits : Exits past c fun t _ target => Verifier.exitFits u t.before.pc target = true) :
    Exits past c fun t _ _ => t.after.Level u := by
  induction reached with
  | enter => exact .nil
  | go before moved ih =>
    have earlier := ih uncaught.tail fits.tail
    refine earlier.cons ?_
    rintro r target rfl
    have level := before.level_of_exits h keeping uncaught.tail earlier
    exact (moved.exit_level_iff h keeping before level).mpr fits.head

/-- Exits that land at the assigned depths fit. -/
theorem Run.exits_fit (h : Accepted u l) (keeping : Frame.Keeping invoke)
    (reached : Run invoke u m past c) (uncaught : Uncaught past)
    (exits : Exits past c fun t _ _ => t.after.Level u) :
    Exits past c fun t _ target => Verifier.exitFits u t.before.pc target = true := by
  induction reached with
  | enter => exact .nil
  | go before moved ih =>
    refine (ih uncaught.tail exits.tail).cons ?_
    rintro r target rfl
    have level := before.level_of_exits h keeping uncaught.tail exits.tail
    exact (moved.exit_level_iff h keeping before level).mp exits.head

/-- Exits of ranges that the third pass entered at their start fit. -/
theorem Run.entered_exits_fit (h : Accepted u l) (keeping : Frame.Keeping invoke)
    (reached : Run invoke u m past c) (uncaught : Uncaught past)
    (entered : Exits past c fun _ r _ => (assigned u r.start.toNat).isSome = true) :
    Exits past c fun t _ target => Verifier.exitFits u t.before.pc target = true := by
  induction reached with
  | enter => exact .nil
  | go before moved ih =>
    have earlier := ih uncaught.tail entered.tail
    refine earlier.cons ?_
    rintro r target rfl
    have exits := before.exits_level h keeping uncaught.tail earlier
    have level := before.level_of_exits h keeping uncaught.tail exits
    exact moved.exit_fits h before level entered.head

theorem Run.exit_pc (reached : Run invoke u m past c) :
    Exits past c fun t _ target => t.after.pc = target.toNat := by
  induction reached with
  | enter => exact .nil
  | go before moved ih =>
    refine ih.cons ?_
    rintro r target rfl
    cases moved with
    | exit _ _ _ => rfl

/-- In a run that entered no handler, the loop exits land at depths assigned to their targets
exactly if each fits the depths that were assigned. They do when the third pass came to the start of
each range that is left. -/
theorem loop_exits_land_iff (accepted : Verifier.accepts u = true) (fuel level : Nat)
    (reached : Run (fun argv => invokeTo fuel level argv none) u m past c)
    (uncaught : Uncaught past) :
    ((Exits past c fun t _ target => assigned u target.toNat = some t.after.machine.stack.depth) ↔
      Exits past c fun t _ target => Verifier.exitFits u t.before.pc target = true) ∧
    ((Exits past c fun _ r _ => (assigned u r.start.toNat).isSome = true) →
      Exits past c fun t _ target =>
        assigned u target.toNat = some t.after.machine.stack.depth) := by
  obtain ⟨l, h⟩ := Verifier.accepted_of_accepts accepted
  have keeping := invokeTo_keeping fuel level
  have land : (Exits past c fun t _ target =>
      assigned u target.toNat = some t.after.machine.stack.depth) ↔
      Exits past c fun t _ _ => t.after.Level u := by
    have pc := reached.exit_pc
    constructor
    · intro exits t member r target exit
      rw [Moment.Level, pc t member r target exit]
      exact exits t member r target exit
    · intro exits t member r target exit
      rw [← pc t member r target exit]
      exact exits t member r target exit
  have back (fits : Exits past c fun t _ target =>
      Verifier.exitFits u t.before.pc target = true) :=
    land.mpr (reached.exits_level h keeping uncaught fits)
  refine ⟨⟨?_, back⟩, ?_⟩
  · intro exits
    exact reached.exits_fit h keeping uncaught (land.mp exits)
  · intro entered
    exact back (reached.entered_exits_fit h keeping uncaught entered)

theorem leavingLoop_exit_lands :
    Verifier.accepts leavingLoop = true ∧ ∃ past c,
      Run (fun argv => invokeTo 0 0 argv none) leavingLoop {} past c ∧ Uncaught past ∧ c.pc = 1 ∧
      Exits past c fun t _ target =>
        assigned leavingLoop target.toNat = some t.after.machine.stack.depth := by
  have accepted : Verifier.accepts leavingLoop = true := by decide
  let entry := Moment.start leavingLoop {}
  have left : entry.Moves (fun argv => invokeTo 0 0 argv none)
      (.exit ⟨.loop, 0, 0, 1, some 1, none, none⟩ 1) ⟨entry.frame, 1, entry.machine⟩ :=
    .exit (i := ⟨.breakLoop, []⟩) (e := .complete .breakLoop Value.empty) (m := entry.machine)
      ⟨rfl, rfl, rfl⟩ rfl rfl
  have reached := Run.go .enter left
  have uncaught : Uncaught [(entry, .exit ⟨.loop, 0, 0, 1, some 1, none, none⟩ 1)] := by
    intro step member r target
    rw [List.mem_singleton.mp member]
    exact Move.noConfusion
  refine ⟨accepted, _, _, reached, uncaught, rfl, ?_⟩
  apply (loop_exits_land_iff accepted 0 0 reached uncaught).2
  refine Exits.nil.cons ?_
  intro r target same
  cases same
  decide

/-- A loop that is entered past the start of its range, with a value on the stack. -/
def sideEntry : CompiledUnit :=
  { code := [0x01, 0x00, 0x29, 0x06, 0x27, 0x07, 0x01, 0x01, 0x01, 0x01, 0x46, 0x01, 0x02, 0x00]
    literals := [.text "1", .text "x", .text "ok"]
    ranges := [⟨.loop, 0, 6, 5, some 11, none, none⟩]
    maxStack := 1 }

theorem sideEntry_exit_too_deep :
    Verifier.accepts sideEntry = true ∧ ∃ past c,
      Run (fun argv => invokeTo 0 0 argv none) sideEntry {} past c ∧ Uncaught past ∧
      c.pc = 11 ∧ assigned sideEntry 11 = some 0 ∧ c.machine.stack.depth = 1 ∧
      ¬ Exits past c fun t _ target =>
        assigned sideEntry target.toNat = some t.after.machine.stack.depth := by
  let entry := Moment.start sideEntry {}
  let holding (v : Value) : Machine :=
    { entry.machine with stack := entry.machine.stack.push v }
  have pushed : entry.Moves (fun argv => invokeTo 0 0 argv none) .next
      ⟨entry.frame, 2, holding (.text "1")⟩ := .next (i := ⟨.push1, [0]⟩) rfl rfl
  have jumped : Moment.Moves (fun argv => invokeTo 0 0 argv none)
      ⟨entry.frame, 2, holding (.text "1")⟩ .next ⟨entry.frame, 8, entry.machine⟩ :=
    .next (i := ⟨.jumpTrue1, [6]⟩) rfl rfl
  have again : Moment.Moves (fun argv => invokeTo 0 0 argv none)
      ⟨entry.frame, 8, entry.machine⟩ .next ⟨entry.frame, 10, holding (.text "x")⟩ :=
    .next (i := ⟨.push1, [1]⟩) rfl rfl
  have left : Moment.Moves (fun argv => invokeTo 0 0 argv none)
      ⟨entry.frame, 10, holding (.text "x")⟩ (.exit ⟨.loop, 0, 6, 5, some 11, none, none⟩ 11)
      ⟨entry.frame, 11, holding (.text "x")⟩ :=
    .exit (i := ⟨.breakLoop, []⟩) (e := .complete .breakLoop Value.empty)
      (m := holding (.text "x")) ⟨rfl, rfl, rfl⟩ rfl rfl
  have reached := Run.go (.go (.go (.go .enter pushed) jumped) again) left
  have landing : assigned sideEntry 11 = some 0 := by decide
  refine ⟨by decide, _, _, reached, ?_, rfl, landing, rfl, ?_⟩
  · intro step member r target
    simp only [List.mem_cons, List.not_mem_nil, or_false] at member
    rcases member with rfl | rfl | rfl | rfl <;> exact Move.noConfusion
  · intro exits
    have deep : assigned sideEntry 11 = some 1 := exits.head
    rw [landing] at deep
    cases deep

end CommandVM
