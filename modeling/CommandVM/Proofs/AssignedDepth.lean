import CommandVM.Proofs.ControlSafety
import CommandVM.Proofs.Machine.Isolation
import CommandVM.Proofs.Verifier.Flow

/-!
# Frames at their assigned depth

What one move does to a frame whose stack is as deep as the third pass says: an instruction takes it
to the depth assigned to the next one, and so does a loop exit, if the pass came to the start of the
loop's range.
-/

namespace CommandVM

open Verifier (Accepted Layout Passes assigned)

variable {u : CompiledUnit} {l : Layout} {invoke : Invoke} {m m' : Machine} {c c' : Moment}
  {move : Move} {past : List (Moment × Move)} {i : Instruction} {e : Exception}
  {r : ExceptionRange} {target : UInt32}

/-- The stack of the frame is as deep as the third pass says for its instruction. -/
def Moment.Level (u : CompiledUnit) (c : Moment) : Prop :=
  assigned u c.pc = some c.machine.stack.depth

/-! ### The range of a loop exit -/

theorem Frame.perform_exits {f : Frame} {pc : Nat} {exit : LoopExit}
    (raised : f.perform invoke pc i m = (.error (.exception e), m'))
    (asks : e.code.loopExit? = some exit) :
    (i.opcode = .breakLoop ∧ exit = .breakLoop) ∨
      (i.opcode = .continueLoop ∧ exit = .continueLoop) ∨ i.opcode.invokes = true := by
  have outcome := f.perform_performs invoke pc i m
  rw [raised] at outcome
  cases outcome with
  | raises allowed _ =>
    cases allowed with
    | ordinary ordinary =>
      rw [ordinary.2] at asks
      cases asks
    | missing _ stays =>
      rw [stays] at asks
      cases asks
    | breakLoop op same =>
      rw [same] at asks
      cases asks
      exact .inl ⟨op, rfl⟩
    | continueLoop op same =>
      rw [same] at asks
      cases asks
      exact .inr (.inl ⟨op, rfl⟩)
  | strays _ _ _ => cases asks
  | fails invokes _ => exact .inr (.inr invokes)

/-- An instruction whose exception leaves a loop is one that the third pass checks as an exit of
the same range. -/
theorem Moment.Throws.exitRange (throws : c.Throws invoke i e m')
    (route : c.frame.route c.pc e = .exit r target) :
    r ∈ c.frame.unit.ranges ∧ r.kind = .loop ∧
      (r.breakTarget = some target ∨ r.continueTarget = some target) ∧
      ∃ range, Verifier.exitRange? c.frame.unit c.pc i = some (r, range) := by
  obtain ⟨innermost, kind, exit, asks, leads⟩ := Frame.route_exit route
  have targets : r.breakTarget = some target ∨ r.continueTarget = some target := by
    cases exit with
    | breakLoop => exact .inl leads
    | continueLoop => exact .inr leads
  refine ⟨(Frame.innermost?_mem innermost).1, kind, targets, ?_⟩
  have last : (c.frame.unit.ranges.filter fun r => r.contains c.pc).getLast? = some r := by
    simpa [Frame.innermost?] using innermost
  refine Verifier.exitRange?_iff.mpr ⟨last, kind, ?_⟩
  rcases Frame.perform_exits throws.raised asks with ⟨op, rfl⟩ | ⟨op, rfl⟩ | invokes
  · have has : r.breakTarget = some target := leads
    simp [op, has]
  · have has : r.continueTarget = some target := leads
    simp [op, has]
  · obtain ⟨op, operands⟩ := i
    cases op <;> first | cases invokes; done | skip
    all_goals rcases targets with has | has <;> simp [has]

/-! ### One move -/

/-- The instruction at a moment, with the depths that it passes on. -/
theorem Run.passes (h : Accepted u l) (reached : Run invoke u m past c) (level : c.Level u)
    (decoded : Instruction.decodeAt c.frame.unit.code c.pc = .ok i) :
    l.instruction? c.pc = some i ∧ Passes u (assigned u) c.pc i c.machine.stack.depth := by
  obtain ⟨j, here, passes⟩ := h.assigned_passes level
  rw [reached.serves.unit, Verifier.decodeAt_of_instruction? h.layout here] at decoded
  cases decoded
  exact ⟨here, passes⟩

/-- An instruction that is performed leads to the assigned depth. -/
theorem Run.next_level (h : Accepted u l) (keeping : Frame.Keeping invoke)
    (reached : Run invoke u m past c) (level : c.Level u) {pc : Nat}
    (decoded : Instruction.decodeAt c.frame.unit.code c.pc = .ok i)
    (performed : c.frame.perform invoke c.pc i c.machine = (.ok (some pc), m')) :
    assigned u pc = some m'.stack.depth := by
  obtain ⟨_, passes⟩ := reached.passes h level decoded
  have follows := Frame.perform_follows performed
  have enough := passes.pops follows.ne_done
  have grounded := (reached.hosts keeping).stands.grounded
  rw [(Frame.perform_swaps keeping performed enough).depth grounded enough]
  rcases follows with ⟨goesOn, rfl⟩ | jumps
  · exact passes.next goesOn
  · exact passes.jump (Frame.Follows.ne_done (.inr jumps)) _ jumps

theorem Run.throws_pops (h : Accepted u l) (reached : Run invoke u m past c) (level : c.Level u)
    (throws : c.Throws invoke i e m') {exit : LoopExit} (asks : e.code.loopExit? = some exit) :
    i.pops ≤ c.machine.stack.depth := by
  refine (reached.passes h level throws.decoded).2.pops ?_
  intro done
  rcases Frame.perform_exits throws.raised asks with ⟨op, _⟩ | ⟨op, _⟩ | op <;> rw [done] at op <;>
    cases op

/-- A loop exit drops the operands of its instruction. -/
theorem Run.exit_drops (h : Accepted u l) (keeping : Frame.Keeping invoke)
    (reached : Run invoke u m past c) (level : c.Level u) (throws : c.Throws invoke i e m')
    (route : c.frame.route c.pc e = .exit r target) :
    ∃ s, m'.stack.discard i.pops = .ok s ∧ s.depth = c.machine.stack.depth - i.pops := by
  obtain ⟨_, _, exit, asks, _⟩ := Frame.route_exit route
  have enough := reached.throws_pops h level throws asks
  have grounded := (reached.hosts keeping).stands.grounded
  rw [(Frame.perform_raised keeping throws.raised).stack]
  refine ⟨_, Stack.discard_eq enough, ?_⟩
  simp only [Stack.depth, Stack.height, List.length_drop] at *
  omega

/-- The target of a loop exit has the depth that the exit leaves, if the third pass came to the
start of the range. -/
theorem Run.exit_level (h : Accepted u l) (reached : Run invoke u m past c) (level : c.Level u)
    (throws : c.Throws invoke i e m')
    (route : c.frame.route c.pc e = .exit r target) {start : Nat}
    (entered : assigned u r.start.toNat = some start) :
    assigned u target.toNat = some (c.machine.stack.depth - i.pops) := by
  obtain ⟨here, _⟩ := reached.passes h level throws.decoded
  obtain ⟨member, kind, targets, range, leaves⟩ := throws.exitRange route
  rw [reached.serves.unit] at member leaves
  have left := h.exit_depth here leaves level entered
  obtain ⟨_, _, passes⟩ := h.assigned_passes entered
  rw [left]
  exact passes.loop r member kind rfl target targets

/-! ### Landings -/

theorem Moment.start_level (h : Accepted u l) : (start u m).Level u := by
  have zero : (start u m).machine.stack.depth = 0 := Nat.sub_self _
  exact h.assigned_zero.trans (congrArg some zero.symm)

/-- A move with the moments before and after it. -/
structure Transition where
  before : Moment
  move : Move
  after : Moment

/-- The transitions of a run. -/
def transitions : List (Moment × Move) → Moment → List Transition
  | [], _ => []
  | (b, move) :: past, c => ⟨b, move, c⟩ :: transitions past b

theorem mem_of_mem_transitions {t : Transition} (member : t ∈ transitions past c) :
    (t.before, t.move) ∈ past := by
  induction past generalizing c with
  | nil => cases member
  | cons step past ih =>
    rcases List.mem_cons.mp member with rfl | earlier
    · exact List.mem_cons_self
    · exact List.mem_cons_of_mem _ (ih earlier)

/-- The loop exits and the handlers of the run were entered at the assigned depth. -/
def Landed (u : CompiledUnit) (past : List (Moment × Move)) (c : Moment) : Prop :=
  ∀ t ∈ transitions past c, t.move ≠ .next → t.after.Level u

theorem Landed.tail (landed : Landed u ((c, move) :: past) c') : Landed u past c :=
  fun t member => landed t (List.mem_cons_of_mem _ member)

/-- A run is at the assigned depth if its exceptions have led to the assigned depths. -/
theorem Run.level_of_landed (h : Accepted u l) (keeping : Frame.Keeping invoke)
    (reached : Run invoke u m past c) (landed : Landed u past c) : c.Level u := by
  induction reached with
  | enter => exact Moment.start_level h
  | @go past c c' move before moved ih =>
    have last := landed ⟨c, move, c'⟩ List.mem_cons_self
    cases moved with
    | next decoded performed =>
      exact before.next_level h keeping (ih landed.tail) decoded performed
    | exit _ _ _ | handler _ _ _ => exact last Move.noConfusion

/-! ### One dispatch -/

theorem Run.floor_eq (keeping : Frame.Keeping invoke) (reached : Run invoke u m past c) :
    c.machine.stack.floor = c.frame.base :=
  (reached.hosts keeping).stands.1.trans reached.serves.base.symm

/-- A frame can always be left. -/
theorem Run.leaves (keeping : Frame.Keeping invoke) (reached : Run invoke u m past c)
    (gaveUp : c.GivesUp invoke e m') : ∃ s, m'.stack.truncate c.frame.base = .ok s := by
  have hosts := gaveUp.hosts keeping (reached.hosts keeping)
  have low : m'.stack.floor = c.frame.base := hosts.stands.1.trans reached.serves.base.symm
  rw [← low]
  exact ⟨_, Stack.truncate_eq (Nat.le_refl _) hosts.stands.grounded⟩

/-- At the assigned depth only a handler or an invoked command can violate the bounds of the
stack. -/
theorem Run.dispatch_sound (h : Accepted u l) (keeping : Frame.Keeping invoke)
    (reached : Run invoke u m past c) (level : c.Level u) {v : Violation}
    (violated : c.frame.dispatch invoke c.pc c.machine = (.error (.violation v), m')) :
    (∃ argv, invoke argv c.machine = (.error (.violation v), m')) ∨
    ∃ i e r target saved, c.Throws invoke i e m' ∧
      c.frame.route c.pc e = .handler r target saved ∧ m'.stack.truncate saved = .error v := by
  have dispatched := Moment.dispatch_dispatches invoke c
  rw [violated] at dispatched
  cases dispatched with
  | @stops i _ _ decoded performed _ =>
    have passes := (reached.passes h level decoded).2
    have outcome := c.frame.perform_performs invoke c.pc i c.machine
    rw [performed] at outcome
    cases outcome with
    | @overdraws _ m₁ _ _ told suits goesOn failed =>
      have enough : i.pops ≤ m₁.stack.depth := by
        rw [(Frame.step_keeps keeping told).stack]
        exact passes.pops goesOn
      obtain ⟨s, done, _⟩ := suits.settles goesOn enough
      rw [failed] at done
      cases done
    | lacks few =>
      by_cases done : i.opcode = .done
      · have one : i.pops = 1 := by simp only [Instruction.pops, done]
        have depth := passes.done done
        omega
      · have enough := passes.pops done
        omega
    | fails _ ended => exact .inl ⟨_, ended⟩
  | @unbalanced i _ _ decoded performed depth =>
    have passes := (reached.passes h level decoded).2
    have outcome := c.frame.perform_performs invoke c.pc i c.machine
    rw [performed] at outcome
    cases outcome with
    | done op kept =>
      rw [kept.stack] at depth
      exact absurd (passes.done op) depth
  | misleaves gaveUp failed =>
    obtain ⟨s, cut⟩ := reached.leaves keeping gaveUp
    rw [cut] at failed
    cases failed
  | misexits throws route failed =>
    obtain ⟨s, dropped, _⟩ := reached.exit_drops h keeping level throws route
    rw [dropped] at failed
    cases failed
  | miscatches throws route failed => exact .inr ⟨_, _, _, _, _, throws, route, failed⟩

end CommandVM
