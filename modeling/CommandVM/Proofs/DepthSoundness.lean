import CommandVM.Proofs.AssignedDepth

/-!
# Units without handlers

A frame of an accepted unit that has only loop ranges, all of them entered at their start, has the
assigned depth at every dispatch. Nothing in it reaches below its floor, and neither does what it
invokes, if all units that commands execute are of this kind.
-/

namespace CommandVM

open Verifier (Accepted Layout assigned)

/-- The unit is accepted, its ranges are loops, and the third pass comes to the start of each. -/
structure LoopsOnly (u : CompiledUnit) : Prop where
  accepted : Verifier.accepts u = true
  loops : ∀ r ∈ u.ranges, r.kind = .loop
  entered : ∀ r ∈ u.ranges, (assigned u r.start.toNat).isSome = true

variable {u : CompiledUnit} {l : Layout} {invoke : Invoke} {m m' : Machine} {c c' : Moment}
  {move : Move} {past : List (Moment × Move)} {v : Violation}

theorem LoopsOnly.no_handler (looping : LoopsOnly u) (reached : Run invoke u m past c)
    {e : Exception} {r : ExceptionRange} {target : UInt32} {saved : Nat} :
    c.frame.route c.pc e ≠ .handler r target saved := by
  intro route
  obtain ⟨member, _, kind, _, _⟩ := Frame.route_handler route
  rw [reached.serves.unit] at member
  rw [looping.loops r member] at kind
  cases kind

theorem Moment.Moves.level (looping : LoopsOnly u) (h : Accepted u l)
    (keeping : Frame.Keeping invoke) (reached : Run invoke u m past c) (level : c.Level u)
    (moved : c.Moves invoke move c') : c'.Level u := by
  cases moved with
  | next decoded performed => exact reached.next_level h keeping level decoded performed
  | exit throws route dropped =>
    obtain ⟨member, _⟩ := throws.exitRange route
    rw [reached.serves.unit] at member
    obtain ⟨start, entered⟩ := Option.isSome_iff_exists.mp (looping.entered _ member)
    obtain ⟨s, same, depth⟩ := reached.exit_drops h keeping level throws route
    rw [dropped] at same
    cases same
    have lands := reached.exit_level h level throws route entered
    rw [← depth] at lands
    exact lands
  | handler _ route _ => exact absurd route (looping.no_handler reached)

theorem Run.level (looping : LoopsOnly u) (keeping : Frame.Keeping invoke)
    (reached : Run invoke u m past c) : c.Level u := by
  obtain ⟨l, h⟩ := Verifier.accepted_of_accepts looping.accepted
  induction reached with
  | enter => exact Moment.start_level h
  | go before moved ih => exact moved.level looping h keeping before ih

/-- As long as its calls stay within the bounds of the stack, so does the frame. -/
theorem Run.dispatch_safe (looping : LoopsOnly u) (keeping : Frame.Keeping invoke)
    (reached : Run invoke u m past c)
    (calls : ∀ argv v m', invoke argv c.machine ≠ (.error (.violation v), m')) :
    c.frame.dispatch invoke c.pc c.machine ≠ (.error (.violation v), m') := by
  obtain ⟨l, h⟩ := Verifier.accepted_of_accepts looping.accepted
  intro violated
  rcases reached.dispatch_sound h keeping (reached.level looping keeping) violated with
    ⟨argv, ended⟩ | ⟨i, e, r, target, saved, _, route, _⟩
  · exact calls argv v m' ended
  · exact looping.no_handler reached route

theorem Frame.runUnit_safe {fuel : Nat} (looping : LoopsOnly u) (keeping : Frame.Keeping invoke)
    (calls : ∀ past c, Run invoke u m past c → ∀ argv v m',
      invoke argv c.machine ≠ (.error (.violation v), m')) :
    Frame.runUnit invoke fuel u m ≠ (.error (.violation v), m') := by
  intro violated
  rw [Frame.runUnit_eq] at violated
  cases ran : (Moment.start u m).frame.run invoke fuel 0 (Moment.start u m).machine with
  | mk outcome m₁ =>
    rw [ran] at violated
    -- A completed frame can be left, so the violation is one of the dispatch loop.
    have completed (completion : Except Exception Value)
        (same : outcome = completion.mapError .exception) : False := by
      rw [same] at ran violated
      rw [Frame.leaving_eq completion (Run.ended_hosts keeping completion ran)] at violated
      cases completion <;> cases violated
    rcases Run.run_ends .enter fuel ran with out | ⟨past, c, reached, ⟨completion, same, _⟩ |
      ⟨stop, same, went⟩⟩
    · rw [out] at violated
      cases violated
    · exact completed completion same
    · cases stop with
      | exception e => exact completed (.error e) same
      | violation w => exact reached.dispatch_safe looping keeping (calls past c reached) went
      | outOfFuel =>
        rw [same] at violated
        cases violated

/-! ### Nested frames -/

/-- Commands keep the machine and the bounds of the stack, if they execute such units only. -/
theorem loop_calls_behave (fuel level : Nat) :
    (∀ unit, (executeTo fuel level unit).Behaves fun commands =>
      LoopsOnly unit ∧ Command.AllBodies LoopsOnly commands) ∧
    ∀ argv hint, (invokeTo fuel level argv hint).Behaves (Command.AllBodies LoopsOnly) := by
  refine calls_behave ?_ level
  intro invoke u m m' v behaves looping bodies
  have keeping : Frame.Keeping invoke := fun argv => (behaves argv).restores
  refine Frame.runUnit_safe looping keeping ?_
  intro past c reached argv w m'' ended
  refine (behaves argv).sound ended ?_
  rw [(reached.hosts keeping).commands]
  exact bodies

/-- From any state, at every dispatch the stack of the frame has the depth assigned to the
instruction, which is within the declared maximum and one at `DONE`, and no stack operation breaks
the bounds, here or in the units that commands execute. -/
theorem loop_units_run_at_assigned_depths (looping : LoopsOnly u)
    (bodies : Command.AllBodies LoopsOnly m.commands) (fuel level : Nat) :
    (∀ past c, Run (fun argv => invokeTo fuel level argv none) u m past c →
      ∃ d, assigned u c.pc = some d ∧ c.machine.stack.height = c.frame.base + d ∧
        c.machine.stack.floor = c.frame.base ∧ d ≤ u.maxStack.toNat ∧
        (∀ i, Instruction.decodeAt u.code c.pc = .ok i → i.opcode = .done → d = 1) ∧
        ∀ v m', c.frame.dispatch (fun argv => invokeTo fuel level argv none) c.pc c.machine ≠
          (.error (.violation v), m')) ∧
    ∀ v m', Machine.execute fuel u m ≠ (.error (.violation v), m') := by
  obtain ⟨l, h⟩ := Verifier.accepted_of_accepts looping.accepted
  have keeping := invokeTo_keeping fuel level
  constructor
  · intro past c reached
    have level' := reached.level looping keeping
    have hosts := reached.hosts keeping
    have floor := reached.floor_eq keeping
    have grounded := hosts.stands.grounded
    refine ⟨_, level', ?_, floor, h.assigned_le level', ?_, ?_⟩
    · rw [Stack.depth]
      omega
    · intro i decoded
      rw [← reached.serves.unit] at decoded
      exact (reached.passes h level' decoded).2.done
    · intro v m'
      refine reached.dispatch_safe looping keeping ?_
      intro argv w m'' ended
      refine ((loop_calls_behave fuel level).2 argv none).sound ended ?_
      rw [hosts.commands]
      exact bodies
  · intro v m' violated
    exact ((loop_calls_behave fuel m.room).1 u).sound violated ⟨looping, bodies⟩

/-- A loop whose body invokes a command over and over until that leaves the loop. -/
def invokingLoop : CompiledUnit :=
  { code := [0x01, 0x00, 0x07, 0x01, 0x03, 0x27, 0xfb, 0x01, 0x01, 0x00]
    literals := [.text "break", .text "left"]
    ranges := [⟨.loop, 0, 0, 7, some 7, some 0, none⟩]
    maxStack := 1 }

/-- A machine with a procedure that runs the loop. -/
def loopingMachine : Machine :=
  Machine.standard.addCommand "spin" (.proc "spin" [] invokingLoop)

theorem invokingLoop_runs_at_assigned_depths :
    LoopsOnly invokingLoop ∧ Command.AllBodies LoopsOnly loopingMachine.commands ∧
    ∃ past c, Run (fun argv => invokeTo 9 9 argv none) invokingLoop loopingMachine past c ∧
      c.pc = 7 ∧ assigned invokingLoop 7 = some 0 ∧ c.machine.stack.height = c.frame.base := by
  have looping : LoopsOnly invokingLoop := ⟨by decide, by decide, by decide⟩
  have bodies : Command.AllBodies LoopsOnly loopingMachine.commands := by
    intro pair member body named
    simp only [loopingMachine, Machine.addCommand, Machine.standard, Machine.standardCommands,
      List.mem_cons, List.not_mem_nil, or_false] at member
    rcases member with rfl | rfl | rfl | rfl | rfl | rfl | rfl
    · cases List.mem_singleton.mp named
      exact looping
    all_goals cases named
  let entry := Moment.start invokingLoop loopingMachine
  have pushed : ∃ move, entry.Moves (fun argv => invokeTo 9 9 argv none) move
      ⟨entry.frame, 2, { entry.machine with stack := entry.machine.stack.push (.text "break") }⟩ :=
    Moment.moves_iff.mpr rfl
  have left : ∃ move, Moment.Moves (fun argv => invokeTo 9 9 argv none)
      ⟨entry.frame, 2, { entry.machine with stack := entry.machine.stack.push (.text "break") }⟩
      move ⟨entry.frame, 7, entry.machine⟩ :=
    Moment.moves_iff.mpr rfl
  obtain ⟨_, pushed⟩ := pushed
  obtain ⟨_, left⟩ := left
  have reached := Run.go (.go .enter pushed) left
  obtain ⟨d, depth, height, _⟩ :=
    (loop_units_run_at_assigned_depths looping bodies 9 9).1 _ _ reached
  have zero : assigned invokingLoop 7 = some 0 := by decide
  cases zero.symm.trans depth
  exact ⟨looping, bodies, _, _, reached, rfl, zero, height⟩

end CommandVM
