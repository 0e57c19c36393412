import CommandVM.Proofs.Machine.Isolation

/-!
# Calls under watch

What holds at every moment of a run is said with a second interpreter, which differs from the first
in that it looks at the machine before and after each dispatch of each frame and before each
command, and stops with an alarm when something is wrong. That the two interpreters agree, whatever
the alarm, means that it is never raised. Beside this, a call that completes leaves the stack, the
outer scopes and the nesting as they were.
-/

namespace CommandVM

/-- What a frame or a command that was entered in the first machine should find in the second: the
nesting is within its limit, and the values below the base of the frame are still there. -/
structure Machine.Guards (entry now : Machine) : Prop where
  nesting : now.nesting ≤ now.maxNesting
  below : entry.stack.slots <:+ now.stack.slots

open Classical in
/-- Goes on with an action if all is well with the machine, else stops with the alarm. -/
noncomputable def Action.watched {α : Type} (alarm : Stop) (entry : Machine) (action : Action α) :
    Action α := fun m =>
  if entry.Guards m then action m else (.error alarm, m)

/-- `Frame.run` with a look at the machine before each dispatch. -/
noncomputable def Frame.runWatched (alarm : Stop) (entry : Machine) (invoke : Invoke) :
    Nat → Frame → Nat → Action Value
  | 0, _, _ => Action.stop .outOfFuel
  | fuel + 1, f, pc => Action.watched alarm entry do
    match ← f.dispatch invoke pc with
    | .go pc f => runWatched alarm entry invoke fuel f pc
    | .stop outcome => Action.complete outcome

/-- `Frame.runUnit` with a look at the machine before each dispatch and after the last one. -/
noncomputable def Frame.runUnitWatched (alarm : Stop) (invoke : Invoke) (fuel : Nat)
    (unit : CompiledUnit) : Action Value := do
  let entry ← Action.read id
  let (mark, frame) ← enter unit
  let outcome ← Action.attempt (runWatched alarm entry invoke fuel frame 0)
  Action.watched alarm entry (Action.reshape (·.leave mark))
  Action.complete outcome

/-- `Command.runNamed` with a look at the machine before it. -/
noncomputable def Command.runNamedWatched (alarm : Stop) (calls : Calls) (name : String)
    (argv : List Value) : Action Value := do
  let entry ← Action.read id
  Action.watched alarm entry (runNamed calls name argv)

mutual

/-- `executeTo` with all frames and commands watched. -/
noncomputable def executeWatched (alarm : Stop) (fuel : Nat) : Nat → CompiledUnit → Action Value
  | 0, _ => Action.fault .nestingLimit
  | level + 1, unit =>
    Action.nested
      (Frame.runUnitWatched alarm (fun argv => invokeWatched alarm fuel level argv none) fuel unit)

/-- `invokeTo` with all frames and commands watched. -/
noncomputable def invokeWatched (alarm : Stop) (fuel : Nat) :
    Nat → List Value → Option String → Action Value
  | _, [], _ => pure Value.empty
  | 0, _ :: _, _ => Action.fault .nestingLimit
  | level + 1, name :: args, hint => do
    let calls : Calls :=
      { execute := fun unit => executeWatched alarm fuel level unit
        invoke := fun argv hint => invokeWatched alarm fuel level argv hint }
    let outcome ← Action.nested
      (Action.attempt (Command.runNamedWatched alarm calls name.str (name :: args)))
    Command.finishInvoke hint outcome

end

/-- `Machine.eval` with all frames and commands watched. -/
noncomputable def Machine.evalWatched (alarm : Stop) (fuel : Nat) (unit : CompiledUnit) :
    Action Value := do
  let executed ← Action.attempt fun m => executeWatched alarm fuel m.room unit m
  let hs ← Action.read Machine.handlers
  let outcome ← if ← takeMark then applyHandlers hs (topCompletion executed)
    else pure (topCompletion executed)
  Action.modify (record outcome)
  Action.complete outcome

variable {alarm : Stop} {entry m m' : Machine} {invoke : Invoke} {u : CompiledUnit} {c : Moment}
  {past : List (Moment × Move)} {α : Type}

/-! ### The alarm is not raised -/

theorem Action.watched_eq {action : Action α} (well : entry.Guards m) :
    Action.watched alarm entry action m = action m := by
  rw [Action.watched, if_pos well]

theorem Machine.Hosts.guards (hosts : m.Hosts m') (room : m.nesting ≤ m.maxNesting) :
    m.Guards m' := by
  obtain ⟨_, own, slots⟩ := hosts.stands
  refine ⟨?_, own, slots.symm⟩
  rw [hosts.nesting, hosts.maxNesting]
  exact room

theorem Run.runWatched_eq (keeping : Frame.Keeping invoke) (room : m.nesting ≤ m.maxNesting)
    (reached : Run invoke u m past c) (fuel : Nat) :
    Frame.runWatched alarm m invoke fuel c.frame c.pc c.machine =
      c.frame.run invoke fuel c.pc c.machine := by
  induction fuel generalizing past c with
  | zero => rfl
  | succ fuel ih =>
    rw [Frame.runWatched, Action.watched_eq ((reached.hosts keeping).guards room), Frame.run]
    simp only [bind, Action.bind]
    cases dispatched : c.frame.dispatch invoke c.pc c.machine with
    | mk result m₁ =>
      cases result with
      | error stop => rfl
      | ok turn =>
        cases turn with
        | stop outcome => rfl
        | go pc f =>
          obtain ⟨move, moved⟩ : ∃ move, c.Moves invoke move ⟨f, pc, m₁⟩ :=
            Moment.moves_iff.mpr dispatched
          exact ih (.go reached moved)

theorem Frame.runUnitWatched_eq (keeping : Frame.Keeping invoke)
    (room : m.nesting ≤ m.maxNesting) (fuel : Nat) (u : CompiledUnit) :
    Frame.runUnitWatched alarm invoke fuel u m = Frame.runUnit invoke fuel u m := by
  have same : runWatched alarm m invoke fuel (Moment.start u m).frame 0
      (Moment.start u m).machine =
      (Moment.start u m).frame.run invoke fuel 0 (Moment.start u m).machine :=
    Run.runWatched_eq keeping room .enter fuel
  simp only [runUnitWatched, runUnit, bind, Action.bind, Action.read, id, Moment.enter_eq,
    Action.attempt, same]
  cases ran : (Moment.start u m).frame.run invoke fuel 0 (Moment.start u m).machine with
  | mk outcome m' =>
    have ended (completion : Except Exception Value)
        (completes : outcome = completion.mapError .exception) : m.Guards m' :=
      (Run.ended_hosts keeping completion (completes ▸ ran)).guards room
    cases outcome with
    | ok v => simp only [Action.watched_eq (ended (.ok v) rfl)]
    | error stop =>
      cases stop with
      | exception e => simp only [Action.watched_eq (ended (.error e) rfl)]
      | violation v => rfl
      | outOfFuel => rfl

theorem Command.runNamedWatched_eq {calls : Calls} {name : String} {argv : List Value}
    (room : m.nesting ≤ m.maxNesting) :
    runNamedWatched alarm calls name argv m = runNamed calls name argv m :=
  Action.watched_eq ⟨room, List.suffix_refl _⟩

/-- An action that is nested is run only where the nesting is within its limit. -/
theorem Action.nested_congr {first second : Action α}
    (same : ∀ m : Machine, m.nesting ≤ m.maxNesting → first m = second m) :
    Action.nested first = Action.nested second := by
  funext m
  unfold Action.nested
  by_cases full : m.maxNesting ≤ m.nesting
  · rw [if_pos full, if_pos full]
  · rw [if_neg full, if_neg full, same { m with nesting := m.nesting + 1 } (Nat.lt_of_not_le full)]

theorem watched_eq (alarm : Stop) (fuel level : Nat) :
    executeWatched alarm fuel level = executeTo fuel level ∧
      invokeWatched alarm fuel level = invokeTo fuel level := by
  induction level with
  | zero =>
    constructor
    · funext unit
      simp only [executeWatched, executeTo]
    · funext argv hint
      cases argv with
      | nil => simp only [invokeWatched, invokeTo]
      | cons name args => simp only [invokeWatched, invokeTo]
  | succ level ih =>
    obtain ⟨executes, invokes⟩ := ih
    constructor
    · funext unit
      simp only [executeWatched, executeTo, invokes]
      apply Action.nested_congr
      intro m room
      exact Frame.runUnitWatched_eq (invokeTo_keeping fuel level) room fuel unit
    · funext argv hint
      cases argv with
      | nil => simp only [invokeWatched, invokeTo]
      | cons name args =>
        simp only [invokeWatched, invokeTo, executes, invokes]
        congr 1
        apply Action.nested_congr
        intro m room
        simp only [Action.attempt, Command.runNamedWatched_eq room]

/-! ### Whole calls -/

namespace Machine

theorem applyHandler_behaves {safe : List (String × Command) → Prop}
    (outcome : Except Exception Value) (h : Handler) : (applyHandler outcome h).Behaves safe := by
  cases h with
  | remark => exact .bind (.modify fun _ => ⟨⟨rfl, rfl, rfl, rfl, rfl, rfl⟩, rfl⟩) fun _ => .pure
  | wrap => cases outcome <;> exact .pure
  | _ => exact .pure

theorem applyHandlers_behaves {safe : List (String × Command) → Prop} (hs : List Handler)
    (outcome : Except Exception Value) : (applyHandlers hs outcome).Behaves safe := by
  induction hs generalizing outcome with
  | nil => exact .pure
  | cons h hs ih => exact .bind (applyHandler_behaves outcome h) ih

theorem takeMark_behaves {safe : List (String × Command) → Prop} : takeMark.Behaves safe :=
  fun _ => ⟨⟨rfl, rfl, rfl, rfl, rfl, rfl⟩, rfl⟩

theorem keeps_record (outcome : Except Exception Value) (m : Machine) :
    m.Keeps (record outcome m) := by
  cases outcome <;> exact ⟨⟨rfl, rfl, rfl, rfl, rfl, rfl⟩, rfl⟩

theorem eval_behaves {safe : List (String × Command) → Prop} {fuel : Nat} {u : CompiledUnit}
    (executes : (execute fuel u).Behaves safe) : (eval fuel u).Behaves safe := by
  refine .bind (.attempt executes) fun ended => .bind .read fun hs => .bind takeMark_behaves ?_
  intro marked
  have recorded (outcome : Except Exception Value) :
      (Action.modify (record outcome) >>= fun _ => Action.complete outcome).Behaves safe :=
    .bind (.modify (keeps_record outcome)) fun _ => .complete
  by_cases asked : marked = true
  · simp only [if_pos asked]
    exact .bind (applyHandlers_behaves hs _) recorded
  · simp only [if_neg asked]
    exact .bind .pure recorded

theorem execute_restores (fuel : Nat) (u : CompiledUnit) : (execute fuel u).Restores where
  ok := fun {m} _ _ ended => ((calls_restore fuel m.room).1 u).ok ended
  exception := fun {m} _ _ ended => ((calls_restore fuel m.room).1 u).exception ended

theorem invoke_restores (fuel : Nat) (argv : List Value) (hint : Option String) :
    (Machine.invoke fuel argv hint).Restores where
  ok := fun {m} _ _ ended => ((calls_restore fuel m.room).2 argv hint).ok ended
  exception := fun {m} _ _ ended => ((calls_restore fuel m.room).2 argv hint).exception ended

theorem eval_restores (fuel : Nat) (u : CompiledUnit) : (eval fuel u).Restores := by
  have executes : (execute fuel u).Behaves fun _ => False :=
    .of_restores (execute_restores fuel u) fun _ => not_false
  exact (eval_behaves executes).restores

end Machine

/-- However a call completes, it leaves the stack, the outer scopes and the nesting as they were;
and under watch it does what it does anyway, whatever the alarm is. -/
theorem calls_isolated (fuel : Nat) :
    (∀ u, (Machine.execute fuel u).Restores ∧ (Machine.eval fuel u).Restores) ∧
      (∀ argv hint, (Machine.invoke fuel argv hint).Restores) ∧
      ∀ alarm m, (∀ u, executeWatched alarm fuel m.room u m = Machine.execute fuel u m) ∧
        (∀ u, Machine.evalWatched alarm fuel u m = Machine.eval fuel u m) ∧
        ∀ argv hint, invokeWatched alarm fuel m.room argv hint m =
          Machine.invoke fuel argv hint m := by
  refine ⟨fun u => ⟨Machine.execute_restores fuel u, Machine.eval_restores fuel u⟩,
    Machine.invoke_restores fuel, ?_⟩
  intro alarm m
  obtain ⟨executes, invokes⟩ := watched_eq alarm fuel m.room
  refine ⟨fun u => by rw [executes]; rfl, fun u => ?_, fun argv hint => by rw [invokes]; rfl⟩
  have same : (fun m => executeWatched alarm fuel m.room u m) = Machine.execute fuel u := by
    funext m
    rw [(watched_eq alarm fuel m.room).1]
    rfl
  rw [Machine.evalWatched, same]
  rfl

end CommandVM
