import CommandVM.Proofs.Machine.Fresh
import CommandVM.Proofs.Machine.Procedures

/-!
# Frames inside one another

A frame waits while the procedure that its instruction calls runs in a frame of its own. A site is a
moment of a frame together with the levels that nesting may still grow inside it. If a frame is left
with an error, so is the procedure that it ran for, and the caller's instruction raises the error
with one more line in its trace.
-/

namespace CommandVM

variable {invoke : Invoke} {u body : CompiledUnit} {m m' m₁ inner : Machine} {c : Moment}
  {past : List (Moment × Move)} {e : Exception} {fuel level : Nat} {name : String}

/-! ### Frames that are left -/

/-- The dispatch loop that ends with an exception has come to a moment at which the frame is left
with it. -/
theorem Run.left_of_run (reached : Run invoke u m past c)
    (raised : c.frame.run invoke fuel c.pc c.machine = (.error (.exception e), m')) :
    ∃ past' c', Run invoke u m past' c' ∧ past'.length < past.length + fuel ∧
      c'.frame.dispatch invoke c'.pc c'.machine = (.ok (.stop (.error e)), m') := by
  induction fuel generalizing past c with
  | zero => cases raised
  | succ fuel ih =>
    rw [Frame.run] at raised
    cases dispatched : c.frame.dispatch invoke c.pc c.machine with
    | mk result m₂ =>
      rw [dispatched] at raised
      cases result with
      | error stop =>
        cases raised
        have outcome := Moment.dispatch_dispatches invoke c
        rw [dispatched] at outcome
        cases outcome with
        | stops _ _ other => exact absurd rfl (other e)
      | ok turn =>
        cases turn with
        | go pc f =>
          obtain ⟨move, moved⟩ : ∃ move, c.Moves invoke move ⟨f, pc, m₂⟩ :=
            Moment.moves_iff.mpr dispatched
          obtain ⟨past', c', reached', short, left⟩ := ih (.go reached moved) raised
          exact ⟨past', c', reached', by rw [List.length_cons] at short; omega, left⟩
        | stop completion =>
          cases completion with
          | ok v => cases raised
          | error e' =>
            cases raised
            exact ⟨past, c, reached, by omega, dispatched⟩

theorem Run.left_of_raised
    (raised : Frame.runUnit invoke fuel u m = (.error (.exception e), m')) :
    ∃ past c m₁, Run invoke u m past c ∧ past.length < fuel ∧
      c.frame.dispatch invoke c.pc c.machine = (.ok (.stop (.error e)), m₁) := by
  rw [Frame.runUnit_eq] at raised
  cases ended : (Moment.start u m).frame.run invoke fuel 0 (Moment.start u m).machine with
  | mk outcome m₁ =>
    rw [ended] at raised
    have same : outcome = .error (.exception e) := by
      unfold Frame.leaving at raised
      split at raised
      · cases raised
      · cases raised
      · rename_i completed
        cases completed
        split at raised <;> cases raised
        rfl
    rw [same] at ended
    obtain ⟨past, c, reached, short, left⟩ := Run.left_of_run .enter ended
    exact ⟨past, c, m₁, reached, by simpa using short, left⟩

theorem Run.raised_of_left (keeping : Frame.Keeping invoke) (reached : Run invoke u m past c)
    (short : past.length < fuel)
    (left : c.frame.dispatch invoke c.pc c.machine = (.ok (.stop (.error e)), m₁)) :
    Frame.runUnit invoke fuel u m = (.error (.exception e), { m₁ with stack := m.stack }) := by
  obtain ⟨rest, rfl⟩ : ∃ rest, fuel = past.length + (rest + 1) :=
    ⟨fuel - past.length - 1, by omega⟩
  have hosts := Moment.dispatch_hosts keeping left (reached.hosts keeping)
  rw [Frame.runUnit_eq, reached.run_eq (rest + 1), Frame.run, left]
  exact Frame.leaving_eq (.error e) hosts

theorem Run.truncates (keeping : Frame.Keeping invoke) (reached : Run invoke u m past c)
    (kept : c.machine.Keeps m') : ∃ s, m'.stack.truncate c.frame.base = .ok s := by
  have stands := ((reached.hosts keeping).keeps kept).stands
  have base : c.frame.base = m'.stack.floor := by
    rw [reached.serves.base, stands.1]
    rfl
  rw [base]
  exact ⟨_, Stack.truncate_eq (Nat.le_refl _) stands.grounded⟩

/-! ### Attribution -/

namespace Frame

variable {f : Frame} {pc : Nat}

theorem code_blame : (f.blame pc e).code = e.code := by
  unfold blame
  split
  · unfold Exception.attributeTo
    split
    · rfl
    · dsimp only
      split <;> rfl
  · rfl

theorem fault_blame : (f.blame pc e).fault = e.fault := by
  unfold blame
  split
  · unfold Exception.attributeTo
    split
    · rfl
    · dsimp only
      split <;> rfl
  · rfl

theorem blame_of_attributed (attributed : e.attributed = true) : f.blame pc e = e := by
  unfold blame
  split
  · dsimp only
    rw [Exception.attributeTo, if_pos attributed]
  · rfl

theorem attributed_blame (error : e.code = .error) : (f.blame pc e).attributed = true := by
  unfold blame
  rw [if_pos error]
  unfold Exception.attributeTo
  split
  · assumption
  · dsimp only
    split <;> rfl

end Frame

/-! ### Sites -/

/-- A moment of a frame inside which nesting may still grow by `level`. -/
structure Site where
  level : Nat
  moment : Moment

/-- The instruction calls a procedure whose body is executed in the machine `inner`: the arguments
are as many as the parameters, and binding these to them has not failed. -/
inductive Moment.Calls (c : Moment) (name : String) (body : CompiledUnit) (inner : Machine) :
    Prop where
  | mk {i : Instruction} {word : Value} {args : List Value} {params : List String} :
      Instruction.decodeAt c.frame.unit.code c.pc = .ok i → i.opcode.invokes = true →
      c.machine.stack.top i.pops = .ok (word :: args) →
      c.machine.commands.lookup word.str = some (.proc name params body) →
      args.length = params.length → c.machine.nesting < c.machine.maxNesting →
      Command.bindParams (params.zip args) c.machine.deeper.entered = (.ok (), inner) →
      Calls c name body inner

namespace Site

variable {s s' t : Site} {names : List String}

/-- The frame is left here with an exception. -/
def Leaves (fuel : Nat) (s : Site) (e : Exception) : Prop :=
  ∃ m, s.moment.frame.dispatch (invoker fuel s.level) s.moment.pc s.moment.machine =
    (.ok (.stop (.error e)), m)

/-- The site is one of the frame in which `executeTo fuel level u` runs the unit. -/
structure In (fuel level : Nat) (u : CompiledUnit) (m : Machine) (s : Site) : Prop where
  level : level = s.level + 1
  room : m.nesting < m.maxNesting
  run : ∃ past, Run (invoker fuel s.level) u m.deeper past s.moment ∧ past.length < fuel

/-- The frame of the first site waits for a procedure, in whose frame the second one is. -/
inductive Calls (fuel : Nat) : Site → String → Site → Prop where
  | mk {level : Nat} {c : Moment} {name : String} {body : CompiledUnit} {inner : Machine}
      {t : Site} : c.Calls name body inner → t.In fuel level body inner →
      Calls fuel ⟨level + 1, c⟩ name t

/-- The frame of the first site is around that of the second, or the same. The procedures on the way
are listed, the outermost first. -/
inductive Around (fuel : Nat) : Site → List String → Site → Prop where
  | here {s : Site} : Around fuel s [] s
  | call {s s' t : Site} {name : String} {names : List String} : s.Calls fuel name s' →
      Around fuel s' names t → Around fuel s (name :: names) t

theorem Leaves.not_moves (left : s.Leaves fuel e) (move : Move) (c' : Moment) :
    ¬ s.moment.Moves (invoker fuel s.level) move c' := by
  intro moved
  obtain ⟨m, left⟩ := left
  have went := Moment.moves_iff.mp ⟨move, moved⟩
  rw [left] at went
  cases went

theorem Leaves.gaveUp (left : s.Leaves fuel e) : ∃ e' m,
    s.moment.GivesUp (invoker fuel s.level) e' m ∧ e = s.moment.frame.blame s.moment.pc e' := by
  obtain ⟨m, left⟩ := left
  have outcome := Moment.dispatch_dispatches (invoker fuel s.level) s.moment
  rw [left] at outcome
  cases outcome with
  | leaves gaveUp _ => exact ⟨_, _, gaveUp, rfl⟩

theorem Leaves.attributed (left : s.Leaves fuel e) (error : e.code = .error) :
    e.attributed = true := by
  obtain ⟨e', m, _, rfl⟩ := left.gaveUp
  rw [Frame.code_blame] at error
  exact Frame.attributed_blame error

theorem In.keeps_commands (within : s.In fuel level u m) :
    s.moment.machine.commands = m.commands := by
  obtain ⟨past, reached, _⟩ := within.run
  exact (reached.hosts (invoker_keeping fuel s.level)).commands

theorem In.leaves (within : s.In fuel level u m) (kept : s.moment.machine.Keeps m')
    (dispatched : s.moment.frame.dispatch (invoker fuel s.level) s.moment.pc s.moment.machine =
      s.moment.frame.leaveWith s.moment.pc e m') :
    s.Leaves fuel (s.moment.frame.blame s.moment.pc e) := by
  obtain ⟨past, reached, _⟩ := within.run
  -- The stack still stands on the base of the frame, so that it can be cut to it.
  obtain ⟨stack, cut⟩ := reached.truncates (invoker_keeping fuel s.level) kept
  refine ⟨{ m' with stack }, ?_⟩
  rw [dispatched]
  simp only [Frame.leaveWith, bind, Action.bind, Frame.abandon_eq, cut]
  rfl

end Site

/-! ### Executions and their frames -/

theorem executeTo_succ (room : m.nesting < m.maxNesting) {outcome : Except Stop Value}
    (ended : Frame.runUnit (invoker fuel level) fuel u m.deeper = (outcome, m')) :
    executeTo fuel (level + 1) u m = (outcome, m'.shallower) := by
  have unfolded : executeTo fuel (level + 1) u m =
      Action.nested (Frame.runUnit (invoker fuel level) fuel u) m := by
    rw [executeTo]
    rfl
  have inside : Frame.runUnit (invoker fuel level) fuel u { m with nesting := m.nesting + 1 } =
      (outcome, m') := ended
  rewrite [unfolded, Action.nested, if_neg (Nat.not_le.mpr room), inside]
  rfl

/-- The execution of a unit is refused, or its frame is left with the exception. -/
theorem executeTo_raised (raised : executeTo fuel level u m = (.error (.exception e), m')) :
    ((level = 0 ∨ m.maxNesting ≤ m.nesting) ∧ e = .ofFault .nestingLimit) ∨
      ∃ s : Site, s.In fuel level u m ∧ s.Leaves fuel e := by
  cases level with
  | zero =>
    rw [executeTo] at raised
    cases raised
    exact .inl ⟨.inl rfl, rfl⟩
  | succ level =>
    by_cases full : m.maxNesting ≤ m.nesting
    · rw [executeTo, Action.nested, if_pos full] at raised
      cases raised
      exact .inl ⟨.inr full, rfl⟩
    · have room := Nat.lt_of_not_le full
      cases ended : Frame.runUnit (invoker fuel level) fuel u m.deeper with
      | mk outcome m₁ =>
        rw [executeTo_succ room ended] at raised
        cases raised
        obtain ⟨past, c, m₂, reached, short, left⟩ := Run.left_of_raised ended
        exact .inr ⟨⟨level, c⟩, ⟨rfl, room, past, reached, short⟩, m₂, left⟩

theorem Site.In.raised {s : Site} (within : s.In fuel level u m) (left : s.Leaves fuel e) :
    ∃ m', executeTo fuel level u m = (.error (.exception e), m') := by
  obtain ⟨rfl, room, past, reached, short⟩ := within
  obtain ⟨m₁, left⟩ := left
  have ended := reached.raised_of_left (invoker_keeping fuel s.level) short left
  exact ⟨_, executeTo_succ room ended⟩

namespace Site

variable {s t : Site}

/-- The site is one of an execution by a machine with standard commands. -/
def Occurs (fuel : Nat) (s : Site) : Prop := ∃ level u m, s.In fuel level u m ∧ m.Standard

theorem Occurs.standard (occurs : s.Occurs fuel) : s.moment.machine.Standard := by
  obtain ⟨level, u, m, within, standard⟩ := occurs
  rw [Machine.Standard, within.keeps_commands]
  exact standard

theorem Occurs.called (occurs : s.Occurs fuel) (called : s.Calls fuel name t) : t.Occurs fuel := by
  obtain ⟨call, within⟩ := called
  rename_i level c body inner
  refine ⟨level, body, inner, within, ?_⟩
  obtain ⟨_, _, _, _, _, _, bound⟩ := call
  have kept : inner.commands = c.machine.commands :=
    (Command.bindParams_restores.ok bound).commands
  rw [Machine.Standard, kept]
  exact occurs.standard

theorem Calls.level_lt (called : s.Calls fuel name t) : t.level < s.level := by
  obtain ⟨_, within⟩ := called
  have := within.level
  show t.level < _ + 1
  omega

end Site

/-! ### Calls and their callers -/

/-- If the body of a procedure ends with an error, the instruction that calls the procedure raises
it with one more line in its trace. -/
theorem Moment.Calls.raised (called : c.Calls name body inner)
    (ended : executeTo fuel level body inner = (.error (.exception e), m'))
    (error : e.code = .error) :
    ∃ i m₁, Instruction.decodeAt c.frame.unit.code c.pc = .ok i ∧
      c.frame.perform (invoker fuel (level + 1)) c.pc i c.machine =
        (.error (.exception (e.addInfo (procLine name))), m₁) := by
  obtain ⟨decoded, invokes, operands, found, fits, room, bound⟩ := called
  rename_i i word args params
  have known : c.machine.deeper.commands.lookup word.str = some (.proc name params body) := found
  have inScope : Command.procBody (callsTo fuel level) params body args c.machine.deeper.entered =
      (.error (.exception e), m') := by
    simp only [Command.procBody, bind, Action.bind, bound]
    exact ended
  have called : invoker fuel (level + 1) (word :: args) c.machine =
      Command.finishing none (Command.closing name (.error (.exception e), m')) := by
    rw [invoker, invokeTo_succ room, Command.runNamed_eq known, ← inScope]
    exact congrArg _ (Command.runProc_eq fits)
  have closed : Command.closing name (.error (.exception e), m') =
      (.error (.exception (e.addInfo (procLine name))), m'.returned) := by
    rw [Command.closing, Command.procCompletion_error error]
    rfl
  rw [closed, Command.finishing_exception] at called
  exact ⟨i, _, decoded, Frame.perform_fails invokes operands called⟩

theorem Site.Calls.raised {s t : Site} (called : s.Calls fuel name t) (left : t.Leaves fuel e)
    (error : e.code = .error) :
    ∃ i m₁, Instruction.decodeAt s.moment.frame.unit.code s.moment.pc = .ok i ∧
      s.moment.frame.perform (invoker fuel s.level) s.moment.pc i s.moment.machine =
        (.error (.exception (e.addInfo (procLine name))), m₁) := by
  obtain ⟨call, within⟩ := called
  obtain ⟨m', ended⟩ := within.raised left
  exact call.raised ended error

/-- The exception is as it was made, but for the line of the procedure whose call has failed. -/
inductive Exception.New : Exception → Prop where
  | own {e : Exception} : e.Fresh → New e
  | ofProc {e : Exception} (name : String) : e.Fresh → New (e.addInfo (procLine name))

namespace Exception.New

theorem attributed (new : e.New) : e.attributed = false := by
  cases new with
  | own fresh => exact fresh.attributed
  | ofProc name fresh => exact fresh.attributed

theorem code_eq_error (new : e.New) {f : Fault} (about : e.fault = some f) : e.code = .error := by
  cases new with
  | own fresh => exact fresh.code_eq_error about
  | ofProc name fresh => exact fresh.code_eq_error about

theorem of_completion {e' : Exception} (fresh : e.Fresh)
    (completed : Command.procCompletion name (.error e) = .error e') : e'.New := by
  rcases Command.procCompletion_cases completed with ⟨_, rfl⟩ | ⟨exit, _, rfl⟩ | ⟨n, _, rfl⟩
  · exact .ofProc name fresh
  · exact .ofProc name (.fault _)
  · exact .own fresh

end Exception.New

namespace Site

variable {s : Site} {i : Instruction}

/-- The exception is new in the frame, or comes from a procedure whose frame was left. -/
inductive Source (fuel : Nat) (s : Site) (e : Exception) : Prop where
  | new : e.New → Source fuel s e
  | called {name : String} {t : Site} {e' : Exception} : s.Calls fuel name t → t.Leaves fuel e' →
      Command.procCompletion name (.error e') = .error e → Source fuel s e

theorem source_of_proc {word : Value} {args : List Value} {params : List String}
    (decoded : Instruction.decodeAt s.moment.frame.unit.code s.moment.pc = .ok i)
    (invokes : i.opcode.invokes = true)
    (operands : s.moment.machine.stack.top i.pops = .ok (word :: args))
    (found : s.moment.machine.commands.lookup word.str = some (.proc name params body))
    (room : s.moment.machine.nesting < s.moment.machine.maxNesting) (inside : s.level = level + 1)
    (raised : Command.runProc (callsTo fuel level) name params body args s.moment.machine.deeper =
      (.error (.exception e), m')) : Source fuel s e := by
  by_cases fits : args.length = params.length
  · rw [Command.runProc_eq fits] at raised
    obtain ⟨e', m₁, ended, completed⟩ := Command.raised_of_closing raised
    cases bound : Command.bindParams (params.zip args) s.moment.machine.deeper.entered with
    | mk outcome inner =>
      cases outcome with
      | error stop =>
        -- The body was not entered: the error is that of a parameter.
        simp only [Command.procBody, bind, Action.bind, bound] at ended
        cases ended
        exact .new (.of_completion (Command.bindParams_raisesFresh _ _ _ bound) completed)
      | ok =>
        simp only [Command.procBody, bind, Action.bind, bound] at ended
        rcases executeTo_raised ended with ⟨_, rfl⟩ | ⟨t, within, left⟩
        · exact .new (.of_completion (.fault _) completed)
        · obtain ⟨_, c⟩ := s
          subst inside
          have called : c.Calls name body inner :=
            ⟨decoded, invokes, operands, found, fits, room, bound⟩
          exact .called (.mk called within) left completed
  · rw [Command.runProc_misfit fits] at raised
    cases raised
    exact .new (.own (.fault _))

theorem source_of_invoke (standard : s.moment.machine.Standard)
    (decoded : Instruction.decodeAt s.moment.frame.unit.code s.moment.pc = .ok i)
    (invokes : i.opcode.invokes = true) {argv : List Value}
    (operands : s.moment.machine.stack.top i.pops = .ok argv)
    (failed : invoker fuel s.level argv s.moment.machine = (.error (.exception e), m')) :
    Source fuel s e := by
  cases argv with
  | nil =>
    rw [invoker, invokeTo] at failed
    cases failed
  | cons word args =>
    rw [invoker] at failed
    rcases invokeTo_cases fuel s.level word args none s.moment.machine with
      refused | ⟨level, inside, room, ran⟩
    · rw [refused] at failed
      cases failed
      exact .new (.own (.fault _))
    · rw [ran] at failed
      obtain ⟨m₁, ended⟩ := Command.raised_of_finishing failed
      cases found : s.moment.machine.commands.lookup word.str with
      | none =>
        have absent : s.moment.machine.deeper.commands.lookup word.str = none := found
        rw [Command.runNamed_unknown absent] at ended
        cases ended
        exact .new (.own (.fault _))
      | some command =>
        have known : s.moment.machine.deeper.commands.lookup word.str = some command := found
        rw [Command.runNamed_eq known] at ended
        cases other : command.isProc with
        | false =>
          exact .new (.own (Command.run_raisesFresh (standard.lookup found) other _ _ _ ended))
        | true =>
          cases command with
          | proc name params body =>
            exact source_of_proc decoded invokes operands found room inside ended
          | _ => cases other

/-- What an instruction raises is new, or comes from the procedure that it calls. -/
theorem source_of_perform (standard : s.moment.machine.Standard)
    (decoded : Instruction.decodeAt s.moment.frame.unit.code s.moment.pc = .ok i)
    (raised : s.moment.frame.perform (invoker fuel s.level) s.moment.pc i s.moment.machine =
      (.error (.exception e), m')) : Source fuel s e := by
  cases invokes : i.opcode.invokes with
  | false => exact .new (.own (Frame.perform_raisesFresh invokes _ _ _ raised))
  | true =>
    obtain ⟨argv, operands, failed⟩ := Frame.invoke_raised invokes raised
    exact source_of_invoke standard decoded invokes operands failed

/-- What a frame gives up on is new, or comes from the procedure that its instruction calls. -/
theorem source_of_gaveUp (standard : s.moment.machine.Standard)
    (gaveUp : s.moment.GivesUp (invoker fuel s.level) e m') : Source fuel s e := by
  cases gaveUp with
  | undecodable _ => exact .new (.own (.fault _))
  | malformed decoded raised _ => exact source_of_perform standard decoded raised
  | uncaught throws _ => exact source_of_perform standard throws.decoded throws.raised

end Site

end CommandVM
