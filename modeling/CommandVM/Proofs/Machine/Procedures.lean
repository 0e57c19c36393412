import CommandVM.Proofs.Machine.Isolation

/-!
# Calls of procedures

An invocation runs its command one level deeper and notes the result. A procedure runs its body in a
scope of its own: `return` is normal there, a loop exit that leaves the body is an error, and an
error gets one more line in its trace.
-/

namespace CommandVM

/-! ### Machines inside calls -/

def Machine.deeper (m : Machine) : Machine := { m with nesting := m.nesting + 1 }

def Machine.shallower (m : Machine) : Machine := { m with nesting := m.nesting - 1 }

def Machine.entered (m : Machine) : Machine := { m with store := m.store.pushScope }

def Machine.returned (m : Machine) : Machine := { m with store := m.store.popScope }

/-- What a command may call inside which nesting may still grow by `level`. -/
def callsTo (fuel level : Nat) : Calls where
  execute := fun unit => executeTo fuel level unit
  invoke := fun argv hint => invokeTo fuel level argv hint

/-- The invocations of a frame inside which nesting may still grow by `level`. -/
def invoker (fuel level : Nat) : Invoke := fun argv => invokeTo fuel level argv none

/-- The exception with which an action ended, if it ended with one. -/
def Action.exception? : Except Stop Value × Machine → Option Exception
  | (.error (.exception e), _) => some e
  | _ => none

/-- The line that a procedure adds to the trace of an error. -/
def procLine (name : String) : String := "\n    (procedure \"" ++ name ++ "\")"

variable {m m' : Machine} {fuel level : Nat} {word : Value} {args : List Value}
  {hint : Option String} {name : String} {params : List String} {body : CompiledUnit}
  {calls : Calls} {e : Exception}

theorem Action.raised_of_exception? {ended : Except Stop Value × Machine}
    (raised : Action.exception? ended = some e) : ∃ m', ended = (.error (.exception e), m') := by
  obtain ⟨outcome, m'⟩ := ended
  cases outcome with
  | ok v => cases raised
  | error stop =>
    cases stop <;> cases raised
    exact ⟨m', rfl⟩

theorem invoker_keeping (fuel level : Nat) : Frame.Keeping (invoker fuel level) :=
  invokeTo_keeping fuel level

/-! ### Invocations -/

namespace Command

/-- The end of an invocation, given that of its command. -/
def finishing (hint : Option String) : Except Stop Value × Machine → Except Stop Value × Machine
  | (.ok v, m) => finishInvoke hint (.ok v) m.shallower
  | (.error (.exception e), m) => finishInvoke hint (.error e) m.shallower
  | (.error stop, m) => (.error stop, m.shallower)

/-- The exception with which an invocation ends, given that of its command. -/
def hinted (hint : Option String) (e : Exception) : Exception :=
  if e.code = .error && hint.isSome then e.attributeTo none hint else e

theorem finishInvoke_error (m : Machine) : finishInvoke hint (.error e) m =
    (.error (.exception (hinted hint e)), { m with result := (hinted hint e).value }) := rfl

theorem code_hinted : (hinted hint e).code = e.code := by
  unfold hinted
  split
  · unfold Exception.attributeTo
    split
    · rfl
    · dsimp only
      split <;> rfl
  · rfl

theorem finishing_exception (e : Exception) (m : Machine) :
    finishing none (.error (.exception e), m) =
      (.error (.exception e), { m.shallower with result := e.value }) := by
  have same : hinted none e = e := by
    rw [hinted, Option.isSome_none, Bool.and_false]
    rfl
  have unfolded : finishing none (.error (.exception e), m) =
      finishInvoke none (.error e) m.shallower := rfl
  rw [unfolded, finishInvoke_error, same]

theorem raised_of_finishing {ended : Except Stop Value × Machine}
    (raised : finishing none ended = (.error (.exception e), m')) :
    ∃ m₁, ended = (.error (.exception e), m₁) := by
  obtain ⟨outcome, m₁⟩ := ended
  cases outcome with
  | ok v => cases raised
  | error stop =>
    cases stop with
    | exception e' =>
      rw [finishing_exception] at raised
      cases raised
      exact ⟨m₁, rfl⟩
    | violation v => cases raised
    | outOfFuel => cases raised

theorem runNamed_eq {command : Command} (found : m.commands.lookup word.str = some command)
    (argv : List Value) : runNamed calls word.str argv m = command.run calls argv m := by
  simp only [runNamed, bind, Action.bind, Action.read, found]

theorem runNamed_unknown (absent : m.commands.lookup word.str = none) (argv : List Value) :
    runNamed calls word.str argv m = Action.fault (.unknownCommand word.str) m := by
  simp only [runNamed, bind, Action.bind, Action.read, absent]

end Command

theorem invokeTo_succ (room : m.nesting < m.maxNesting) :
    invokeTo fuel (level + 1) (word :: args) hint m = Command.finishing hint
      (Command.runNamed (callsTo fuel level) word.str (word :: args) m.deeper) := by
  rw [invokeTo]
  simp only [bind, Action.bind, Action.nested, if_neg (Nat.not_le.mpr room), Action.attempt]
  show _ = Command.finishing hint (Command.runNamed
    { execute := fun unit => executeTo fuel level unit
      invoke := fun argv hint => invokeTo fuel level argv hint } word.str (word :: args)
    { m with nesting := m.nesting + 1 })
  generalize Command.runNamed _ word.str (word :: args) _ = ended
  obtain ⟨outcome, m₁⟩ := ended
  cases outcome with
  | ok v => rfl
  | error stop => cases stop <;> rfl

theorem invokeTo_cases (fuel level : Nat) (word : Value) (args : List Value)
    (hint : Option String) (m : Machine) :
    invokeTo fuel level (word :: args) hint m =
        (.error (.exception (.ofFault .nestingLimit)), m) ∨
      ∃ inside, level = inside + 1 ∧ m.nesting < m.maxNesting ∧
        invokeTo fuel level (word :: args) hint m = Command.finishing hint
          (Command.runNamed (callsTo fuel inside) word.str (word :: args) m.deeper) := by
  cases level with
  | zero =>
    left
    rw [invokeTo]
    rfl
  | succ inside =>
    by_cases full : m.maxNesting ≤ m.nesting
    · left
      rw [invokeTo]
      simp only [bind, Action.bind, Action.nested, if_pos full]
      rfl
    · have room := Nat.lt_of_not_le full
      exact .inr ⟨inside, rfl, room, invokeTo_succ room⟩

namespace Frame

variable {invoke : Invoke} {f : Frame} {pc : Nat} {i : Instruction} {argv : List Value}

theorem perform_fails (invokes : i.opcode.invokes = true) (operands : m.stack.top i.pops = .ok argv)
    {stop : Stop} (failed : invoke argv m = (.error stop, m')) :
    f.perform invoke pc i m = (.error stop, m') := by
  simp only [perform, step_invoke invokes, bind, Action.bind, Action.top, Action.inspect, operands,
    failed]

theorem outsideLoop_eq (stays : e.code.loopExit? = none) : outsideLoop e = e := by
  unfold outsideLoop
  rw [stays]

/-- What an instruction raises that invokes a command, the command has raised. -/
theorem invoke_raised (invokes : i.opcode.invokes = true)
    (raised : f.perform invoke pc i m = (.error (.exception e), m')) :
    ∃ argv, m.stack.top i.pops = .ok argv ∧ invoke argv m = (.error (.exception e), m') := by
  cases operands : m.stack.top i.pops with
  | error v =>
    simp only [perform, step_invoke invokes, bind, Action.bind, Action.top, Action.inspect,
      operands] at raised
    cases raised
  | ok argv =>
    refine ⟨argv, rfl, ?_⟩
    cases ended : invoke argv m with
    | mk outcome m₁ =>
      cases outcome with
      | error stop =>
        rw [perform_fails invokes operands ended] at raised
        cases raised
        rfl
      | ok v =>
        have told : f.step invoke pc i m = (.ok (.push i.pops v), m₁) := by
          simp only [step_invoke invokes, bind, Action.bind, Action.top, Action.inspect, operands,
            ended]
          rfl
        have led : f.target pc i (Effect.push i.pops v).next m₁ =
            (.ok (some (pc + i.size)), m₁) := rfl
        simp only [perform, bind, Action.bind, told, led, Option.isSome_some, if_true] at raised
        rcases (Effect.push i.pops v).settle_cases m₁ with ⟨s, settled, _⟩ | ⟨w, m₂, failed⟩
        · simp only [settled] at raised
          cases raised
        · simp only [failed] at raised
          cases raised

end Frame

/-! ### Procedures -/

namespace Command

theorem bindParams_restores {params : List (String × Value)} : (bindParams params).Restores := by
  have behaves : (bindParams params).Behaves fun _ => False := bindParams_behaves
  exact behaves.restores

/-- What a procedure does in its own scope. -/
def procBody (calls : Calls) (params : List String) (body : CompiledUnit) (args : List Value) :
    Action Value := do
  bindParams (params.zip args)
  calls.execute body

/-- The end of a procedure, given that of what it did in its own scope. -/
def closing (name : String) : Except Stop Value × Machine → Except Stop Value × Machine
  | (.ok v, m) => (.ok v, m.returned)
  | (.error (.exception e), m) => Action.complete (procCompletion name (.error e)) m.returned
  | (.error stop, m) => (.error stop, m.returned)

theorem runProc_eq (fits : args.length = params.length) :
    runProc calls name params body args m =
      closing name (procBody calls params body args m.entered) := by
  unfold runProc
  rw [if_neg (not_not_intro fits)]
  have inside : inScope (procBody calls params body args) m =
      ((procBody calls params body args m.entered).1,
        (procBody calls params body args m.entered).2.returned) := rfl
  have unfolded : (do
      bindParams (params.zip args)
      calls.execute body) = procBody calls params body args := rfl
  rw [unfolded]
  simp only [bind, Action.bind, Action.attempt, inside]
  generalize procBody calls params body args m.entered = ended
  obtain ⟨outcome, m₁⟩ := ended
  cases outcome with
  | ok v => rfl
  | error stop => cases stop <;> rfl

theorem runProc_misfit (misfit : args.length ≠ params.length) :
    runProc calls name params body args m =
      (.error (.exception (.ofFault (.wrongArgs (usage name params)))), m) := by
  unfold runProc
  rw [if_pos misfit]
  rfl

/-- A procedure whose body ends with an error raises it with one more line in its trace. -/
theorem procCompletion_error (error : e.code = .error) :
    procCompletion name (.error e) = .error (e.addInfo (procLine name)) := by
  have same : Frame.outsideLoop e = e := Frame.outsideLoop_eq (by rw [error]; rfl)
  unfold procCompletion
  simp only [error, same]
  rfl

/-- What a procedure raises: the error of its body, an error about a loop exit, or a code of the
application. -/
theorem procCompletion_cases {e' : Exception}
    (raised : procCompletion name (.error e) = .error e') :
    (e.code = .error ∧ e' = e.addInfo (procLine name)) ∨
      (∃ exit, e.code.loopExit? = some exit ∧
        e' = (Exception.ofFault (.outsideLoop exit)).addInfo (procLine name)) ∨
      ∃ n, e.code = .other n ∧ e' = e := by
  cases code : e.code with
  | error =>
    rw [procCompletion_error code] at raised
    cases raised
    exact .inl ⟨rfl, rfl⟩
  | returnValue =>
    simp only [procCompletion, code, if_true] at raised
    cases raised
  | breakLoop | continueLoop =>
    simp only [procCompletion, Frame.outsideLoop, code] at raised
    cases raised
    exact .inr (.inl ⟨_, rfl, rfl⟩)
  | other n =>
    have same : Frame.outsideLoop e = e := Frame.outsideLoop_eq (by rw [code]; rfl)
    simp only [procCompletion, same, code] at raised
    cases raised
    exact .inr (.inr ⟨n, rfl, rfl⟩)

theorem raised_of_closing {ended : Except Stop Value × Machine}
    (raised : closing name ended = (.error (.exception e), m')) :
    ∃ e' m₁, ended = (.error (.exception e'), m₁) ∧ procCompletion name (.error e') = .error e := by
  obtain ⟨outcome, m₁⟩ := ended
  cases outcome with
  | ok v => cases raised
  | error stop =>
    cases stop with
    | exception e' =>
      refine ⟨e', m₁, rfl, ?_⟩
      have completed : Action.complete (procCompletion name (.error e')) m₁.returned =
          (.error (.exception e), m') := raised
      cases ending : procCompletion name (.error e') with
      | ok v =>
        rw [ending] at completed
        cases completed
      | error e'' =>
        rw [ending] at completed
        cases completed
        rfl
    | violation v => cases raised
    | outOfFuel => cases raised

end Command

end CommandVM
