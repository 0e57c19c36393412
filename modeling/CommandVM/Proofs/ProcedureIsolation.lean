import CommandVM.Proofs.Machine.Procedures
import CommandVM.Proofs.Variables.Scopes

/-!
# Procedures and their callers

Whatever a procedure does and however it ends, its caller finds every variable of every scope as it
was. The call completes normally, with an error or with a code of the application, so that no loop
of the caller is left by what happens inside.
-/

namespace CommandVM

/-- The scopes, from the innermost out. -/
def Store.scopes (s : Store) : List Scope := s.current :: s.callers

/-- What a read of a variable, or of an element of it, gives in the scope that is `depth` calls
out. -/
def Store.readAt (s : Store) (depth : Nat) (name : String) (index : Option String) :
    Option (Except Fault Value) :=
  s.scopes[depth]?.map fun scope => (Store.accessParts name index .read { current := scope }).1

/-- The code is that of an error, or one of the application. -/
def Code.Escapes (code : Code) : Prop := code = .error ∨ ∃ n, code = .other n

theorem Code.Escapes.stays {code : Code} (escapes : code.Escapes) : code.loopExit? = none := by
  rcases escapes with rfl | ⟨n, rfl⟩ <;> rfl

/-- How a call may end that leaves all scopes alone. -/
def Isolated (m : Machine) : Except Stop Value × Machine → Prop
  | (.ok _, m') => m'.store.scopes = m.store.scopes
  | (.error (.exception e), m') => m'.store.scopes = m.store.scopes ∧ e.code.Escapes
  | _ => True

variable {m m' inner : Machine} {fuel level : Nat} {word : Value} {args : List Value}
  {hint : Option String} {name : String} {params : List String} {body : CompiledUnit}
  {e : Exception}

namespace Command

theorem procBody_restores : (procBody (callsTo fuel level) params body args).Restores := by
  have executes : (executeTo fuel level body).Behaves fun _ => False :=
    .of_restores ((calls_restore fuel level).1 body) fun _ => not_false
  have behaves : (procBody (callsTo fuel level) params body args).Behaves fun _ => False :=
    .bind bindParams_behaves fun _ => executes
  exact behaves.restores

theorem scopes_returned (kept : m.entered.Keeps inner) :
    inner.returned.store.scopes = m.store.scopes := by
  -- The scope of the caller was the first of those around the body.
  have callers : inner.store.callers = m.store.current :: m.store.callers := kept.callers
  simp only [Machine.returned, Store.popScope, callers, Store.scopes]

theorem procCompletion_escapes {e' : Exception}
    (raised : procCompletion name (.error e) = .error e') : e'.code.Escapes := by
  rcases procCompletion_cases raised with ⟨error, rfl⟩ | ⟨exit, _, rfl⟩ | ⟨n, other, rfl⟩
  · exact .inl error
  · exact .inl rfl
  · exact .inr ⟨n, other⟩

theorem closing_isolated {ended : Except Stop Value × Machine}
    (kept : ∀ (completion : Except Exception Value) m',
      ended = (completion.mapError .exception, m') → m.entered.Keeps m') :
    Isolated m (closing name ended) := by
  obtain ⟨outcome, inner⟩ := ended
  cases outcome with
  | ok v => exact scopes_returned (kept (.ok v) inner rfl)
  | error stop =>
    cases stop with
    | exception e =>
      have same := scopes_returned (kept (.error e) inner rfl)
      show Isolated m (Action.complete (procCompletion name (.error e)) inner.returned)
      cases completed : procCompletion name (.error e) with
      | ok v => exact same
      | error e' => exact ⟨same, procCompletion_escapes completed⟩
    | violation v => trivial
    | outOfFuel => trivial

theorem runProc_isolated :
    Isolated m (runProc (callsTo fuel level) name params body args m) := by
  by_cases fits : args.length = params.length
  · rw [runProc_eq fits]
    refine closing_isolated fun completion inner ended => ?_
    cases completion with
    | ok v => exact procBody_restores.ok ended
    | error e => exact procBody_restores.exception ended
  · rw [runProc_misfit fits]
    exact ⟨rfl, .inl rfl⟩

theorem finishing_isolated {ended : Except Stop Value × Machine}
    (isolated : Isolated m.deeper ended) : Isolated m (finishing hint ended) := by
  obtain ⟨outcome, m'⟩ := ended
  cases outcome with
  | ok v => exact isolated
  | error stop =>
    cases stop with
    | exception e =>
      show Isolated m (finishInvoke hint (.error e) m'.shallower)
      rw [finishInvoke_error]
      refine ⟨isolated.1, ?_⟩
      rw [code_hinted]
      exact isolated.2
    | violation v => trivial
    | outOfFuel => trivial

end Command

theorem invokeTo_isolated (found : m.commands.lookup word.str = some (.proc name params body)) :
    Isolated m (invokeTo fuel level (word :: args) hint m) := by
  rcases invokeTo_cases fuel level word args hint m with refused | ⟨inside, _, _, ran⟩
  · rw [refused]
    exact ⟨rfl, .inl rfl⟩
  · have known : m.deeper.commands.lookup word.str = some (.proc name params body) := found
    rw [ran, Command.runNamed_eq known]
    exact Command.finishing_isolated Command.runProc_isolated

theorem Store.readAt_congr {s s' : Store} (same : s'.scopes = s.scopes) (depth : Nat)
    (name : String) (index : Option String) :
    s'.readAt depth name index = s.readAt depth name index := by
  rw [readAt, same, readAt]

/-- The instruction that invokes a procedure does not leave a loop. -/
theorem Moment.Moves.not_exit {c c' : Moment} {i : Instruction} {move : Move}
    (found : c.machine.commands.lookup word.str = some (.proc name params body))
    (decoded : Instruction.decodeAt c.frame.unit.code c.pc = .ok i)
    (invokes : i.opcode.invokes = true) (operands : c.machine.stack.top i.pops = .ok (word :: args))
    (moved : c.Moves (invoker fuel level) move c') (r : ExceptionRange) (target : UInt32) :
    move ≠ .exit r target := by
  rintro rfl
  cases moved with
  | @exit i' e m₁ _ _ s throws route _ =>
    have same : i' = i := by
      have again := throws.decoded
      rw [decoded] at again
      cases again
      rfl
    subst same
    obtain ⟨_, _, exit, asks, _⟩ := Frame.route_exit route
    obtain ⟨argv, same, raised⟩ := Frame.invoke_raised invokes throws.raised
    rw [operands] at same
    cases same
    have isolated : Isolated c.machine (invoker fuel level (word :: args) c.machine) :=
      invokeTo_isolated found
    rw [raised] at isolated
    rw [isolated.2.stays] at asks
    cases asks

/-- However the call of a procedure completes, every read in every scope gives what it gave before,
and the call has not completed with `return`, `break` or `continue`. So the instruction that makes
the call does not leave a loop. -/
theorem procedures_isolated
    (found : m.commands.lookup word.str = some (.proc name params body)) :
    (∀ hint (completion : Except Exception Value) m',
      invokeTo fuel level (word :: args) hint m = (completion.mapError .exception, m') →
        (∀ depth x index, m'.store.readAt depth x index = m.store.readAt depth x index) ∧
        ∀ e, completion = .error e → e.code = .error ∨ ∃ n, e.code = .other n) ∧
      ∀ (c : Moment) i, c.machine = m → Instruction.decodeAt c.frame.unit.code c.pc = .ok i →
        i.opcode.invokes = true → m.stack.top i.pops = .ok (word :: args) →
        ∀ (move : Move) c', c.Moves (invoker fuel level) move c' →
          ∀ r target, move ≠ .exit r target := by
  constructor
  · intro hint completion m' ended
    have isolated : Isolated m (invokeTo fuel level (word :: args) hint m) :=
      invokeTo_isolated found
    rw [ended] at isolated
    cases completion with
    | ok v => exact ⟨Store.readAt_congr isolated, fun e raised => by cases raised⟩
    | error e =>
      refine ⟨Store.readAt_congr isolated.1, fun e' raised => ?_⟩
      cases raised
      exact isolated.2
  · rintro c i rfl decoded invokes operands move c' moved
    exact moved.not_exit found decoded invokes operands

/-- Sets `x` by its slot and `a(k)` by its name, then breaks out of a loop that is not there. -/
def straying : CompiledUnit where
  code := [0x01, 0, 0x10, 0, 0x03, 0x01, 1, 0x01, 0, 0x16, 0x03, 0x01, 2, 0x07, 1, 0x00]
  literals := [.text "9", .text "a(k)", .text "break"]
  maxStack := 2
  locals := ["x"]

/-- A machine with a procedure that strays, in which `x` is 1 and `a(k)` is 2. -/
def strayingMachine : Machine where
  commands := ("stray", .proc "stray" ["n"] straying) :: Machine.standardCommands
  store := { current := .ofVars [{ name := "x", binding := .scalar (.int 1) },
    { name := "a", binding := .array [("k", .int 2)] }] (by decide) }

theorem straying_isolated :
    strayingMachine.commands.lookup "stray" = some (.proc "stray" ["n"] straying) ∧
      ∃ e m', invokeTo 20 3 [.text "stray", .int 5] none strayingMachine =
          (.error (.exception e), m') ∧
        e.value.str = "invoked \"break\" outside of a loop" ∧
        strayingMachine.store.readAt 0 "x" none = some (.ok (.int 1)) ∧
        (∀ depth x index, m'.store.readAt depth x index =
          strayingMachine.store.readAt depth x index) ∧
        (e.code = .error ∨ ∃ n, e.code = .other n) := by
  have found : strayingMachine.commands.lookup (Value.text "stray").str =
      some (.proc "stray" ["n"] straying) := rfl
  have told : (Action.exception? (invokeTo 20 3 [.text "stray", .int 5] none strayingMachine)).map
      (·.value.str) = some "invoked \"break\" outside of a loop" := by decide +kernel
  obtain ⟨e, raised, message⟩ := Option.map_eq_some_iff.mp told
  obtain ⟨m', ended⟩ := Action.raised_of_exception? raised
  obtain ⟨reads, codes⟩ := (procedures_isolated found).1 none (.error e) m' ended
  exact ⟨found, e, m', ended, message, rfl, reads, codes e rfl⟩

end CommandVM
