import CommandVM.Proofs.Machine.Fresh
import CommandVM.Proofs.Machine.Procedures

/-!
# The stack effect of an instruction

An instruction says how many values it takes and gives. With that many on the stack it stays within
the bounds of its frame: it swaps them, or fails and leaves all values alone. With fewer it does not
succeed, since the steps look at the lowest operand before they tell an effect.
-/

namespace CommandVM

/-! ### Actions that need operands -/

namespace Action

variable {α β : Type} {need n : Nat} {action : Action α} {f : α → Action β}

/-- The action gives a value only if there are at least `need` values above the floor. -/
def Needs (need : Nat) (action : Action α) : Prop :=
  ∀ m v m', action m = (.ok v, m') → need ≤ m.stack.depth

namespace Needs

theorem zero : Needs 0 action := fun _ _ _ _ => Nat.zero_le _

theorem bind (first : Needs need action) : Needs need (action >>= f) := by
  intro m v m' ended
  cases looked : action m with
  | mk outcome m₁ =>
    cases outcome with
    | ok a => exact first m a m₁ looked
    | error stop =>
      simp only [Bind.bind, Action.bind, looked] at ended
      cases ended

theorem after {raises : Exception → Prop} {gives : α → Prop} (reads : Reads n raises gives action)
    (second : ∀ a, Needs need (f a)) : Needs need (action >>= f) := by
  intro m v m' ended
  have kept := (reads m).1.stack
  cases looked : action m with
  | mk outcome m₁ =>
    rw [looked] at kept
    simp only [Bind.bind, Action.bind, looked] at ended
    cases outcome with
    | ok a =>
      have enough := second a m₁ v m' ended
      rwa [kept] at enough
    | error stop => cases ended

theorem peekAt : Needs (n + 1) (Action.peekAt n) := by
  intro m v m' ended
  apply Nat.le_of_not_lt
  intro few
  simp only [Action.peekAt, inspect, Stack.peekAt, if_neg (show ¬ n < m.stack.depth by omega)]
    at ended
  cases ended

theorem peek : Needs 1 Action.peek := peekAt

theorem peekText : Needs (n + 1) (Action.peekText n) := bind peekAt

theorem top : Needs n (Action.top n) := by
  intro m v m' ended
  apply Nat.le_of_not_lt
  intro few
  simp only [Action.top, inspect, Stack.top, if_pos few] at ended
  cases ended

end Needs

end Action

/-! ### Violations inside a call -/

/-- The violation is that of a frame which runs the body of a procedure on top of the stack. -/
def Machine.ViolatedInside (fuel level : Nat) (m : Machine) (v : Violation) : Prop :=
  ∃ inside word name params body inner m', level = inside + 1 ∧
    m.commands.lookup word = some (.proc name params body) ∧ inner.stack = m.stack ∧
    executeTo fuel inside body inner = (.error (.violation v), m')

variable {m m' : Machine} {fuel level : Nat} {v : Violation} {calls : Calls}

namespace Command

variable {name : String} {params : List String} {body : CompiledUnit} {args : List Value}
  {command : Command}

/-- Of the commands that every program may use only procedures can violate the bounds of the
stack. -/
theorem run_stays (standard : command.isStandard = true) (other : command.isProc = false)
    (calls : Calls) (argv : List Value) : (command.run calls argv).Behaves fun _ => True := by
  cases command with
  | proc name params body => cases other
  | puts => exact runPuts_behaves
  | list => exact .pure
  | error | breakLoop | continueLoop =>
    unfold run
    dsimp only
    split <;> exact .raise
  | returnValue => exact runReturn_behaves
  | _ => cases standard

theorem violated_of_finishing {hint : Option String} {ended : Except Stop Value × Machine}
    (violated : finishing hint ended = (.error (.violation v), m')) :
    ∃ m₁, ended = (.error (.violation v), m₁) := by
  obtain ⟨outcome, m₁⟩ := ended
  cases outcome with
  | ok v => cases violated
  | error stop =>
    cases stop with
    | exception e => cases violated
    | violation w =>
      cases violated
      exact ⟨m₁, rfl⟩
    | outOfFuel => cases violated

theorem violated_of_closing {ended : Except Stop Value × Machine}
    (violated : closing name ended = (.error (.violation v), m')) :
    ∃ m₁, ended = (.error (.violation v), m₁) := by
  obtain ⟨outcome, m₁⟩ := ended
  cases outcome with
  | ok v => cases violated
  | error stop =>
    cases stop with
    | exception e =>
      have completed : Action.complete (procCompletion name (.error e)) m₁.returned =
          (.error (.violation v), m') := violated
      cases ending : procCompletion name (.error e) <;> rw [ending] at completed <;> cases completed
    | violation w =>
      cases violated
      exact ⟨m₁, rfl⟩
    | outOfFuel => cases violated

theorem violated_of_procBody (violated : procBody calls params body args m =
    (.error (.violation v), m')) :
    ∃ inner, inner.stack = m.stack ∧ calls.execute body inner = (.error (.violation v), m') := by
  have binds : (bindParams (params.zip args)).Behaves fun _ => True := bindParams_behaves
  simp only [procBody, bind, Action.bind] at violated
  cases bound : bindParams (params.zip args) m with
  | mk outcome inner =>
    rw [bound] at violated
    cases outcome with
    | ok _ => exact ⟨inner, (binds.restores.ok bound).stack, violated⟩
    | error stop =>
      cases violated
      exact absurd trivial (binds.sound bound)

theorem violated_of_runProc (violated : runProc calls name params body args m =
    (.error (.violation v), m')) :
    ∃ inner m₁, inner.stack = m.stack ∧
      calls.execute body inner = (.error (.violation v), m₁) := by
  by_cases fits : args.length = params.length
  · rw [runProc_eq fits] at violated
    obtain ⟨m₁, ended⟩ := violated_of_closing violated
    obtain ⟨inner, same, executed⟩ := violated_of_procBody ended
    exact ⟨inner, m₁, same, executed⟩
  · rw [runProc_misfit fits] at violated
    cases violated

end Command

theorem violated_of_invoker (standard : m.Standard) {argv : List Value}
    (violated : invoker fuel level argv m = (.error (.violation v), m')) :
    m.ViolatedInside fuel level v := by
  cases argv with
  | nil =>
    rw [invoker, invokeTo] at violated
    cases violated
  | cons word args =>
    rw [invoker] at violated
    rcases invokeTo_cases fuel level word args none m with refused | ⟨inside, rfl, _, ran⟩
    · rw [refused] at violated
      cases violated
    · rw [ran] at violated
      obtain ⟨m₁, ended⟩ := Command.violated_of_finishing violated
      cases found : m.commands.lookup word.str with
      | none =>
        have absent : m.deeper.commands.lookup word.str = none := found
        rw [Command.runNamed_unknown absent] at ended
        cases ended
      | some command =>
        have known : m.deeper.commands.lookup word.str = some command := found
        rw [Command.runNamed_eq known] at ended
        cases other : command.isProc with
        | false =>
          have stays := Command.run_stays (standard.lookup found) other (callsTo fuel inside)
            (word :: args)
          exact absurd trivial (stays.sound ended)
        | true =>
          cases command with
          | proc name params body =>
            obtain ⟨inner, m₂, same, executed⟩ := Command.violated_of_runProc ended
            exact ⟨inside, word.str, name, params, body, inner, m₂, rfl, found, same, executed⟩
          | _ => cases other

/-! ### Steps -/

namespace Frame

open CommandVM.Action

variable {invoke : Invoke} {f : Frame} {pc : Nat} {i : Instruction} {effect : Effect}

/-- A step that tells an effect has found all operands, but for `POP`, which looks at none. -/
theorem step_needs (goesOn : i.opcode ≠ .done) (looks : i.opcode ≠ .pop) :
    Needs i.pops (f.step invoke pc i) := by
  obtain ⟨op, operands⟩ := i
  cases op with
  | done => exact absurd rfl goesOn
  | pop => exact absurd rfl looks
  | push1 | push4 | loadScalar1 | loadScalar4 | incrScalar1Imm | jump1 | jump4 | breakLoop
  | continueLoop | foreachStart4 | foreachStep4 | beginCatch4 | endCatch | pushResult
  | pushReturnCode => exact .zero
  | dup | storeScalar1 | storeScalar4 | appendScalar1 | appendScalar4 | lappendScalar1
  | lappendScalar4 | jumpTrue1 | jumpTrue4 | jumpFalse1 | jumpFalse4 | uplus | uminus | bitnot
  | not | tryCvtToNumeric | listLength | returnValue => exact .bind .peek
  | concat1 | list | invokeStk1 | invokeStk4 | callBuiltinFunc1 | callFunc1 => exact .bind .top
  | loadScalarStk | loadArray1 | loadArray4 | loadArrayStk | loadStk | storeScalarStk
  | storeArray1 | storeArray4 | storeArrayStk | storeStk | incrScalarStkImm | incrArray1Imm
  | incrArrayStkImm | appendArray1 | appendStk | lappendArray1 | lappendStk | strEq | strNeq
  | strCmp | strLen | strIndex => exact .bind .peekText
  | lor | land | eq | neq | lt | gt | le | ge | bitor | bitxor | bitand | lshift | rshift | add
  | sub | mult | div | mod | listIndex | «over» => exact .bind .peekAt
  | incrScalar1 => exact .bind (.bind .peek)
  | incrScalarStk | incrArray1 | incrArrayStk =>
    -- The amount is on top, so the lowest operand is the second one looked at.
    have amount : Reads 1 (f.Raises ⟨.incrScalarStk, operands⟩) (fun _ => True) topInteger :=
      topInteger_reads Nat.one_pos
    exact .after amount fun _ => .bind .peekText

theorem needs_of_settled (goesOn : i.opcode ≠ .done) {m₁ m₂ : Machine}
    (told : f.step invoke pc i m = (.ok effect, m₁)) (settled : effect.settle m₁ = (.ok (), m₂)) :
    i.pops ≤ m.stack.depth := by
  by_cases pops : i.opcode = .pop
  · obtain ⟨op, operands⟩ := i
    cases pops
    cases told
    have dropped : Action.reshape (·.discard 1) m = (.ok (), m₂) := settled
    unfold Action.reshape at dropped
    split at dropped
    · rename_i s done
      exact (Stack.discard_ok done).1
    · cases dropped
  · exact step_needs goesOn pops m effect m₁ told

/-- The outcome of a step agrees with the numbers of values that the instruction takes and gives. An
effect swaps so many values; an exception leaves them all alone; violations are not those of this
frame. -/
def Agrees (fuel level : Nat) (i : Instruction) (m : Machine) :
    Except Stop Effect × Machine → Prop
  | (.ok effect, m₁) => ∃ s, effect.settle m₁ = (.ok (), { m₁ with stack := s }) ∧
      s.floor = m.stack.floor ∧ s.depth = m.stack.depth - i.pops + i.pushes ∧
      s.slots.drop i.pushes = m.stack.slots.drop i.pops
  | (.error (.exception _), m₁) => m₁.stack = m.stack
  | (.error (.violation v), _) => i.opcode.invokes = true ∧ m.ViolatedInside fuel level v
  | (.error .outOfFuel, _) => i.opcode.invokes = true

/-- An instruction other than `DONE` whose operands are on the stack agrees with the numbers of
values that it takes and gives; one whose operands are missing never succeeds. -/
theorem instruction_effect_agrees (standard : m.Standard) (goesOn : i.opcode ≠ .done)
    (fuel level : Nat) (f : Frame) (pc : Nat) :
    (m.stack.floor + i.pops ≤ m.stack.height →
      Agrees fuel level i m (f.step (invoker fuel level) pc i m)) ∧
    (m.stack.depth < i.pops → ∀ effect m₁ m₂,
      f.step (invoker fuel level) pc i m = (.ok effect, m₁) → effect.settle m₁ ≠ (.ok (), m₂)) := by
  constructor
  · intro enough
    have keeping := invoker_keeping fuel level
    have deep : i.pops ≤ m.stack.depth := by rw [Stack.depth]; omega
    have steps := step_steps (invoker fuel level) f pc i m
    cases stepped : f.step (invoker fuel level) pc i m with
    | mk outcome m₁ =>
      rw [stepped] at steps
      cases outcome with
      | ok effect =>
        have same := (step_keeps keeping stepped).stack
        obtain ⟨s, settled, swaps⟩ := (step_suits stepped).settles goesOn (m := m₁) (by rwa [same])
        rw [same] at swaps
        obtain ⟨front, count, slots⟩ := swaps.slots
        refine ⟨s, settled, swaps.floor, swaps.depth (by omega) deep, ?_⟩
        rw [slots, ← count, List.drop_left]
      | error stop =>
        cases steps with
        | raises _ kept => exact kept.stack
        | lacks few => omega
        | fails invokes ended =>
          cases stop with
          | exception e => exact ((keeping _).exception ended).stack
          | violation v => exact ⟨invokes, violated_of_invoker standard ended⟩
          | outOfFuel => exact invokes
  · intro few effect m₁ m₂ told settled
    have deep := needs_of_settled goesOn told settled
    omega

/-- The words of a command above a value of the caller. -/
def listing : Machine where
  commands := Machine.standardCommands
  stack := { slots := [.int 1, .text "list", .text "caller"], floor := 1 }

theorem listing_effect_agrees :
    listing.Standard ∧ ∃ (f : Frame) (effect : Effect) (m₁ : Machine) (s : Stack),
      f.step (invoker 0 1) 0 ⟨.invokeStk1, [2]⟩ listing = (.ok effect, m₁) ∧
      effect.settle m₁ = (.ok (), { m₁ with stack := s }) ∧ s.depth = 1 ∧
      s.slots.drop 1 = [.text "caller"] ∧
      ∀ effect m₁ m₂, f.step (invoker 0 1) 0 ⟨.invokeStk1, [3]⟩ listing = (.ok effect, m₁) →
        effect.settle m₁ ≠ (.ok (), m₂) := by
  have standard : listing.Standard := by decide
  let f : Frame := { unit := {}, base := 1, slots := [] }
  have told : f.step (invoker 0 1) 0 ⟨.invokeStk1, [2]⟩ listing =
      (.ok (.push 2 (.list [.int 1])), { listing with result := .list [.int 1] }) := rfl
  have agrees := (instruction_effect_agrees (i := ⟨.invokeStk1, [2]⟩) standard nofun 0 1 f 0).1
    (by decide)
  have overdrawn := (instruction_effect_agrees (i := ⟨.invokeStk1, [3]⟩) standard nofun 0 1 f 0).2
    (by decide)
  rw [told] at agrees
  obtain ⟨s, settled, _, depth, below⟩ := agrees
  exact ⟨standard, f, _, _, s, told, settled, depth, below, overdrawn⟩

end Frame

end CommandVM
