import CommandVM.Proofs.Machine.Procedures
import CommandVM.Proofs.Variables.Callbacks

/-!
# Variables in the course of a run

Code changes variables by accesses, by looking for the variables of its slots, and by calls, which
come back to the scope that they left. What holds of each of these and goes on from one to the next
holds of every instruction, every command and every run, however they end.
-/

namespace CommandVM

/-- A way in which variables may change: it allows single accesses, goes on from change to change,
and what a call did to a scope of its own is nothing to the caller. -/
structure Course where
  rel : Store → Store → Prop
  refl : ∀ s, rel s s
  trans : ∀ {s s' s''}, rel s s' → rel s' s'' → rel s s''
  request : ∀ (r : Request) (s : Store), rel s (r.perform s).2
  resolve : ∀ (name : String) (s : Store), rel s (s.resolve name).2
  call : ∀ {s s' : Store}, rel s.pushScope s' → rel s s'.popScope

/-- Whatever comes of the action, the variables change as the course allows. -/
def Action.Abides {α : Type} (course : Course) (action : Action α) : Prop :=
  ∀ m, course.rel m.store (action m).2.store

variable {course : Course}

theorem Course.resolveAll (course : Course) (names : List String) (s : Store) :
    course.rel s (Store.resolveAll names s).2 := by
  induction names generalizing s with
  | nil => exact course.refl s
  | cons name names ih => exact course.trans (course.resolve name s) (ih _)

namespace Action.Abides

variable {α β : Type}

theorem pure {v : α} : Abides course (Pure.pure v : Action α) := fun m => course.refl m.store

theorem raise {e : Exception} : Abides course (Action.raise e : Action α) :=
  fun m => course.refl m.store

theorem read {f : Machine → α} : Abides course (Action.read f) := fun m => course.refl m.store

theorem modify {f : Machine → Machine} (kept : ∀ m, (f m).store = m.store) :
    Abides course (Action.modify f) := by
  intro m
  show course.rel m.store (f m).store
  rw [kept]
  exact course.refl m.store

theorem ofExcept {result : Except Fault α} : Abides course (Action.ofExcept result) := by
  cases result with
  | ok v => exact pure
  | error f => exact raise

theorem complete {outcome : Except Exception α} : Abides course (Action.complete outcome) := by
  cases outcome with
  | ok v => exact pure
  | error e => exact raise

theorem inspect {f : Stack → Except Violation α} : Abides course (Action.inspect f) := by
  intro m
  unfold Action.inspect
  split <;> exact course.refl m.store

theorem reshape {f : Stack → Except Violation Stack} : Abides course (Action.reshape f) := by
  intro m
  unfold Action.reshape
  split <;> exact course.refl m.store

theorem bind {action : Action α} {f : α → Action β} (first : action.Abides course)
    (second : ∀ v, (f v).Abides course) : (action >>= f).Abides course := by
  intro m
  have before := first m
  have unfolded : (action >>= f) m = Action.bind action f m := rfl
  rw [unfolded, Action.bind]
  generalize action m = result at before ⊢
  obtain ⟨outcome, m'⟩ := result
  cases outcome with
  | ok v => exact course.trans before (second v m')
  | error stop => exact before

theorem attempt {action : Action α} (h : action.Abides course) :
    (Action.attempt action).Abides course := by
  intro m
  have before := h m
  unfold Action.attempt
  generalize action m = result at before ⊢
  obtain ⟨outcome, m'⟩ := result
  cases outcome with
  | ok v => exact before
  | error stop => cases stop <;> exact before

theorem nested {action : Action α} (h : action.Abides course) :
    (Action.nested action).Abides course := by
  intro m
  unfold Action.nested
  by_cases full : m.maxNesting ≤ m.nesting
  · rw [if_pos full]
    exact raise m
  · rw [if_neg full]
    exact h { m with nesting := m.nesting + 1 }

theorem peekText {n : Nat} : (Action.peekText n).Abides course := bind inspect fun _ => pure

theorem request {f : Store → Except Fault Value × Store} (r : Request)
    (is : ∀ s, f s = r.perform s) : (Action.onStore f).Abides course := by
  intro m
  have allowed := course.request r m.store
  rw [← is] at allowed
  unfold Action.onStore
  dsimp only
  split <;> exact allowed

theorem access {var : Nat} {index : Option String} {access : Access} :
    (Action.access var index access).Abides course := request (.slot var index access) fun _ => rfl

theorem accessParts {name : String} {index : Option String} {access : Access} :
    (Action.accessParts name index access).Abides course :=
  request (.parts name index access) fun _ => rfl

theorem accessNamed {full : String} {access : Access} :
    (Action.accessNamed full access).Abides course := request (.named full access) fun _ => rfl

end Action.Abides

/-! ### Instructions -/

namespace Frame

open CommandVM.Action

variable {f : Frame} {i : Instruction} {pc : Nat} {v : Value} {invoke : Invoke}

theorem entry_abides {α : Type} {table : Table} {items : List α} {index : Nat} :
    (entry pc table items index).Abides course := by
  unfold entry
  split
  · exact .pure
  · exact .raise

theorem accessSlot_abides {slot : Nat} {index : Option String} {access : Access} :
    (f.accessSlot pc slot index access).Abides course := .bind entry_abides fun _ => .access

theorem integerOf_abides : (integerOf v).Abides course := by
  unfold integerOf
  split
  · exact .pure
  · exact .raise

theorem itemsOf_abides : (itemsOf v).Abides course := by
  unfold itemsOf
  split
  · exact .pure
  · exact .raise

theorem pick_abides {α : Type} {items : List α} : (pick items v).Abides course := by
  unfold pick
  split
  · exact .pure
  · exact .raise

theorem foreachItems_abides {lists : List ForeachList} :
    (f.foreachItems pc lists).Abides course := by
  induction lists with
  | nil => exact .pure
  | cons l lists ih =>
    refine .bind accessSlot_abides fun _ => .bind itemsOf_abides fun _ => ?_
    exact .bind ih fun _ => .pure

theorem assignItems_abides {items : List Value} {slots : List UInt32} {start : Nat} :
    (f.assignItems pc items start slots).Abides course := by
  induction slots generalizing start with
  | nil => exact .pure
  | cons slot slots ih => exact .bind accessSlot_abides fun _ => ih

theorem assignAll_abides {iteration : Nat} {pairs : List (ForeachList × List Value)} :
    (f.assignAll pc iteration pairs).Abides course := by
  induction pairs with
  | nil => exact .pure
  | cons pair pairs ih => exact .bind assignItems_abides fun _ => ih

theorem foreachStep_abides {index : Nat} : (f.foreachStep pc index).Abides course := by
  refine .bind entry_abides fun _ => .bind accessSlot_abides fun _ => ?_
  refine .bind integerOf_abides fun _ => .bind accessSlot_abides fun _ => ?_
  refine .bind foreachItems_abides fun _ => ?_
  split
  · exact .bind assignAll_abides fun _ => .pure
  · exact .pure

theorem tryNumeric_abides : tryNumeric.Abides course := by
  refine .bind .inspect fun _ => ?_
  split
  · exact .pure
  · split
    · exact .pure
    · exact .raise
    · exact .raise
    · exact .pure

theorem jumpIf_abides {wanted : Bool} {distance : Int} :
    (jumpIf wanted distance).Abides course := by
  refine .bind .inspect fun _ => ?_
  split
  · exact .raise
  · exact .pure

theorem callBuiltin_abides {function : MathFunction} {args : List Value} :
    (callBuiltin function args).Abides course := by
  intro m
  unfold callBuiltin
  dsimp only
  split <;> exact course.refl m.store

theorem callNamed_abides {name : String} {args : List Value} :
    (callNamed name args).Abides course := by
  refine .bind .read fun _ => ?_
  split
  · refine .bind .ofExcept fun _ => ?_
    split
    · exact .pure
    · exact .raise
  · split
    · exact callBuiltin_abides
    · exact .raise

theorem callIndex_abides : (callIndex i).Abides course := by
  refine .bind .inspect fun _ => ?_
  split
  · exact .bind callBuiltin_abides fun _ => .pure
  · exact .raise

theorem callStacked_abides {n : Nat} : (callStacked n).Abides course := by
  refine .bind .inspect fun _ => ?_
  split
  · exact .raise
  · exact .bind callNamed_abides fun _ => .pure

/-- One case for each shape of instruction; those that invoke a command abide as it does. -/
theorem step_abides (calls : ∀ argv, (invoke argv).Abides course) :
    (f.step invoke pc i).Abides course := by
  obtain ⟨op, operands⟩ := i
  cases op with
  | invokeStk1 | invokeStk4 => exact .bind .inspect fun argv => .bind (calls argv) fun _ => .pure
  | done | pop | jump1 | jump4 | endCatch | pushReturnCode => exact .pure
  | push1 | push4 | beginCatch4 => exact .bind entry_abides fun _ => .pure
  | dup | «over» | concat1 | list => exact .bind .inspect fun _ => .pure
  | loadScalar1 | loadScalar4 | incrScalar1Imm => exact .bind accessSlot_abides fun _ => .pure
  | loadScalarStk | incrScalarStkImm =>
    exact .bind .peekText fun _ => .bind .accessParts fun _ => .pure
  | loadArray1 | loadArray4 | incrArray1Imm =>
    exact .bind .peekText fun _ => .bind accessSlot_abides fun _ => .pure
  | loadArrayStk | incrArrayStkImm =>
    exact .bind .peekText fun _ => .bind .peekText fun _ => .bind .accessParts fun _ => .pure
  | loadStk => exact .bind .peekText fun _ => .bind .accessNamed fun _ => .pure
  | storeScalar1 | storeScalar4 | appendScalar1 | appendScalar4 | lappendScalar1
  | lappendScalar4 => exact .bind .inspect fun _ => .bind accessSlot_abides fun _ => .pure
  | storeScalarStk =>
    exact .bind .peekText fun _ => .bind .inspect fun _ => .bind .accessParts fun _ => .pure
  | storeArray1 | storeArray4 | appendArray1 | lappendArray1 =>
    exact .bind .peekText fun _ => .bind .inspect fun _ => .bind accessSlot_abides fun _ => .pure
  | storeArrayStk =>
    refine .bind .peekText fun _ => .bind .peekText fun _ => ?_
    exact .bind .inspect fun _ => .bind .accessParts fun _ => .pure
  | storeStk | appendStk | lappendStk =>
    exact .bind .peekText fun _ => .bind .inspect fun _ => .bind .accessNamed fun _ => .pure
  | incrScalar1 =>
    refine .bind (.bind .inspect fun _ => integerOf_abides) fun _ => ?_
    exact .bind accessSlot_abides fun _ => .pure
  | incrScalarStk =>
    refine .bind (.bind .inspect fun _ => integerOf_abides) fun _ => ?_
    exact .bind .peekText fun _ => .bind .accessParts fun _ => .pure
  | incrArray1 =>
    refine .bind (.bind .inspect fun _ => integerOf_abides) fun _ => ?_
    exact .bind .peekText fun _ => .bind accessSlot_abides fun _ => .pure
  | incrArrayStk =>
    refine .bind (.bind .inspect fun _ => integerOf_abides) fun _ => .bind .peekText fun _ => ?_
    exact .bind .peekText fun _ => .bind .accessParts fun _ => .pure
  | jumpTrue1 | jumpTrue4 | jumpFalse1 | jumpFalse4 => exact jumpIf_abides
  | lor | land =>
    refine .bind .inspect fun _ => .bind .ofExcept fun _ => ?_
    exact .bind .inspect fun _ => .bind .ofExcept fun _ => .pure
  | eq | neq | lt | gt | le | ge => exact .bind .inspect fun _ => .bind .inspect fun _ => .pure
  | bitor | bitxor | bitand | lshift | rshift | add | sub | mult | div | mod =>
    refine .bind .inspect fun _ => .bind .ofExcept fun _ => .bind .inspect fun _ => ?_
    exact .bind .ofExcept fun _ => .bind .ofExcept fun _ => .pure
  | uplus | uminus | bitnot =>
    exact .bind .inspect fun _ => .bind .ofExcept fun _ => .bind .ofExcept fun _ => .pure
  | not => exact .bind .inspect fun _ => .bind .ofExcept fun _ => .pure
  | callBuiltinFunc1 => exact callIndex_abides
  | callFunc1 => exact callStacked_abides
  | tryCvtToNumeric => exact tryNumeric_abides
  | breakLoop | continueLoop => exact .raise
  | foreachStart4 => exact .bind entry_abides fun _ => .bind accessSlot_abides fun _ => .pure
  | foreachStep4 => exact .bind foreachStep_abides fun _ => .pure
  | pushResult => exact .bind .read fun _ => .pure
  | strEq | strNeq | strCmp => exact .bind .peekText fun _ => .bind .peekText fun _ => .pure
  | strLen => exact .bind .peekText fun _ => .pure
  | strIndex =>
    exact .bind .peekText fun _ => .bind .inspect fun _ => .bind pick_abides fun _ => .pure
  | listLength => exact .bind .inspect fun _ => .bind itemsOf_abides fun _ => .pure
  | listIndex =>
    refine .bind .inspect fun _ => .bind itemsOf_abides fun _ => ?_
    exact .bind .inspect fun _ => .bind pick_abides fun _ => .pure
  | returnValue => exact .bind .inspect fun _ => .raise

theorem settle_abides {effect : Effect} : effect.settle.Abides course := by
  unfold Effect.settle
  split
  · exact .reshape
  · exact .bind .reshape fun _ => .modify fun _ => rfl
  · exact .bind .reshape fun _ => .reshape

theorem target_abides {next : Next} : (f.target pc i next).Abides course := by
  unfold target
  cases next with
  | done | advance => exact .pure
  | jump distance =>
    dsimp only
    split
    · exact .raise
    · exact .pure

theorem perform_abides (calls : ∀ argv, (invoke argv).Abides course) :
    (f.perform invoke pc i).Abides course := by
  refine .bind (step_abides calls) fun effect => .bind target_abides fun next => ?_
  split
  · exact .bind settle_abides fun _ => .pure
  · exact .pure

/-! ### Frames -/

theorem abandon_abides {e : Exception} : (f.abandon pc e).Abides course := by
  refine .bind .reshape fun _ => ?_
  split <;> exact .pure

theorem follow_abides {e : Exception} (route : Route) : (f.follow pc i e route).Abides course := by
  cases route with
  | exit r target => exact .bind .reshape fun _ => .pure
  | handler r target saved =>
    refine .bind .reshape fun _ => .bind (.modify fun m => ?_) fun _ => .pure
    unfold noteCaught
    dsimp only
    split <;> rfl
  | out => exact .bind abandon_abides fun _ => .pure

theorem recover_abides {e : Exception} : (f.recover pc i e).Abides course := by
  unfold recover
  split
  · exact .bind abandon_abides fun _ => .pure
  · rw [handle_eq]
    refine .bind (follow_abides _) fun next => ?_
    split <;> exact .pure

theorem result_abides : result.Abides course := by
  intro m
  unfold result
  split
  · split <;> exact course.refl m.store
  · exact course.refl m.store

theorem dispatch_abides (calls : ∀ argv, (invoke argv).Abides course) :
    (f.dispatch invoke pc).Abides course := by
  unfold dispatch
  split
  · exact .bind abandon_abides fun _ => .pure
  · refine .bind (.attempt (perform_abides calls)) fun outcome => ?_
    split
    · exact .bind .read fun _ => .pure
    · exact .bind result_abides fun _ => .pure
    · exact recover_abides

theorem run_abides (calls : ∀ argv, (invoke argv).Abides course) (fuel : Nat) :
    (f.run invoke fuel pc).Abides course := by
  induction fuel generalizing f pc with
  | zero => exact fun m => course.refl m.store
  | succ fuel ih =>
    intro m
    have before : course.rel m.store (f.dispatch invoke pc m).2.store := dispatch_abides calls m
    unfold run
    split
    · rename_i dispatched
      rw [dispatched] at before
      exact course.trans before (ih _)
    · rename_i dispatched
      rw [dispatched] at before
      exact course.trans before (Action.Abides.complete _)
    · rename_i dispatched
      rw [dispatched] at before
      exact before

theorem runUnit_abides (calls : ∀ argv, (invoke argv).Abides course) (fuel : Nat)
    (unit : CompiledUnit) : (runUnit invoke fuel unit).Abides course := by
  have enters : (enter unit).Abides course := fun m => course.resolveAll unit.locals m.store
  refine .bind enters fun entered => .bind (.attempt (run_abides calls fuel)) fun outcome => ?_
  exact .bind .reshape fun _ => .complete

end Frame

/-- From the entry of a frame to any of its moments, variables change as the course allows. -/
theorem Run.abides {invoke : Invoke} {u : CompiledUnit} {m : Machine}
    {past : List (Moment × Move)} {c : Moment} (calls : ∀ argv, (invoke argv).Abides course)
    (reached : Run invoke u m past c) :
    course.rel (Store.resolveAll u.locals m.store).2 c.machine.store := by
  induction reached with
  | enter => exact course.refl _
  | @go past c c' move _ moved ih =>
    have went := Moment.moves_iff.mp ⟨move, moved⟩
    have after : course.rel c.machine.store (c.frame.dispatch invoke c.pc c.machine).2.store :=
      Frame.dispatch_abides calls c.machine
    rw [went] at after
    exact course.trans ih after

/-! ### Commands -/

namespace Command

variable {calls : Calls}

theorem bindParams_abides {params : List (String × Value)} : (bindParams params).Abides course := by
  induction params with
  | nil => exact .pure
  | cons param params ih => exact .bind .accessNamed fun _ => ih

theorem inScope_abides {α : Type} {action : Action α} (h : action.Abides course) :
    (inScope action).Abides course :=
  fun m => course.call (h { m with store := m.store.pushScope })

theorem runPuts_abides {args : List Value} : (runPuts args).Abides course := by
  have writes (text : String) : (write text).Abides course :=
    .bind (.modify fun _ => rfl) fun _ => .pure
  unfold runPuts
  split
  · exact writes _
  · split
    · exact writes _
    · exact .raise
  · exact .raise

theorem completeWith_abides {code : Option Code} {v : Value} :
    (completeWith code v).Abides course := by
  cases code with
  | none => exact .pure
  | some code => exact .raise

theorem completeArgs_abides {code : Option Code} {args : List Value} :
    (completeArgs code args).Abides course := by
  unfold completeArgs
  split
  · exact completeWith_abides
  · exact completeWith_abides
  · exact .raise

theorem runReturn_abides {args : List Value} : (runReturn args).Abides course := by
  unfold runReturn
  split
  · split
    · split
      · exact completeArgs_abides
      · exact .raise
    · exact completeArgs_abides
  · exact completeArgs_abides

theorem run_abides (executes : ∀ unit, (calls.execute unit).Abides course)
    (invokes : ∀ argv hint, (calls.invoke argv hint).Abides course) (command : Command)
    (argv : List Value) : (command.run calls argv).Abides course := by
  cases command with
  | puts => exact runPuts_abides
  | list => exact .pure
  | error | breakLoop | continueLoop =>
    unfold run
    dsimp only
    split <;> exact .raise
  | returnValue => exact runReturn_abides
  | proc name params body =>
    unfold run runProc
    dsimp only
    split
    · exact .raise
    · refine .bind (.attempt (inScope_abides ?_)) fun _ => .complete
      exact .bind bindParams_abides fun _ => executes body
  | const v => exact .pure
  | raise code v => exact completeWith_abides
  | join => exact .pure
  | execute body => exact executes body
  | invoke hint => exact invokes _ hint
  | recurse => exact invokes argv none
  | get => exact .accessNamed
  | height => exact .bind .read fun _ => .pure
  | mark => exact .bind (.modify fun _ => rfl) fun _ => .pure

theorem runNamed_abides (executes : ∀ unit, (calls.execute unit).Abides course)
    (invokes : ∀ argv hint, (calls.invoke argv hint).Abides course) (name : String)
    (argv : List Value) : (runNamed calls name argv).Abides course := by
  refine .bind .read fun _ => ?_
  split
  · exact run_abides executes invokes _ argv
  · exact .raise

theorem finishInvoke_abides (hint : Option String) (outcome : Except Exception Value) :
    (finishInvoke hint outcome).Abides course := by
  cases outcome with
  | ok v => exact .bind (.modify fun _ => rfl) fun _ => .pure
  | error e => exact .bind (.modify fun _ => rfl) fun _ => .raise

end Command

/-- Whatever is executed or invoked, variables change as the course allows. -/
theorem calls_abide (fuel level : Nat) : (∀ unit, (executeTo fuel level unit).Abides course) ∧
    ∀ argv hint, (invokeTo fuel level argv hint).Abides course := by
  induction level with
  | zero =>
    refine ⟨fun unit => .raise, fun argv hint => ?_⟩
    cases argv with
    | nil => exact .pure
    | cons name args => exact .raise
  | succ level ih =>
    obtain ⟨executes, invokes⟩ := ih
    constructor
    · intro unit
      exact .nested (Frame.runUnit_abides (fun argv => invokes argv none) fuel unit)
    · intro argv hint
      cases argv with
      | nil => exact .pure
      | cons name args =>
        have runs : (Command.runNamed (callsTo fuel level) name.str (name :: args)).Abides course :=
          Command.runNamed_abides executes invokes name.str (name :: args)
        refine .bind (.nested (.attempt runs)) fun outcome => ?_
        exact Command.finishInvoke_abides hint outcome

theorem invoker_abides (fuel level : Nat) (argv : List Value) :
    (invoker fuel level argv).Abides course :=
  (calls_abide fuel level).2 argv none

end CommandVM
