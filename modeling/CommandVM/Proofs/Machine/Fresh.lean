import CommandVM.Proofs.Machine.Perform

/-!
# Where exceptions come from

An exception is made either for a fault or for a completion with a code. It has no place then, and
its trace is its message. All that an instruction raises of itself is as it was made; so is all that
a command raises that calls nothing.
-/

namespace CommandVM

/-- The exception is as it was made. -/
inductive Exception.Fresh : Exception → Prop where
  | fault (f : Fault) : Fresh (.ofFault f)
  | complete (code : Code) (v : Value) : Fresh (.complete code v)

namespace Exception.Fresh

variable {e : Exception}

theorem attributed (fresh : e.Fresh) : e.attributed = false := by cases fresh <;> rfl

theorem info_eq (fresh : e.Fresh) (error : e.code = .error) : e.info = e.value.str := by
  cases fresh with
  | fault f => rfl
  | complete code v => exact if_pos error

theorem code_eq_error (fresh : e.Fresh) {f : Fault} (about : e.fault = some f) :
    e.code = .error := by
  cases fresh with
  | fault f => rfl
  | complete code v => cases about

theorem outsideLoop (fresh : e.Fresh) : (Frame.outsideLoop e).Fresh := by
  unfold Frame.outsideLoop
  split
  · exact .fault _
  · exact fresh

end Exception.Fresh

namespace Action

/-- Every exception that the action raises is as it was made. -/
def RaisesFresh {α : Type} (action : Action α) : Prop :=
  ∀ m m' e, action m = (.error (.exception e), m') → e.Fresh

namespace RaisesFresh

variable {α β : Type}

theorem pure {v : α} : RaisesFresh (Pure.pure v : Action α) := by
  intro m m' e raised
  cases raised

theorem read {f : Machine → α} : (Action.read f).RaisesFresh := by
  intro m m' e raised
  cases raised

theorem modify {f : Machine → Machine} : (Action.modify f).RaisesFresh := by
  intro m m' e raised
  cases raised

theorem raise {e : Exception} (fresh : e.Fresh) : (Action.raise e : Action α).RaisesFresh := by
  intro m m' e raised
  cases raised
  exact fresh

theorem fault {f : Fault} : (Action.fault f : Action α).RaisesFresh := raise (.fault f)

theorem ofExcept {result : Except Fault α} : (Action.ofExcept result).RaisesFresh := by
  cases result with
  | ok v => exact pure
  | error f => exact fault

theorem bind {action : Action α} {f : α → Action β} (first : action.RaisesFresh)
    (second : ∀ v, (f v).RaisesFresh) : (action >>= f).RaisesFresh := by
  intro m m' e raised
  have unfolded : (action >>= f) m = Action.bind action f m := rfl
  rw [unfolded, Action.bind] at raised
  cases ended : action m with
  | mk outcome m₁ =>
    rw [ended] at raised
    cases outcome with
    | ok v => exact second v _ _ _ raised
    | error stop =>
      cases raised
      exact first _ _ _ ended

theorem inspect {f : Stack → Except Violation α} : (Action.inspect f).RaisesFresh := by
  intro m m' e raised
  unfold Action.inspect at raised
  split at raised <;> cases raised

theorem peekAt {n : Nat} : (Action.peekAt n).RaisesFresh := inspect

theorem peek : Action.peek.RaisesFresh := peekAt

theorem peekText {n : Nat} : (Action.peekText n).RaisesFresh := bind inspect fun _ => pure

theorem top {n : Nat} : (Action.top n).RaisesFresh := inspect

theorem onStore {f : Store → Except Fault Value × Store} : (Action.onStore f).RaisesFresh := by
  intro m m' e raised
  unfold Action.onStore at raised
  dsimp only at raised
  split at raised <;> cases raised
  exact .fault _

theorem access {var : Nat} {index : Option String} {access : Access} :
    (Action.access var index access).RaisesFresh := onStore

theorem accessParts {name : String} {index : Option String} {access : Access} :
    (Action.accessParts name index access).RaisesFresh := onStore

theorem accessNamed {full : String} {access : Access} :
    (Action.accessNamed full access).RaisesFresh := onStore

end RaisesFresh

end Action

/-! ### Instructions -/

namespace Frame

open CommandVM.Action

variable {f : Frame} {i : Instruction} {pc : Nat} {v : Value}

theorem entry_raisesFresh {α : Type} {table : Table} {items : List α} {index : Nat} :
    (entry pc table items index).RaisesFresh := by
  unfold entry
  split
  · exact .pure
  · exact .fault

theorem accessSlot_raisesFresh {slot : Nat} {index : Option String} {access : Access} :
    (f.accessSlot pc slot index access).RaisesFresh :=
  .bind entry_raisesFresh fun _ => .access

theorem integerOf_raisesFresh : (integerOf v).RaisesFresh := by
  unfold integerOf
  split
  · exact .pure
  · exact .fault

theorem topInteger_raisesFresh : topInteger.RaisesFresh :=
  .bind .peek fun _ => integerOf_raisesFresh

theorem itemsOf_raisesFresh : (itemsOf v).RaisesFresh := by
  unfold itemsOf
  split
  · exact .pure
  · exact .fault

theorem pick_raisesFresh {α : Type} {items : List α} : (pick items v).RaisesFresh := by
  unfold pick
  split
  · exact .pure
  · exact .fault

theorem storeSlot_raisesFresh {slot : Nat} {mode : WriteMode} :
    (f.storeSlot pc slot mode).RaisesFresh :=
  .bind .peek fun _ => .bind accessSlot_raisesFresh fun _ => .pure

theorem storeElement_raisesFresh {slot : Nat} {mode : WriteMode} :
    (f.storeElement pc slot mode).RaisesFresh :=
  .bind .peekText fun _ => .bind .peek fun _ => .bind accessSlot_raisesFresh fun _ => .pure

theorem storeNamed_raisesFresh {mode : WriteMode} : (storeNamed mode).RaisesFresh :=
  .bind .peekText fun _ => .bind .peek fun _ => .bind .accessNamed fun _ => .pure

theorem foreachItems_raisesFresh {lists : List ForeachList} :
    (f.foreachItems pc lists).RaisesFresh := by
  induction lists with
  | nil => exact .pure
  | cons l lists ih =>
    refine .bind accessSlot_raisesFresh fun _ => .bind itemsOf_raisesFresh fun _ => ?_
    exact .bind ih fun _ => .pure

theorem assignItems_raisesFresh {items : List Value} {slots : List UInt32} {start : Nat} :
    (f.assignItems pc items start slots).RaisesFresh := by
  induction slots generalizing start with
  | nil => exact .pure
  | cons slot slots ih => exact .bind accessSlot_raisesFresh fun _ => ih

theorem assignAll_raisesFresh {iteration : Nat} {pairs : List (ForeachList × List Value)} :
    (f.assignAll pc iteration pairs).RaisesFresh := by
  induction pairs with
  | nil => exact .pure
  | cons pair pairs ih => exact .bind assignItems_raisesFresh fun _ => ih

theorem foreachStart_raisesFresh {index : Nat} : (f.foreachStart pc index).RaisesFresh :=
  .bind entry_raisesFresh fun _ => .bind accessSlot_raisesFresh fun _ => .pure

theorem foreachStep_raisesFresh {index : Nat} : (f.foreachStep pc index).RaisesFresh := by
  refine .bind entry_raisesFresh fun _ => .bind accessSlot_raisesFresh fun _ => ?_
  refine .bind integerOf_raisesFresh fun _ => .bind accessSlot_raisesFresh fun _ => ?_
  refine .bind foreachItems_raisesFresh fun _ => ?_
  split
  · exact .bind assignAll_raisesFresh fun _ => .pure
  · exact .pure

theorem logical_raisesFresh {symbol : String} {op : Bool → Bool → Bool} :
    (logical symbol op).RaisesFresh :=
  .bind .peekAt fun _ => .bind .ofExcept fun _ => .bind .peekAt fun _ => .bind .ofExcept fun _ =>
    .pure

theorem comparison_raisesFresh {r : Relation} : (comparison r).RaisesFresh :=
  .bind .peekAt fun _ => .bind .peekAt fun _ => .pure

theorem binary_raisesFresh {op : BinaryOp} : (binary op).RaisesFresh :=
  .bind .peekAt fun _ => .bind .ofExcept fun _ => .bind .peekAt fun _ => .bind .ofExcept fun _ =>
    .bind .ofExcept fun _ => .pure

theorem unary_raisesFresh {op : Opcode} : (unary op).RaisesFresh :=
  .bind .peek fun _ => .bind .ofExcept fun _ => .bind .ofExcept fun _ => .pure

theorem tryNumeric_raisesFresh : tryNumeric.RaisesFresh := by
  refine .bind .peek fun _ => ?_
  split
  · exact .pure
  · split
    · exact .pure
    · exact .fault
    · exact .fault
    · exact .pure

theorem textEquality_raisesFresh {wanted : Bool} : (textEquality wanted).RaisesFresh :=
  .bind .peekText fun _ => .bind .peekText fun _ => .pure

theorem textOrder_raisesFresh : textOrder.RaisesFresh :=
  .bind .peekText fun _ => .bind .peekText fun _ => .pure

theorem jumpIf_raisesFresh {wanted : Bool} {distance : Int} :
    (jumpIf wanted distance).RaisesFresh := by
  refine .bind .peek fun _ => ?_
  split
  · exact .fault
  · exact .pure

theorem callBuiltin_raisesFresh {function : MathFunction} {args : List Value} :
    (callBuiltin function args).RaisesFresh := by
  intro m m' e raised
  unfold callBuiltin at raised
  dsimp only at raised
  split at raised <;> cases raised
  exact .fault _

theorem callUser_raisesFresh {function : UserFunction} {args : List Value} :
    (callUser function args).RaisesFresh := by
  refine .bind .ofExcept fun _ => ?_
  split
  · exact .pure
  · rename_i e failed
    refine .raise (Exception.Fresh.outsideLoop ?_)
    unfold callBody at failed
    repeat' split at failed
    all_goals cases failed
    exact .complete _ _

theorem callNamed_raisesFresh {name : String} {args : List Value} :
    (callNamed name args).RaisesFresh := by
  refine .bind .read fun _ => ?_
  split
  · exact callUser_raisesFresh
  · split
    · exact callBuiltin_raisesFresh
    · exact .fault

theorem callIndex_raisesFresh : (callIndex i).RaisesFresh := by
  refine .bind .top fun _ => ?_
  split
  · exact .bind callBuiltin_raisesFresh fun _ => .pure
  · exact .fault

theorem callStacked_raisesFresh {n : Nat} : (callStacked n).RaisesFresh := by
  refine .bind .top fun _ => ?_
  split
  · exact .fault
  · exact .bind callNamed_raisesFresh fun _ => .pure

theorem step_raisesFresh {invoke : Invoke} (quiet : i.opcode.invokes = false) :
    (f.step invoke pc i).RaisesFresh := by
  obtain ⟨op, operands⟩ := i
  cases op with
  | invokeStk1 | invokeStk4 => cases quiet
  | done | pop | jump1 | jump4 | endCatch | pushReturnCode => exact .pure
  | push1 | push4 | beginCatch4 => exact .bind entry_raisesFresh fun _ => .pure
  | dup => exact .bind .peek fun _ => .pure
  | «over» => exact .bind .peekAt fun _ => .pure
  | concat1 | list => exact .bind .top fun _ => .pure
  | loadScalar1 | loadScalar4 | incrScalar1Imm => exact .bind accessSlot_raisesFresh fun _ => .pure
  | loadScalarStk | incrScalarStkImm =>
    exact .bind .peekText fun _ => .bind .accessParts fun _ => .pure
  | loadArray1 | loadArray4 | incrArray1Imm =>
    exact .bind .peekText fun _ => .bind accessSlot_raisesFresh fun _ => .pure
  | loadArrayStk | incrArrayStkImm =>
    exact .bind .peekText fun _ => .bind .peekText fun _ => .bind .accessParts fun _ => .pure
  | loadStk => exact .bind .peekText fun _ => .bind .accessNamed fun _ => .pure
  | storeScalar1 | storeScalar4 | appendScalar1 | appendScalar4 | lappendScalar1
  | lappendScalar4 => exact storeSlot_raisesFresh
  | storeScalarStk =>
    exact .bind .peekText fun _ => .bind .peek fun _ => .bind .accessParts fun _ => .pure
  | storeArray1 | storeArray4 | appendArray1 | lappendArray1 => exact storeElement_raisesFresh
  | storeArrayStk =>
    refine .bind .peekText fun _ => .bind .peekText fun _ => ?_
    exact .bind .peek fun _ => .bind .accessParts fun _ => .pure
  | storeStk | appendStk | lappendStk => exact storeNamed_raisesFresh
  | incrScalar1 =>
    exact .bind topInteger_raisesFresh fun _ => .bind accessSlot_raisesFresh fun _ => .pure
  | incrScalarStk =>
    refine .bind topInteger_raisesFresh fun _ => .bind .peekText fun _ => ?_
    exact .bind .accessParts fun _ => .pure
  | incrArray1 =>
    refine .bind topInteger_raisesFresh fun _ => .bind .peekText fun _ => ?_
    exact .bind accessSlot_raisesFresh fun _ => .pure
  | incrArrayStk =>
    refine .bind topInteger_raisesFresh fun _ => .bind .peekText fun _ => ?_
    exact .bind .peekText fun _ => .bind .accessParts fun _ => .pure
  | jumpTrue1 | jumpTrue4 | jumpFalse1 | jumpFalse4 => exact jumpIf_raisesFresh
  | lor | land => exact logical_raisesFresh
  | eq | neq | lt | gt | le | ge => exact comparison_raisesFresh
  | bitor | bitxor | bitand | lshift | rshift | add | sub | mult | div | mod =>
    exact binary_raisesFresh
  | uplus | uminus | bitnot => exact unary_raisesFresh
  | not => exact .bind .peek fun _ => .bind .ofExcept fun _ => .pure
  | callBuiltinFunc1 => exact callIndex_raisesFresh
  | callFunc1 => exact callStacked_raisesFresh
  | tryCvtToNumeric => exact tryNumeric_raisesFresh
  | breakLoop | continueLoop => exact .raise (.complete _ _)
  | foreachStart4 => exact foreachStart_raisesFresh
  | foreachStep4 => exact .bind foreachStep_raisesFresh fun _ => .pure
  | pushResult => exact .bind .read fun _ => .pure
  | strEq | strNeq => exact textEquality_raisesFresh
  | strCmp => exact textOrder_raisesFresh
  | strLen => exact .bind .peekText fun _ => .pure
  | strIndex =>
    exact .bind .peekText fun _ => .bind .peek fun _ => .bind pick_raisesFresh fun _ => .pure
  | listLength => exact .bind .peek fun _ => .bind itemsOf_raisesFresh fun _ => .pure
  | listIndex =>
    refine .bind .peekAt fun _ => .bind itemsOf_raisesFresh fun _ => ?_
    exact .bind .peek fun _ => .bind pick_raisesFresh fun _ => .pure
  | returnValue => exact .bind .peek fun _ => .raise (.complete _ _)

theorem settle_raisesFresh {effect : Effect} : effect.settle.RaisesFresh := by
  intro m m' e raised
  rcases effect.settle_cases m with ⟨s, settled, _⟩ | ⟨v, m₁, failed⟩
  · rw [settled] at raised
    cases raised
  · rw [failed] at raised
    cases raised

theorem target_raisesFresh {next : Next} : (f.target pc i next).RaisesFresh := by
  unfold target
  cases next with
  | done | advance => exact .pure
  | jump distance =>
    dsimp only
    split
    · exact .fault
    · exact .pure

/-- An instruction that invokes no command raises exceptions of its own making only. -/
theorem perform_raisesFresh {invoke : Invoke} (quiet : i.opcode.invokes = false) :
    (f.perform invoke pc i).RaisesFresh := by
  refine .bind (step_raisesFresh quiet) fun effect => .bind target_raisesFresh fun next => ?_
  split
  · exact .bind settle_raisesFresh fun _ => .pure
  · exact .pure

end Frame

/-! ### Commands -/

namespace Command

open CommandVM.Action

theorem bindParams_raisesFresh {params : List (String × Value)} :
    (bindParams params).RaisesFresh := by
  induction params with
  | nil => exact .pure
  | cons param params ih => exact .bind .accessNamed fun _ => ih

theorem write_raisesFresh {text : String} : (write text).RaisesFresh :=
  .bind .modify fun _ => .pure

theorem runPuts_raisesFresh {args : List Value} : (runPuts args).RaisesFresh := by
  unfold runPuts
  split
  · exact write_raisesFresh
  · split
    · exact write_raisesFresh
    · exact .fault
  · exact .fault

theorem completeWith_raisesFresh {code : Option Code} {v : Value} :
    (completeWith code v).RaisesFresh := by
  cases code with
  | none => exact .pure
  | some code => exact .raise (.complete _ _)

theorem completeArgs_raisesFresh {code : Option Code} {args : List Value} :
    (completeArgs code args).RaisesFresh := by
  unfold completeArgs
  split
  · exact completeWith_raisesFresh
  · exact completeWith_raisesFresh
  · exact .fault

theorem runReturn_raisesFresh {args : List Value} : (runReturn args).RaisesFresh := by
  unfold runReturn
  split
  · split
    · split
      · exact completeArgs_raisesFresh
      · exact .raise (.fault _)
    · exact completeArgs_raisesFresh
  · exact completeArgs_raisesFresh

/-- The command is a procedure. -/
def isProc : Command → Bool
  | .proc .. => true
  | _ => false

/-- The command is a procedure or one of those that every program may use. -/
def isStandard : Command → Bool
  | .proc .. | .puts | .list | .error | .breakLoop | .continueLoop | .returnValue => true
  | _ => false

/-- The commands that every program may use raise exceptions of their own making only. -/
theorem run_raisesFresh {calls : Calls} {command : Command} {argv : List Value}
    (standard : command.isStandard = true) (other : command.isProc = false) :
    (command.run calls argv).RaisesFresh := by
  cases command with
  | proc name params body => cases other
  | puts => exact runPuts_raisesFresh
  | list => exact .pure
  | error =>
    unfold run
    dsimp only
    split
    · exact .raise (.fault _)
    · exact .fault
  | breakLoop | continueLoop =>
    unfold run
    dsimp only
    split
    · exact .raise (.complete _ _)
    · exact .fault
  | returnValue => exact runReturn_raisesFresh
  | _ => cases standard

end Command

/-- Every command is a procedure or one of those that every program may use. -/
def Machine.Standard (m : Machine) : Prop :=
  ∀ pair ∈ m.commands, pair.2.isStandard = true

instance (m : Machine) : Decidable m.Standard :=
  inferInstanceAs (Decidable (∀ pair ∈ m.commands, pair.2.isStandard = true))

theorem Machine.Standard.lookup {m : Machine} (standard : m.Standard) {name : String}
    {command : Command} (found : m.commands.lookup name = some command) :
    command.isStandard = true := by
  obtain ⟨before, after, split, _⟩ := List.lookup_eq_some_iff.mp found
  exact standard (name, command) (by simp [split])

end CommandVM
