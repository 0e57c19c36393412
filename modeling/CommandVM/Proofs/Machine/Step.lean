import CommandVM.Proofs.Machine.Ordinary
import CommandVM.Proofs.Machine.Reads
import CommandVM.Verifier.Layout

/-!
# What a step may do

One case for each opcode: a step looks at no more operands than the instruction takes, and its
effect replaces them by as many values as the instruction gives. Beyond ordinary faults it raises
only the exception of a loop exit, or an error over a table that lacks an entry. The steps that
invoke a command are set apart: they end as the command does.
-/

namespace CommandVM

/-- The opcode invokes a command. -/
def Opcode.invokes : Opcode → Bool
  | .invokeStk1 | .invokeStk4 => true
  | _ => false

/-- The effect takes the operands of the instruction, gives as many values as the instruction does,
and sends control where the instruction may. -/
inductive Effect.Suits (i : Instruction) : Effect → Prop where
  | done : i.opcode = .done → Suits i { next := .done }
  | discard {n : Nat} : i.opcode.isTerminal = false → n + i.pushes = i.pops → Suits i (.discard n)
  | push {n : Nat} {v : Value} : i.opcode.isTerminal = false → n ≤ i.pops →
      n + i.pushes = i.pops + 1 → Suits i (.push n v)
  | replace {n : Nat} {x : Number} : i.opcode.isTerminal = false → 0 < n → n ≤ i.pops →
      n + i.pushes = i.pops + 1 → Suits i (.replace n x)
  | jump {n : Nat} : i.opcode.isJump = true → n + i.pushes = i.pops →
      Suits i (.jump n (i.operand 0))

namespace Frame

/-- The tables have the entries that the instruction names. -/
def Finds (f : Frame) (i : Instruction) : Prop :=
  match i.opcode with
  | .push1 | .push4 => i.index < f.unit.literals.length
  | .foreachStart4 | .foreachStep4 => ∃ info, f.unit.foreachInfos[i.index]? = some info ∧
      ∀ slot ∈ Verifier.foreachSlots info, slot.toNat < f.slots.length
  | .beginCatch4 => i.index < f.unit.ranges.length
  | op => op.takesLocal = true → i.index < f.slots.length

/-- The exceptions that the instruction may raise of itself. -/
inductive Raises (f : Frame) (i : Instruction) (e : Exception) : Prop where
  | ordinary : e.Ordinary → Raises f i e
  | missing : ¬ f.Finds i → e.code.loopExit? = none → Raises f i e
  | breakLoop : i.opcode = .breakLoop → e = .complete .breakLoop Value.empty → Raises f i e
  | continueLoop : i.opcode = .continueLoop → e = .complete .continueLoop Value.empty →
      Raises f i e

open CommandVM.Action

variable {f : Frame} {i : Instruction} {pc slot index need : Nat} {v : Value} {access : Access}

/-! ### Tables and operands -/

theorem entry_of_some {α : Type} {table : Table} {items : List α} {item : α} {m : Machine}
    (found : items[index]? = some item) : entry pc table items index m = (.ok item, m) := by
  rw [entry, found]
  rfl

theorem entry_reads {α : Type} {table : Table} {items : List α}
    (present : f.Finds i → index < items.length) :
    Reads need (f.Raises i) (fun item => items[index]? = some item)
      (entry pc table items index) := by
  unfold entry
  split
  · rename_i item found
    exact .pure found
  · rename_i absent
    refine .raise (.missing ?_ rfl)
    intro finds
    rw [List.getElem?_eq_getElem (present finds)] at absent
    cases absent

theorem accessSlot_reads {element : Option String}
    (present : f.Finds i → slot < f.slots.length) :
    Reads need (f.Raises i) (fun _ => True) (f.accessSlot pc slot element access) := by
  refine .bind (entry_reads present) ?_
  intro var _
  exact .access .ordinary

theorem integerOf_reads : Reads need (f.Raises i) (fun _ => True) (integerOf v) := by
  unfold integerOf
  split
  · exact .pure trivial
  · exact .fault .ordinary nofun

theorem topInteger_reads (small : 0 < need) :
    Reads need (f.Raises i) (fun _ => True) topInteger :=
  .bind (.peek small) fun _ _ => integerOf_reads

theorem itemsOf_reads : Reads need (f.Raises i) (fun _ => True) (itemsOf v) := by
  unfold itemsOf
  split
  · exact .pure trivial
  · exact .fault .ordinary nofun

theorem pick_reads {α : Type} {items : List α} :
    Reads need (f.Raises i) (fun _ => True) (pick items v) := by
  unfold pick
  split
  · exact .pure trivial
  · exact .fault .ordinary nofun

/-! ### Variables -/

theorem storeSlot_reads {mode : WriteMode} (goesOn : i.opcode.isTerminal = false)
    (takes : i.pops = 1) (gives : i.pushes = 1)
    (present : f.Finds i → slot < f.slots.length) :
    Reads i.pops (f.Raises i) (Effect.Suits i) (f.storeSlot pc slot mode) := by
  refine .bind (.peek (by omega)) ?_
  intro v _
  refine .bind (accessSlot_reads present) ?_
  intro w _
  exact .pure (.push goesOn (by omega) (by omega))

theorem storeElement_reads {mode : WriteMode} (goesOn : i.opcode.isTerminal = false)
    (takes : i.pops = 2) (gives : i.pushes = 1)
    (present : f.Finds i → slot < f.slots.length) :
    Reads i.pops (f.Raises i) (Effect.Suits i) (f.storeElement pc slot mode) := by
  refine .bind (.peekText (by omega)) ?_
  intro name _
  refine .bind (.peek (by omega)) ?_
  intro v _
  refine .bind (accessSlot_reads present) ?_
  intro w _
  exact .pure (.push goesOn (by omega) (by omega))

theorem storeNamed_reads {mode : WriteMode} (goesOn : i.opcode.isTerminal = false)
    (takes : i.pops = 2) (gives : i.pushes = 1) :
    Reads i.pops (f.Raises i) (Effect.Suits i) (storeNamed mode) := by
  refine .bind (.peekText (by omega)) ?_
  intro name _
  refine .bind (.peek (by omega)) ?_
  intro v _
  refine .bind (.accessNamed .ordinary) ?_
  intro w _
  exact .pure (.push goesOn (by omega) (by omega))

/-! ### Foreach loops -/

theorem foreachItems_reads {lists : List ForeachList}
    (present : f.Finds i → ∀ l ∈ lists, l.listSlot.toNat < f.slots.length) :
    Reads need (f.Raises i) (fun pairs => pairs.map Prod.fst = lists)
      (f.foreachItems pc lists) := by
  induction lists with
  | nil => exact .pure rfl
  | cons l lists ih =>
    refine .bind (accessSlot_reads fun finds => present finds l List.mem_cons_self) ?_
    intro v _
    refine .bind itemsOf_reads ?_
    intro items _
    refine .bind (ih fun finds l member => present finds l (List.mem_cons_of_mem _ member)) ?_
    intro rest same
    exact .pure (by rw [List.map_cons, same])

theorem assignItems_reads {items : List Value} {slots : List UInt32} {start : Nat}
    (present : f.Finds i → ∀ slot ∈ slots, slot.toNat < f.slots.length) :
    Reads need (f.Raises i) (fun _ => True) (f.assignItems pc items start slots) := by
  induction slots generalizing start with
  | nil => exact .pure trivial
  | cons slot slots ih =>
    refine .bind (accessSlot_reads fun finds => present finds slot List.mem_cons_self) ?_
    intro v _
    exact ih fun finds other member => present finds other (List.mem_cons_of_mem _ member)

theorem assignAll_reads {iteration : Nat} {pairs : List (ForeachList × List Value)}
    (present : f.Finds i → ∀ l ∈ pairs.map Prod.fst, ∀ slot ∈ l.varSlots,
      slot.toNat < f.slots.length) :
    Reads need (f.Raises i) (fun _ => True) (f.assignAll pc iteration pairs) := by
  induction pairs with
  | nil => exact .pure trivial
  | cons pair pairs ih =>
    refine .bind (assignItems_reads fun finds => present finds pair.1 List.mem_cons_self) ?_
    intro _ _
    exact ih fun finds l member => present finds l (List.mem_cons_of_mem _ member)

/-- Every slot that a foreach loop names is present. -/
theorem foreach_present {info : ForeachInfo} (loops : i.opcode = .foreachStart4 ∨
    i.opcode = .foreachStep4) (found : f.unit.foreachInfos[i.index]? = some info)
    (finds : f.Finds i) : ∀ slot ∈ Verifier.foreachSlots info, slot.toNat < f.slots.length := by
  have named : ∃ info, f.unit.foreachInfos[i.index]? = some info ∧
      ∀ slot ∈ Verifier.foreachSlots info, slot.toNat < f.slots.length := by
    rcases loops with same | same <;> simpa only [Finds, same] using finds
  obtain ⟨info', found', present⟩ := named
  rw [found] at found'
  cases found'
  exact present

theorem foreach_entry (loops : i.opcode = .foreachStart4 ∨ i.opcode = .foreachStep4)
    (finds : f.Finds i) : i.index < f.unit.foreachInfos.length := by
  have named : ∃ info, f.unit.foreachInfos[i.index]? = some info ∧
      ∀ slot ∈ Verifier.foreachSlots info, slot.toNat < f.slots.length := by
    rcases loops with same | same <;> simpa only [Finds, same] using finds
  obtain ⟨info, found, _⟩ := named
  exact (List.getElem?_eq_some_iff.mp found).1

theorem foreachStart_reads (op : i.opcode = .foreachStart4) :
    Reads i.pops (f.Raises i) (Effect.Suits i) (f.foreachStart pc i.index) := by
  refine .bind (entry_reads (foreach_entry (.inl op))) ?_
  intro info found
  refine .bind (accessSlot_reads fun finds => ?_) ?_
  · exact foreach_present (.inl op) found finds _ List.mem_cons_self
  intro _ _
  exact .pure (.discard (by rw [op]; rfl) (by simp only [Instruction.pushes, Instruction.pops, op]))

theorem foreachStep_reads (op : i.opcode = .foreachStep4) :
    Reads i.pops (f.Raises i) (fun _ => True) (f.foreachStep pc i.index) := by
  refine .bind (entry_reads (foreach_entry (.inr op))) ?_
  intro info found
  have present := foreach_present (f := f) (.inr op) found
  have counter (finds : f.Finds i) : info.counterSlot.toNat < f.slots.length :=
    present finds _ List.mem_cons_self
  refine .bind (accessSlot_reads counter) ?_
  intro v _
  refine .bind integerOf_reads ?_
  intro before _
  refine .bind (accessSlot_reads counter) ?_
  intro _ _
  refine .bind (foreachItems_reads ?_) ?_
  · intro finds l member
    refine present finds _ (List.mem_cons_of_mem _ (List.mem_flatMap.mpr ⟨l, member, ?_⟩))
    exact List.mem_cons_self
  intro lists same
  split
  · refine .bind (assignAll_reads ?_) fun _ _ => .pure trivial
    intro finds l member slot named
    rw [same] at member
    refine present finds _ (List.mem_cons_of_mem _ (List.mem_flatMap.mpr ⟨l, member, ?_⟩))
    exact List.mem_cons_of_mem _ named
  · exact .pure trivial

/-! ### Operators and jumps -/

theorem truth_reads {symbol : String} :
    Reads need (f.Raises i) (fun _ => True) (Action.ofExcept (Operator.truth v symbol)) :=
  .ofExcept .ordinary (fun _ => Operator.truth_ordinary) fun _ _ => trivial

theorem operand_reads {symbol : String} :
    Reads need (f.Raises i) (fun _ => True) (Action.ofExcept (Operator.operand v symbol)) :=
  .ofExcept .ordinary (fun _ => Operator.operand_ordinary) fun _ _ => trivial

section Operators

variable (goesOn : i.opcode.isTerminal = false) (gives : i.pushes = 1)
include goesOn gives

theorem logical_reads {symbol : String} {op : Bool → Bool → Bool} (takes : i.pops = 2) :
    Reads i.pops (f.Raises i) (Effect.Suits i) (logical symbol op) := by
  refine .bind (.peekAt (by omega)) ?_
  intro v _
  refine .bind truth_reads ?_
  intro a _
  refine .bind (.peekAt (by omega)) ?_
  intro w _
  refine .bind truth_reads ?_
  intro b _
  exact .pure (.replace goesOn (by omega) (by omega) (by omega))

theorem comparison_reads {r : Relation} (takes : i.pops = 2) :
    Reads i.pops (f.Raises i) (Effect.Suits i) (comparison r) := by
  refine .bind (.peekAt (by omega)) ?_
  intro a _
  refine .bind (.peekAt (by omega)) ?_
  intro b _
  exact .pure (.replace goesOn (by omega) (by omega) (by omega))

theorem binary_reads {op : BinaryOp} (takes : i.pops = 2) :
    Reads i.pops (f.Raises i) (Effect.Suits i) (binary op) := by
  refine .bind (.peekAt (by omega)) ?_
  intro v _
  refine .bind operand_reads ?_
  intro a _
  refine .bind (.peekAt (by omega)) ?_
  intro w _
  refine .bind operand_reads ?_
  intro b _
  refine .bind (.ofExcept .ordinary (fun _ => Operator.binary_ordinary) fun _ _ => trivial) ?_
  intro n _
  exact .pure (.replace goesOn (by omega) (by omega) (by omega))

theorem unary_reads {op : Opcode} (takes : i.pops = 1) :
    Reads i.pops (f.Raises i) (Effect.Suits i) (unary op) := by
  refine .bind (.peek (by omega)) ?_
  intro v _
  refine .bind operand_reads ?_
  intro a _
  refine .bind (.ofExcept .ordinary (fun _ => Operator.unary_ordinary) fun _ _ => trivial) ?_
  intro n _
  exact .pure (.replace goesOn (by omega) (by omega) (by omega))

theorem tryNumeric_reads (takes : i.pops = 1) :
    Reads i.pops (f.Raises i) (Effect.Suits i) tryNumeric := by
  refine .bind (.peek (by omega)) ?_
  intro v _
  split
  · exact .pure (.discard goesOn (by omega))
  · split
    · exact .pure (.replace goesOn (by omega) (by omega) (by omega))
    · exact .fault .ordinary nofun
    · exact .fault .ordinary nofun
    · exact .pure (.discard goesOn (by omega))

theorem textEquality_reads {wanted : Bool} (takes : i.pops = 2) :
    Reads i.pops (f.Raises i) (Effect.Suits i) (textEquality wanted) := by
  refine .bind (.peekText (by omega)) ?_
  intro a _
  refine .bind (.peekText (by omega)) ?_
  intro b _
  exact .pure (.replace goesOn (by omega) (by omega) (by omega))

theorem textOrder_reads (takes : i.pops = 2) :
    Reads i.pops (f.Raises i) (Effect.Suits i) textOrder := by
  refine .bind (.peekText (by omega)) ?_
  intro a _
  refine .bind (.peekText (by omega)) ?_
  intro b _
  exact .pure (.replace goesOn (by omega) (by omega) (by omega))

end Operators

theorem jumpIf_reads {wanted : Bool} (goesOn : i.opcode.isTerminal = false)
    (jumps : i.opcode.isJump = true) (takes : i.pops = 1) (gives : i.pushes = 0) :
    Reads i.pops (f.Raises i) (Effect.Suits i) (jumpIf wanted (i.operand 0)) := by
  refine .bind (.peek (by omega)) ?_
  intro v _
  split
  · exact .fault .ordinary nofun
  · refine .pure ?_
    split
    · exact .jump jumps (by omega)
    · exact .discard goesOn (by omega)

/-! ### Math functions -/

theorem callBuiltin_reads {function : MathFunction} {args : List Value} :
    Reads need (f.Raises i) (fun _ => True) (callBuiltin function args) := by
  intro m
  have keeps (seed : Option Nat) : m.Keeps { m with seed } :=
    ⟨⟨rfl, rfl, rfl, rfl, rfl, rfl⟩, rfl⟩
  unfold callBuiltin
  dsimp only
  split
  · exact ⟨keeps _, trivial⟩
  · rename_i g failed
    exact ⟨keeps _, .ordinary (MathFunction.call_ordinary failed).exception⟩

theorem outsideLoop_ordinary {e : Exception} (wellFormed : e.isMalformed = false) :
    (outsideLoop e).Ordinary := by
  unfold outsideLoop
  split
  · exact ⟨rfl, rfl⟩
  · rename_i stays
    exact ⟨wellFormed, stays⟩

theorem callUser_reads {function : UserFunction} {args : List Value} :
    Reads need (f.Raises i) (fun _ => True) (callUser function args) := by
  refine .bind (.ofExcept .ordinary (fun _ => MathFunction.convertAll_ordinary)
    fun _ _ => trivial) ?_
  intro numbers _
  split
  · exact .pure trivial
  · rename_i e failed
    refine .raise (.ordinary (outsideLoop_ordinary ?_))
    unfold callBody at failed
    repeat' split at failed
    all_goals cases failed
    rfl

theorem callNamed_reads {name : String} {args : List Value} :
    Reads need (f.Raises i) (fun _ => True) (callNamed name args) := by
  have looked : Reads need (f.Raises i) (fun _ => True)
      (Action.read fun m => m.functions.lookup name) := .read fun _ => trivial
  refine .bind looked ?_
  intro registered _
  split
  · exact callUser_reads
  · split
    · exact callBuiltin_reads
    · exact .fault .ordinary nofun

theorem callIndex_reads (op : i.opcode = .callBuiltinFunc1) :
    Reads i.pops (f.Raises i) (Effect.Suits i) (callIndex i) := by
  refine .bind (.top (Nat.le_refl _)) ?_
  intro args _
  split
  · refine .bind callBuiltin_reads ?_
    intro n _
    exact .pure (.push (by rw [op]; rfl) (Nat.le_refl _) (by simp only [Instruction.pushes, op]))
  · exact .fault .ordinary nofun

theorem callStacked_reads (op : i.opcode = .callFunc1) :
    Reads i.pops (f.Raises i) (Effect.Suits i) (callStacked i.index) := by
  have takes : i.pops = i.index := by simp only [Instruction.pops, op]
  refine .bind (.top (by omega)) ?_
  intro argv _
  split
  · exact .fault .ordinary nofun
  · refine .bind callNamed_reads ?_
    intro n _
    refine .pure (.push (by rw [op]; rfl) (by omega) ?_)
    simp only [takes, Instruction.pushes, op]

/-! ### All steps -/

/-- A step that invokes no command looks at its operands and tells a suitable effect. -/
theorem step_reads {invoke : Invoke} (quiet : i.opcode.invokes = false) :
    Reads i.pops (f.Raises i) (Effect.Suits i) (f.step invoke pc i) := by
  obtain ⟨op, operands⟩ := i
  cases op with
  | done => exact .pure (.done rfl)
  | push1 | push4 =>
    exact .bind (entry_reads fun finds => finds) fun _ _ => .pure (.push rfl (Nat.zero_le _) rfl)
  | pop => exact .pure (.discard rfl rfl)
  | dup => exact .bind (.peek Nat.one_pos) fun _ _ => .pure (.push rfl (Nat.zero_le _) rfl)
  | «over» =>
    refine .bind (.peekAt (Nat.lt_succ_self _)) fun _ _ => ?_
    exact .pure (.push rfl (Nat.zero_le _) (Nat.zero_add _))
  | concat1 | list =>
    exact .bind (.top (Nat.le_refl _)) fun _ _ => .pure (.push rfl (Nat.le_refl _) rfl)
  | invokeStk1 | invokeStk4 => cases quiet
  | loadScalar1 | loadScalar4 | incrScalar1Imm =>
    refine .bind (accessSlot_reads fun finds => finds rfl) fun _ _ => ?_
    exact .pure (.push rfl (Nat.le_refl _) rfl)
  | loadScalarStk | incrScalarStkImm =>
    refine .bind (.peekText Nat.one_pos) fun _ _ => ?_
    exact .bind (.accessParts .ordinary) fun _ _ => .pure (.push rfl (Nat.le_refl _) rfl)
  | loadArray1 | loadArray4 | incrArray1Imm =>
    refine .bind (.peekText Nat.one_pos) fun _ _ => ?_
    refine .bind (accessSlot_reads fun finds => finds rfl) fun _ _ => ?_
    exact .pure (.push rfl (Nat.le_refl _) rfl)
  | loadArrayStk | incrArrayStkImm =>
    refine .bind (.peekText Nat.one_lt_two) fun _ _ => ?_
    refine .bind (.peekText Nat.two_pos) fun _ _ => ?_
    exact .bind (.accessParts .ordinary) fun _ _ => .pure (.push rfl (Nat.le_refl _) rfl)
  | loadStk =>
    refine .bind (.peekText Nat.one_pos) fun _ _ => ?_
    exact .bind (.accessNamed .ordinary) fun _ _ => .pure (.push rfl (Nat.le_refl _) rfl)
  | storeScalar1 | storeScalar4 | appendScalar1 | appendScalar4 | lappendScalar1
  | lappendScalar4 => exact storeSlot_reads rfl rfl rfl fun finds => finds rfl
  | storeScalarStk =>
    refine .bind (.peekText Nat.one_lt_two) fun _ _ => ?_
    refine .bind (.peek Nat.two_pos) fun _ _ => ?_
    exact .bind (.accessParts .ordinary) fun _ _ => .pure (.push rfl (Nat.le_refl _) rfl)
  | storeArray1 | storeArray4 | appendArray1 | lappendArray1 =>
    exact storeElement_reads rfl rfl rfl fun finds => finds rfl
  | storeArrayStk =>
    have takes : (Instruction.mk .storeArrayStk operands).pops = 3 := rfl
    refine .bind (.peekText (by omega)) fun _ _ => ?_
    refine .bind (.peekText (by omega)) fun _ _ => ?_
    refine .bind (.peek (by omega)) fun _ _ => ?_
    exact .bind (.accessParts .ordinary) fun _ _ => .pure (.push rfl (Nat.le_refl _) rfl)
  | storeStk | appendStk | lappendStk => exact storeNamed_reads rfl rfl rfl
  | incrScalar1 =>
    refine .bind (topInteger_reads Nat.one_pos) fun _ _ => ?_
    refine .bind (accessSlot_reads fun finds => finds rfl) fun _ _ => ?_
    exact .pure (.push rfl (Nat.le_refl _) rfl)
  | incrScalarStk =>
    refine .bind (topInteger_reads Nat.two_pos) fun _ _ => ?_
    refine .bind (.peekText Nat.one_lt_two) fun _ _ => ?_
    exact .bind (.accessParts .ordinary) fun _ _ => .pure (.push rfl (Nat.le_refl _) rfl)
  | incrArray1 =>
    refine .bind (topInteger_reads Nat.two_pos) fun _ _ => ?_
    refine .bind (.peekText Nat.one_lt_two) fun _ _ => ?_
    refine .bind (accessSlot_reads fun finds => finds rfl) fun _ _ => ?_
    exact .pure (.push rfl (Nat.le_refl _) rfl)
  | incrArrayStk =>
    have takes : (Instruction.mk .incrArrayStk operands).pops = 3 := rfl
    refine .bind (topInteger_reads (by omega)) fun _ _ => ?_
    refine .bind (.peekText (by omega)) fun _ _ => ?_
    refine .bind (.peekText (by omega)) fun _ _ => ?_
    exact .bind (.accessParts .ordinary) fun _ _ => .pure (.push rfl (Nat.le_refl _) rfl)
  | jump1 | jump4 => exact .pure (.jump rfl rfl)
  | jumpTrue1 | jumpTrue4 | jumpFalse1 | jumpFalse4 => exact jumpIf_reads rfl rfl rfl rfl
  | lor | land => exact logical_reads rfl rfl rfl
  | eq | neq | lt | gt | le | ge => exact comparison_reads rfl rfl rfl
  | bitor | bitxor | bitand | lshift | rshift | add | sub | mult | div | mod =>
    exact binary_reads rfl rfl rfl
  | uplus | uminus | bitnot => exact unary_reads rfl rfl rfl
  | not =>
    refine .bind (.peek Nat.one_pos) fun _ _ => ?_
    exact .bind truth_reads fun _ _ => .pure (.replace rfl Nat.one_pos (Nat.le_refl _) rfl)
  | callBuiltinFunc1 => exact callIndex_reads rfl
  | callFunc1 => exact callStacked_reads rfl
  | tryCvtToNumeric => exact tryNumeric_reads rfl rfl rfl
  | breakLoop => exact .raise (.breakLoop rfl rfl)
  | continueLoop => exact .raise (.continueLoop rfl rfl)
  | foreachStart4 => exact foreachStart_reads rfl
  | foreachStep4 =>
    exact .bind (foreachStep_reads rfl) fun _ _ => .pure (.push rfl (Nat.zero_le _) rfl)
  | beginCatch4 => exact .bind (entry_reads fun finds => finds) fun _ _ => .pure (.discard rfl rfl)
  | endCatch => exact .pure (.discard rfl rfl)
  | pushResult =>
    have given : Reads 0 (f.Raises ⟨.pushResult, operands⟩) (fun _ => True)
        (Action.read Machine.result) := .read fun _ => trivial
    exact .bind given fun _ _ => .pure (.push rfl (Nat.le_refl _) rfl)
  | pushReturnCode => exact .pure (.push rfl (Nat.le_refl _) rfl)
  | strEq | strNeq => exact textEquality_reads rfl rfl rfl
  | strCmp => exact textOrder_reads rfl rfl rfl
  | strLen =>
    refine .bind (.peekText Nat.one_pos) fun _ _ => ?_
    exact .pure (.replace rfl Nat.one_pos (Nat.le_refl _) rfl)
  | strIndex =>
    refine .bind (.peekText Nat.one_lt_two) fun _ _ => ?_
    refine .bind (.peek Nat.two_pos) fun _ _ => ?_
    exact .bind pick_reads fun _ _ => .pure (.push rfl (Nat.le_refl _) rfl)
  | listLength =>
    refine .bind (.peek Nat.one_pos) fun _ _ => ?_
    exact .bind itemsOf_reads fun _ _ => .pure (.replace rfl Nat.one_pos (Nat.le_refl _) rfl)
  | listIndex =>
    refine .bind (.peekAt Nat.one_lt_two) fun _ _ => ?_
    refine .bind itemsOf_reads fun _ _ => ?_
    refine .bind (.peek Nat.two_pos) fun _ _ => ?_
    exact .bind pick_reads fun _ _ => .pure (.push rfl (Nat.le_refl _) rfl)
  | returnValue =>
    exact .bind (.peek Nat.one_pos) fun _ _ => .raise (.ordinary ⟨rfl, rfl⟩)

end Frame

end CommandVM
