import CommandVM.Machine.Frame
import CommandVM.Proofs.Erasure.Actions

/-!
# Steps without representations

One case for each opcode: in frames whose units differ only in the representation of their literals,
the steps of an instruction agree. The one exception is the conversion to a number, whose effect
depends on whether its operand is a number already.
-/

namespace CommandVM

/-- The unit with its literals erased. -/
def CompiledUnit.erase (u : CompiledUnit) : CompiledUnit :=
  { u with literals := u.literals.map Value.erase }

/-- What comes in place of the operands, erased. -/
def Emit.erase : Emit → Emit
  | .nothing => .nothing
  | .push v => .push v.erase
  | .replace n => .replace n.widen

/-- The effect with what comes in place of the operands erased. -/
def Effect.erase (e : Effect) : Effect := { e with emit := e.emit.erase }

/-- The frame with its unit erased. -/
def Frame.erase (f : Frame) : Frame := { f with unit := f.unit.erase }

/-- The command does the same, up to erasure, with arguments that are the same after erasure. -/
def Invoke.Respects (invoke : Invoke) : Prop :=
  ∀ vs ws, vs.map Value.erase = ws.map Value.erase →
    Action.Agree Value.erase (invoke vs) (invoke ws)

/-! ### Effects -/

namespace Action.Agree

variable {action action' : Action Value}

theorem thenPush (n : Nat) (agree : Agree Value.erase action action') :
    Agree Effect.erase (do return .push n (← action)) (do return .push n (← action')) :=
  bind agree fun _ _ same => pure (congrArg (Effect.push n) same :)

theorem thenReplace (n : Nat) {count count' : Action Number}
    (agree : Agree Number.widen count count') :
    Agree Effect.erase (do return .replace n (← count)) (do return .replace n (← count')) :=
  bind agree fun _ _ same => pure (congrArg (Effect.replace n) same :)

end Action.Agree

theorem Effect.settle_agree {e e' : Effect} (same : e.erase = e'.erase) :
    Action.Agree id e.settle e'.settle := by
  obtain ⟨next, cleanup, emit⟩ := e
  obtain ⟨next', cleanup', emit'⟩ := e'
  have cleanups : cleanup = cleanup' := congrArg Effect.cleanup same
  have emits : emit.erase = emit'.erase := congrArg Effect.emit same
  subst cleanups
  cases emit with
  | nothing =>
    cases emit' with
    | nothing => exact .discard cleanup
    | _ => cases emits
  | push v =>
    cases emit' with
    | push w => exact .andThen (.discard cleanup) fun _ => .push (Emit.push.inj emits)
    | _ => cases emits
  | replace n =>
    cases emit' with
    | replace k =>
      refine .andThen (.discard (cleanup - 1)) fun _ => .reshape fun _ _ stacked => ?_
      exact Stack.setTop_congr stacked (Value.ofNumber_congr (Emit.replace.inj emits))
    | _ => cases emits

namespace Frame

open CommandVM.Action

variable {α γ : Type} {view : α → γ} {f f' : Frame} {pc slot index : Nat} {v w : Value}
  {vs ws : List Value} {access access' : Access} {invoke : Invoke}

section

variable (same : f.erase = f'.erase)
include same

theorem unit_congr : f.unit.erase = f'.unit.erase := (congrArg Frame.unit same :)

theorem literals_congr : f.unit.literals.map Value.erase = f'.unit.literals.map Value.erase :=
  (congrArg CompiledUnit.literals (unit_congr same) :)

theorem ranges_congr : f.unit.ranges = f'.unit.ranges :=
  (congrArg CompiledUnit.ranges (unit_congr same) :)

theorem foreachInfos_congr : f.unit.foreachInfos = f'.unit.foreachInfos :=
  (congrArg CompiledUnit.foreachInfos (unit_congr same) :)

theorem base_congr : f.base = f'.base := (congrArg Frame.base same :)

theorem slots_congr : f.slots = f'.slots := (congrArg Frame.slots same :)

theorem catchHeights_congr : f.catchHeights = f'.catchHeights :=
  (congrArg Frame.catchHeights same :)

theorem lastCode_congr : f.lastCode = f'.lastCode := (congrArg Frame.lastCode same :)

end

/-! ### Tables and operands -/

theorem entry_agree {table : Table} {items items' : List α}
    (same : items.map view = items'.map view) :
    Agree view (entry pc table items index) (entry pc table items' index) := by
  have entries : items[index]?.map view = items'[index]?.map view := by
    rw [← List.getElem?_map, same, List.getElem?_map]
  rw [entry, entry]
  rcases option_map_eq_cases entries with ⟨left, right⟩ | ⟨item, item', left, right, alike⟩
  · rw [left, right]
    exact .fault _
  · rw [left, right]
    exact .pure alike

theorem accessSlot_agree (same : f.erase = f'.erase) (element : Option String)
    (accesses : access.erase = access'.erase) :
    Agree Value.erase (f.accessSlot pc slot element access)
      (f'.accessSlot pc slot element access') := by
  rw [accessSlot, accessSlot, slots_congr same]
  exact .andThen (entry_agree rfl) fun var => .access accesses var element

theorem integerOf_agree (same : v.erase = w.erase) :
    Agree id (integerOf v) (integerOf w) := by
  rw [integerOf, integerOf, Value.integer?_congr same, Value.str_congr same]
  split
  · exact .pure rfl
  · exact .fault _

theorem topInteger_agree : Agree id topInteger topInteger :=
  .bind .peek fun _ _ same => integerOf_agree same

theorem itemsOf_agree (same : v.erase = w.erase) :
    Agree (List.map Value.erase) (itemsOf v) (itemsOf w) := by
  rw [itemsOf, itemsOf]
  rcases map_eq_cases (Value.items_congr same) with ⟨vs, ws, left, right, items⟩ |
    ⟨e, left, right⟩
  · rw [left, right]
    exact .pure items
  · rw [left, right]
    exact .fault _

theorem pick_agree {items items' : List α} (same : items.map view = items'.map view)
    (named : v.erase = w.erase) :
    Agree (Option.map view) (pick items v) (pick items' w) := by
  have length : items.length = items'.length := by simpa using congrArg List.length same
  rw [pick, pick, length, Value.str_congr named]
  split
  · refine .pure ?_
    rw [ListText.itemAt?, ListText.itemAt?]
    split
    · rfl
    · rw [← List.getElem?_map, same, List.getElem?_map]
  · exact .fault _

/-! ### Variables -/

theorem storeSlot_agree (same : f.erase = f'.erase) (mode : WriteMode) :
    Agree Effect.erase (f.storeSlot pc slot mode) (f'.storeSlot pc slot mode) := by
  refine .bind .peek fun v w values => ?_
  exact .thenPush 1 (accessSlot_agree same none (Access.write_congr values mode))

theorem storeElement_agree (same : f.erase = f'.erase) (mode : WriteMode) :
    Agree Effect.erase (f.storeElement pc slot mode) (f'.storeElement pc slot mode) := by
  refine .andThen (.peekText 1) fun element => ?_
  refine .bind .peek fun v w values => ?_
  exact .thenPush 2 (accessSlot_agree same (some element) (Access.write_congr values mode))

theorem storeNamed_agree (mode : WriteMode) :
    Agree Effect.erase (storeNamed mode) (storeNamed mode) := by
  refine .andThen (.peekText 1) fun full => ?_
  refine .bind .peek fun v w values => ?_
  exact .thenPush 2 (.accessNamed (Access.write_congr values mode) full)

/-! ### Foreach loops -/

/-- The lists of a foreach loop with their items erased. -/
def erasePairs (pairs : List (ForeachList × List Value)) : List (ForeachList × List Value) :=
  pairs.map fun pair => (pair.1, pair.2.map Value.erase)

theorem foreachItems_agree (same : f.erase = f'.erase) (lists : List ForeachList) :
    Agree erasePairs (f.foreachItems pc lists) (f'.foreachItems pc lists) := by
  induction lists with
  | nil => exact .pure rfl
  | cons l lists ih =>
    refine .bind (accessSlot_agree same none rfl) fun v w values => ?_
    refine .bind (itemsOf_agree values) fun items items' alike => ?_
    refine .bind ih fun rest rest' tails => .pure ?_
    rw [erasePairs, List.map_cons, alike]
    exact congrArg (List.cons _) tails

theorem assignItems_agree (same : f.erase = f'.erase)
    (items : vs.map Value.erase = ws.map Value.erase) (start : Nat) (slots : List UInt32) :
    Agree id (f.assignItems pc vs start slots) (f'.assignItems pc ws start slots) := by
  induction slots generalizing start with
  | nil => exact .pure rfl
  | cons slot slots ih =>
    have values : (vs.getD (position start) Value.empty).erase =
        (ws.getD (position start) Value.empty).erase := by
      rw [← List.getD_map vs Value.empty Value.erase, items, List.getD_map]
    refine .bind (accessSlot_agree same none (Access.write_congr values .set)) ?_
    intro _ _ _
    exact ih (start + 1)

/-- Pairs that are the same after erasure start alike. -/
theorem erasePairs_cons {l : ForeachList} {items : List Value}
    {pairs other : List (ForeachList × List Value)}
    (same : erasePairs ((l, items) :: pairs) = erasePairs other) :
    ∃ items' rest, other = (l, items') :: rest ∧ items.map Value.erase = items'.map Value.erase ∧
      erasePairs pairs = erasePairs rest := by
  obtain ⟨⟨l', items'⟩, rest, whole, head, tail⟩ := cons_of_map_eq same
  obtain ⟨rfl, alike⟩ := Prod.mk.inj head
  exact ⟨items', rest, whole, alike, tail⟩

theorem assignAll_agree (same : f.erase = f'.erase) (iteration : Nat)
    {pairs other : List (ForeachList × List Value)} (alike : erasePairs pairs = erasePairs other) :
    Agree id (f.assignAll pc iteration pairs) (f'.assignAll pc iteration other) := by
  induction pairs generalizing other with
  | nil =>
    cases other with
    | nil => exact .pure rfl
    | cons _ _ => cases alike
  | cons pair pairs ih =>
    obtain ⟨l, items⟩ := pair
    obtain ⟨items', rest, rfl, first, others⟩ := erasePairs_cons alike
    exact .andThen (assignItems_agree same first _ _) fun _ => ih others

theorem hasMore_congr (iteration : Nat) {pairs other : List (ForeachList × List Value)}
    (alike : erasePairs pairs = erasePairs other) :
    hasMore iteration pairs = hasMore iteration other := by
  have lengths (pairs : List (ForeachList × List Value)) :
      hasMore iteration (erasePairs pairs) = hasMore iteration pairs := by
    simp only [hasMore, erasePairs, List.any_map, Function.comp_def, List.length_map]
  rw [← lengths pairs, alike, lengths]

theorem foreachStart_agree (same : f.erase = f'.erase) :
    Agree Effect.erase (f.foreachStart pc index) (f'.foreachStart pc index) := by
  rw [foreachStart, foreachStart, foreachInfos_congr same]
  refine .andThen (entry_agree rfl) fun info => ?_
  exact .bind (accessSlot_agree same none rfl) fun _ _ _ => .pure rfl

theorem foreachStep_agree (same : f.erase = f'.erase) :
    Agree id (f.foreachStep pc index) (f'.foreachStep pc index) := by
  rw [foreachStep, foreachStep, foreachInfos_congr same]
  refine .andThen (entry_agree rfl) fun info => ?_
  refine .bind (accessSlot_agree same none rfl) fun v w values => ?_
  refine .andThen (integerOf_agree values) fun before => ?_
  refine .bind (accessSlot_agree same none rfl) fun _ _ _ => ?_
  refine .bind (foreachItems_agree same info.lists) fun pairs other alike => ?_
  rw [hasMore_congr _ alike]
  split
  · exact .andThen (assignAll_agree same _ alike) fun _ => .pure rfl
  · exact .pure rfl

/-! ### Operators and jumps -/

theorem truth_agree (same : v.erase = w.erase) (symbol : String) :
    Agree id (Action.ofExcept (Operator.truth v symbol))
      (Action.ofExcept (Operator.truth w symbol)) := by
  rw [Operator.truth_congr same]
  exact .ofExcept rfl

theorem operand_agree (same : v.erase = w.erase) (symbol : String) :
    Agree Number.widen (Action.ofExcept (Operator.operand v symbol))
      (Action.ofExcept (Operator.operand w symbol)) :=
  .ofExcept (Operator.operand_congr same symbol)

theorem logical_agree (symbol : String) (op : Bool → Bool → Bool) :
    Agree Effect.erase (logical symbol op) (logical symbol op) := by
  refine .bind (.peekAt 1) fun v w values => ?_
  refine .andThen (truth_agree values symbol) fun a => ?_
  refine .bind (.peekAt 0) fun v' w' others => ?_
  exact .andThen (truth_agree others symbol) fun b => .pure rfl

theorem comparison_agree (r : Relation) :
    Agree Effect.erase (comparison r) (comparison r) := by
  refine .bind (.peekAt 1) fun v w values => ?_
  refine .bind (.peekAt 0) fun v' w' others => ?_
  rw [Operator.compare_congr values others]
  exact .pure rfl

theorem binary_agree (op : BinaryOp) : Agree Effect.erase (binary op) (binary op) := by
  refine .bind (.peekAt 1) fun v w values => ?_
  refine .bind (operand_agree values _) fun a a' left => ?_
  refine .bind (.peekAt 0) fun v' w' others => ?_
  refine .bind (operand_agree others _) fun b b' right => ?_
  exact .thenReplace 2 (.ofExcept (Operator.binary_congr op left right))

theorem unary_agree (op : Opcode) : Agree Effect.erase (unary op) (unary op) := by
  refine .bind .peek fun v w values => ?_
  refine .bind (operand_agree values _) fun a a' same => ?_
  exact .thenReplace 1 (.ofExcept (Operator.unary_congr _ _ same))

theorem textEquality_agree (wanted : Bool) :
    Agree Effect.erase (textEquality wanted) (textEquality wanted) :=
  .andThen (.peekText 1) fun _ => .andThen (.peekText 0) fun _ => .pure rfl

theorem textOrder_agree : Agree Effect.erase textOrder textOrder :=
  .andThen (.peekText 1) fun _ => .andThen (.peekText 0) fun _ => .pure rfl

theorem jumpIf_agree (wanted : Bool) (distance : Int) :
    Agree Effect.erase (jumpIf wanted distance) (jumpIf wanted distance) := by
  refine .bind .peek fun v w values => ?_
  rw [Value.truth?_congr values, Value.str_congr values]
  split
  · exact .fault _
  · exact .pure rfl

/-! ### Math functions -/

theorem callBuiltin_agree (function : MathFunction)
    (same : vs.map Value.erase = ws.map Value.erase) :
    Agree Number.widen (callBuiltin function vs) (callBuiltin function ws) := by
  intro m m' machines
  have seeds : m.seed = m'.seed := (congrArg Machine.seed machines :)
  have clocks : m.clock = m'.clock := (congrArg Machine.clock machines :)
  have called : function.call vs m.clock m.seed = function.call vs m'.clock m'.seed := by
    rw [seeds, clocks]
  obtain ⟨numbers, after⟩ := MathFunction.call_congr function m'.clock m'.seed same
  have withSeed (seed : Option Nat) : ({ m with seed } : Machine).erase =
      ({ m' with seed } : Machine).erase :=
    congrArg (fun m : Machine => { m with seed }) machines
  rw [callBuiltin, callBuiltin, called]
  generalize function.call vs m'.clock m'.seed = x at numbers after ⊢
  generalize function.call ws m'.clock m'.seed = y at numbers after ⊢
  obtain ⟨outcome, seed⟩ := x
  obtain ⟨outcome', seed'⟩ := y
  obtain rfl : seed = seed' := after
  rcases map_eq_cases numbers with ⟨n, k, first, second, widened⟩ | ⟨e, first, second⟩
  · obtain rfl : outcome = .ok n := first
    obtain rfl : outcome' = .ok k := second
    exact Prod.ext (congrArg Except.ok widened) (withSeed seed)
  · obtain rfl : outcome = .error e := first
    obtain rfl : outcome' = .error e := second
    exact Prod.ext rfl (withSeed seed)

theorem sum_congr {ns ks : List Number} (same : ns.map Number.widen = ks.map Number.widen) :
    sum ns = sum ks := by
  have widened (ns : List Number) : sum (ns.map Number.widen) = sum ns := by
    simp only [sum, List.any_map, List.foldl_map, Function.comp_def, Number.isDouble_widen,
      Number.toFloat, Number.toDouble_widen, Number.toInt64?_widen]
  rw [← widened ns, same, widened]

theorem callBody_congr (body : FunctionBody) {ns ks : List Number}
    (same : ns.map Number.widen = ks.map Number.widen) :
    completed Number.widen (callBody body ns) = completed Number.widen (callBody body ks) := by
  cases body with
  | echo =>
    refine congrArg Except.ok ?_
    cases ns with
    | nil => rw [nil_of_map_eq same]
    | cons n ns =>
      obtain ⟨k, ks, rfl, first, _⟩ := cons_of_map_eq same
      exact first
  | sum => rw [callBody, callBody, sum_congr same]
  | raise code v => rfl

theorem outsideLoop_congr {e e' : Exception} (same : e.erase = e'.erase) :
    (outsideLoop e).erase = (outsideLoop e').erase := by
  have codes : e.code = e'.code := (congrArg Exception.code same :)
  rw [outsideLoop, outsideLoop, codes]
  split
  · rfl
  · exact same

theorem callUser_agree (function : UserFunction) (same : vs.map Value.erase = ws.map Value.erase) :
    Agree Number.widen (callUser function vs) (callUser function ws) := by
  refine .bind (.ofExcept (MathFunction.convertAll_congr function.args same)) ?_
  intro ns ks numbers
  rcases completed_cases (callBody_congr function.body numbers) with
    ⟨n, k, first, second, widened⟩ | ⟨e, e', first, second, alike⟩
  · rw [first, second]
    exact .pure widened
  · rw [first, second]
    exact .raise (outsideLoop_congr alike)

theorem callNamed_agree (name : String) (same : vs.map Value.erase = ws.map Value.erase) :
    Agree Number.widen (callNamed name vs) (callNamed name ws) := by
  have looked : Agree id (Action.read fun m => m.functions.lookup name)
      (Action.read fun m => m.functions.lookup name) :=
    .read fun _ _ machines => congrArg (List.lookup name) (congrArg Machine.functions machines :)
  refine .andThen looked fun registered => ?_
  split
  · exact callUser_agree _ same
  · split
    · exact callBuiltin_agree _ same
    · exact .fault _

theorem callIndex_agree (i : Instruction) : Agree Effect.erase (callIndex i) (callIndex i) := by
  refine .bind (.top i.pops) fun vs ws same => ?_
  split
  · refine .bind (callBuiltin_agree _ same) fun n k widened => .pure ?_
    exact (congrArg (Effect.push i.pops) (Value.ofNumber_congr widened) :)
  · exact .fault _

theorem callStacked_agree (n : Nat) : Agree Effect.erase (callStacked n) (callStacked n) := by
  refine .bind (.top n) fun vs ws same => ?_
  cases vs with
  | nil =>
    rw [nil_of_map_eq same]
    exact .fault _
  | cons name args =>
    obtain ⟨name', args', rfl, named, rest⟩ := cons_of_map_eq same
    dsimp only
    rw [Value.str_congr named]
    refine .bind (callNamed_agree _ rest) fun n k widened => .pure ?_
    exact (congrArg (Effect.push _) (Value.ofNumber_congr widened) :)

/-! ### All steps -/

theorem step_agree (respects : invoke.Respects) (same : f.erase = f'.erase) {i : Instruction}
    (plain : i.opcode ≠ .tryCvtToNumeric) :
    Agree Effect.erase (f.step invoke pc i) (f'.step invoke pc i) := by
  obtain ⟨op, operands⟩ := i
  cases op with
  | done | pop | jump1 | jump4 | endCatch => exact .pure rfl
  | push1 | push4 => exact .thenPush 0 (entry_agree (literals_congr same))
  | dup => exact .thenPush 0 .peek
  | «over» => exact .thenPush 0 (.peekAt _)
  | concat1 =>
    refine .bind (.top _) fun vs ws values => ?_
    rw [Value.strs_congr values]
    exact .pure rfl
  | list =>
    refine .bind (.top _) fun vs ws values => .pure ?_
    exact (congrArg (Effect.push _) (Value.list_congr values) :)
  | invokeStk1 | invokeStk4 =>
    exact .bind (.top _) fun vs ws values => .thenPush _ (respects vs ws values)
  | loadScalar1 | loadScalar4 | incrScalar1Imm =>
    exact .thenPush 0 (accessSlot_agree same none rfl)
  | loadScalarStk | incrScalarStkImm =>
    exact .andThen (.peekText 0) fun name => .thenPush 1 (.accessParts rfl name none)
  | loadArray1 | loadArray4 | incrArray1Imm =>
    exact .andThen (.peekText 0) fun element =>
      .thenPush 1 (accessSlot_agree same (some element) rfl)
  | loadArrayStk | incrArrayStkImm =>
    refine .andThen (.peekText 1) fun name => .andThen (.peekText 0) fun element => ?_
    exact .thenPush 2 (.accessParts rfl name (some element))
  | loadStk => exact .andThen (.peekText 0) fun full => .thenPush 1 (.accessNamed rfl full)
  | storeScalar1 | storeScalar4 => exact storeSlot_agree same .set
  | appendScalar1 | appendScalar4 => exact storeSlot_agree same .append
  | lappendScalar1 | lappendScalar4 => exact storeSlot_agree same .listAppend
  | storeScalarStk =>
    refine .andThen (.peekText 1) fun name => .bind .peek fun v w values => ?_
    exact .thenPush 2 (.accessParts (Access.write_congr values .set) name none)
  | storeArray1 | storeArray4 => exact storeElement_agree same .set
  | appendArray1 => exact storeElement_agree same .append
  | lappendArray1 => exact storeElement_agree same .listAppend
  | storeArrayStk =>
    refine .andThen (.peekText 2) fun name => .andThen (.peekText 1) fun element => ?_
    refine .bind .peek fun v w values => ?_
    exact .thenPush 3 (.accessParts (Access.write_congr values .set) name (some element))
  | storeStk => exact storeNamed_agree .set
  | appendStk => exact storeNamed_agree .append
  | lappendStk => exact storeNamed_agree .listAppend
  | incrScalar1 =>
    exact .andThen topInteger_agree fun amount => .thenPush 1 (accessSlot_agree same none rfl)
  | incrScalarStk =>
    refine .andThen topInteger_agree fun amount => .andThen (.peekText 1) fun name => ?_
    exact .thenPush 2 (.accessParts rfl name none)
  | incrArray1 =>
    refine .andThen topInteger_agree fun amount => .andThen (.peekText 1) fun element => ?_
    exact .thenPush 2 (accessSlot_agree same (some element) rfl)
  | incrArrayStk =>
    refine .andThen topInteger_agree fun amount => .andThen (.peekText 2) fun name => ?_
    refine .andThen (.peekText 1) fun element => ?_
    exact .thenPush 3 (.accessParts rfl name (some element))
  | jumpTrue1 | jumpTrue4 | jumpFalse1 | jumpFalse4 => exact jumpIf_agree _ _
  | lor | land => exact logical_agree _ _
  | eq | neq | lt | gt | le | ge => exact comparison_agree _
  | bitor | bitxor | bitand | lshift | rshift | add | sub | mult | div | mod =>
    exact binary_agree _
  | uplus | uminus | bitnot => exact unary_agree _
  | not =>
    exact .bind .peek fun v w values => .andThen (truth_agree values _) fun b => .pure rfl
  | callBuiltinFunc1 => exact callIndex_agree _
  | callFunc1 => exact callStacked_agree _
  | tryCvtToNumeric => exact absurd rfl plain
  | breakLoop | continueLoop => exact .raise rfl
  | foreachStart4 => exact foreachStart_agree same
  | foreachStep4 => exact .andThen (foreachStep_agree same) fun more => .pure rfl
  | beginCatch4 =>
    show Agree Effect.erase (entry pc .ranges f.unit.ranges _ >>= fun _ => _)
      (entry pc .ranges f'.unit.ranges _ >>= fun _ => _)
    rw [ranges_congr same]
    exact .andThen (entry_agree rfl) fun _ => .pure rfl
  | pushResult =>
    exact .thenPush 0 (.read fun _ _ machines => (congrArg Machine.result machines :))
  | pushReturnCode =>
    exact .pure (congrArg (fun code => Effect.erase (.push 0 (.int code))) (lastCode_congr same))
  | strEq | strNeq => exact textEquality_agree _
  | strCmp => exact textOrder_agree
  | strLen => exact .andThen (.peekText 0) fun text => .pure rfl
  | strIndex =>
    refine .andThen (.peekText 1) fun text => .bind .peek fun v w named => ?_
    have chosen : Agree (Option.map id) (pick text.toList v) (pick text.toList w) :=
      pick_agree rfl named
    refine .bind chosen fun found found' picked => ?_
    rw [Option.map_id, id, id] at picked
    rw [picked]
    exact .pure rfl
  | listLength =>
    refine .bind .peek fun v w values => .bind (itemsOf_agree values) fun vs ws items => ?_
    have length : vs.length = ws.length := by simpa using congrArg List.length items
    rw [length]
    exact .pure rfl
  | listIndex =>
    refine .bind (.peekAt 1) fun v w values => .bind (itemsOf_agree values) fun vs ws items => ?_
    refine .bind .peek fun v' w' named => .bind (pick_agree items named) ?_
    intro found found' picked
    have item : (found.getD Value.empty).erase = (found'.getD Value.empty).erase := by
      rw [← Option.getD_map Value.erase, picked, Option.getD_map]
    exact .pure (congrArg (Effect.push 2) item :)
  | returnValue =>
    refine .bind .peek fun v w values => .raise ?_
    exact (congrArg (Exception.complete .returnValue) values :)

end Frame

end CommandVM
