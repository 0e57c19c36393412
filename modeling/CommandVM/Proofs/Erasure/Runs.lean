import CommandVM.Machine.Run
import CommandVM.Proofs.Erasure.Steps

/-!
# Runs without representations

Units that differ only in the representation of their literals run alike: instruction by
instruction, through exceptions and calls of any depth, for any fuel.
-/

namespace CommandVM

open CommandVM.Action

variable {e e' : Exception} {f f' : Frame} {pc : Nat} {i : Instruction} {invoke : Invoke}
  {u u' : CompiledUnit} {v w : Value} {vs ws : List Value}

/-! ### Exceptions -/

namespace Exception

theorem attributeTo_erase (e : Exception) (location : Option Location) (snippet : Option String) :
    (e.attributeTo location snippet).erase = e.erase.attributeTo location snippet := by
  have attributed : e.erase.attributed = e.attributed := rfl
  rw [attributeTo, attributeTo, attributed]
  split
  · rfl
  · cases snippet <;> rfl

theorem complete_congr (code : Code) (same : v.erase = w.erase) :
    (complete code v).erase = (complete code w).erase := by
  rw [complete, complete, Value.str_congr same, erase, erase, map, map, same]

variable (same : e.erase = e'.erase)
include same

theorem code_congr : e.code = e'.code := (congrArg code same :)

theorem value_congr : e.value.erase = e'.value.erase := (congrArg value same :)

theorem attributeTo_congr (location : Option Location) (snippet : Option String) :
    (e.attributeTo location snippet).erase = (e'.attributeTo location snippet).erase := by
  rw [attributeTo_erase, same, ← attributeTo_erase]

theorem isMalformed_congr : e.isMalformed = e'.isMalformed := (congrArg isMalformed same :)

theorem message_congr : e.message = e'.message := by
  rw [message, message, code_congr same, Value.str_congr (value_congr same)]

end Exception

theorem Machine.recordError_congr {m m' : Machine} (machines : m.erase = m'.erase)
    (same : e.erase = e'.erase) :
    ({ m with result := e.value }.recordError e).erase =
      ({ m' with result := e'.value }.recordError e').erase := by
  have info : e.info = e'.info := (congrArg Exception.info same :)
  have errorCode : e.errorCode = e'.errorCode := (congrArg Exception.errorCode same :)
  rw [recordError, recordError, info, errorCode]
  exact congrArg (fun m : Machine => { m with errorInfo := e'.info, errorCode := e'.errorCode })
    (withResult_congr machines (Exception.value_congr same))

/-! ### Conversion to a number -/

/-- A number in place of a top value that has a numeric view, also if it is a number already. -/
def Frame.convertTop : Action Effect := do
  let v ← Action.peek
  match v.number with
  | .ok n => return .replace 1 n
  | .error .tooLarge => Action.fault .integerTooLarge
  | .error .doubleTooLarge => Action.fault .floatOverflow
  | .error _ => return .discard 0

theorem Frame.convertTop_agree : Agree Effect.erase convertTop convertTop := by
  refine .bind .peek fun v w values => ?_
  rcases map_eq_cases (Value.number_congr values) with ⟨n, k, first, second, widened⟩ |
    ⟨e, first, second⟩
  · rw [first, second]
    exact .pure (congrArg (Effect.replace 1) widened :)
  · rw [first, second]
    split
    · contradiction
    · exact .fault _
    · exact .fault _
    · exact .pure rfl

theorem Stack.setTop_peekAt {s : Stack} (top : s.peekAt 0 = .ok v) : s.setTop v = .ok s := by
  rw [peekAt] at top
  by_cases inside : 0 < s.depth
  · rw [if_pos inside] at top
    obtain ⟨slots, floor, limit⟩ := s
    cases slots with
    | nil => cases top
    | cons a rest =>
      cases top
      exact if_neg (Nat.ne_of_gt inside)
  · rw [if_neg inside] at top
    cases top

theorem Action.discard_zero (m : Machine) : Action.discard 0 m = (.ok (), m) := by
  rw [discard, reshape, Stack.discard, if_neg (Nat.not_lt_zero _)]
  rfl

theorem Value.ofNumber_of_held {n : Number} (held : v.held? = some n) : ofNumber n = v := by
  cases v with
  | text s => cases held
  | list items => cases held
  | _ =>
    cases held
    rfl

namespace Frame

/-- What follows the step of an instruction. -/
def finish (f : Frame) (pc : Nat) (i : Instruction) (effect : Effect) : Action (Option Nat) := do
  let next ← f.target pc i effect.next
  if next.isSome then effect.settle
  return next

theorem perform_eq : f.perform invoke pc i = f.step invoke pc i >>= f.finish pc i := rfl

theorem finish_replace_held {m : Machine} {n : Number} (top : m.stack.peekAt 0 = .ok v)
    (held : v.held? = some n) :
    f.finish pc i (.replace 1 n) m = f.finish pc i (.discard 0) m := by
  have set : m.stack.setTop (.ofNumber n) = .ok m.stack := by
    rw [Value.ofNumber_of_held held]
    exact Stack.setTop_peekAt top
  have settled : (Effect.replace 1 n).settle m = (Effect.discard 0).settle m := by
    have left : (Effect.replace 1 n).settle m = Action.bind (Action.discard 0)
        (fun _ => Action.reshape fun s => s.setTop (.ofNumber n)) m := rfl
    have right : (Effect.discard 0).settle m = Action.discard 0 m := rfl
    rw [left, right, Action.bind, Action.discard_zero]
    dsimp only
    rw [Action.reshape, set]
  show Action.bind (Effect.replace 1 n).settle (fun _ => Action.pure (some (pc + i.size))) m =
    Action.bind (Effect.discard 0).settle (fun _ => Action.pure (some (pc + i.size))) m
  rw [Action.bind, settled, Action.bind]

/-- Overwriting a number with itself is as good as leaving it. -/
theorem perform_conversion (op : i.opcode = .tryCvtToNumeric) :
    f.perform invoke pc i = convertTop >>= f.finish pc i := by
  funext m
  have stepped : f.step invoke pc i = tryNumeric := by
    rw [step, op]
  rw [perform_eq, stepped]
  show Action.bind (Action.bind Action.peek _) _ m = Action.bind (Action.bind Action.peek _) _ m
  simp only [Action.bind, Action.peek, Action.peekAt, Action.inspect]
  cases top : m.stack.peekAt 0 with
  | error violation => rfl
  | ok v =>
    dsimp only
    cases held : v.held? with
    | none =>
      rewrite [Value.isNumeric, held, Option.isSome_none, if_neg Bool.false_ne_true]
      rfl
    | some n =>
      have number : v.number = .ok n := by rw [Value.number, held]
      rw [Value.isNumeric, held, Option.isSome_some, if_pos rfl, number]
      exact (finish_replace_held top held).symm

theorem code_congr (same : f.erase = f'.erase) : f.unit.code = f'.unit.code :=
  (congrArg CompiledUnit.code (unit_congr same) :)

theorem target_agree (same : f.erase = f'.erase) (next : Next) :
    Agree id (f.target pc i next) (f'.target pc i next) := by
  cases next with
  | advance => exact .pure rfl
  | done => exact .pure rfl
  | jump distance =>
    rw [target, target, code_congr same]
    split
    · exact .fault _
    · exact .pure rfl

theorem finish_agree (same : f.erase = f'.erase) {effect effect' : Effect}
    (effects : effect.erase = effect'.erase) :
    Agree id (f.finish pc i effect) (f'.finish pc i effect') := by
  have next : effect.next = effect'.next := (congrArg Effect.next effects :)
  rw [finish, finish, next]
  refine .andThen (target_agree same _) fun target => ?_
  split
  · exact .andThen (Effect.settle_agree effects) fun _ => .pure rfl
  · exact .pure rfl

theorem perform_agree (respects : invoke.Respects) (same : f.erase = f'.erase) :
    Agree id (f.perform invoke pc i) (f'.perform invoke pc i) := by
  by_cases op : i.opcode = .tryCvtToNumeric
  -- On one side the operand may be a number already, so the effects need not be the same.
  · rw [perform_conversion op, perform_conversion op]
    exact .bind convertTop_agree fun _ _ effects => finish_agree same effects
  · exact .bind (step_agree respects same op) fun _ _ effects => finish_agree same effects

/-! ### Unwinding -/

/-- Where control goes after an exception, with its value erased. -/
def Resume.erase : Resume → Resume
  | .at pc => .at pc
  | .abandon e => .abandon e.erase

/-- What a dispatch leads to, erased. -/
def Turn.erase : Turn → Turn
  | .go pc f => .go pc f.erase
  | .stop outcome => .stop (completed Value.erase outcome)

theorem abandon_agree (same : f.erase = f'.erase) (exceptions : e.erase = e'.erase) :
    Agree Exception.erase (f.abandon pc e) (f'.abandon pc e') := by
  have command : f.unit.commandAt pc = f'.unit.commandAt pc :=
    (congrArg (CompiledUnit.commandAt · pc) (unit_congr same) :)
  have snippet : f.unit.snippet = f'.unit.snippet :=
    (congrArg CompiledUnit.snippet (unit_congr same) :)
  rw [abandon, abandon, base_congr same, Exception.code_congr exceptions, command, snippet]
  refine .andThen (.reshape fun _ _ stacked => Stack.truncate_congr stacked _) fun _ => ?_
  split
  · exact .pure (Exception.attributeTo_congr exceptions _ _)
  · exact .pure exceptions

section

variable (same : f.erase = f'.erase) (exceptions : e.erase = e'.erase)
include same exceptions

theorem giveUp_agree :
    Agree (Prod.map Resume.erase Frame.erase) (f.giveUp pc e) (f'.giveUp pc e') := by
  refine .bind (abandon_agree same exceptions) fun _ _ abandoned => .pure ?_
  exact Prod.ext (congrArg Resume.abandon abandoned) same

theorem catchWith_agree (r : ExceptionRange) :
    Agree (Prod.map Resume.erase Frame.erase) (f.catchWith pc r e) (f'.catchWith pc r e') := by
  have code := Exception.code_congr exceptions
  rw [catchWith, catchWith, catchHeights_congr same, code]
  split
  · refine .andThen (.reshape fun _ _ stacked => Stack.truncate_congr stacked _) fun _ => ?_
    refine .andThen (.modify fun m m' machines => ?_) fun _ => .pure (Prod.ext rfl ?_)
    · dsimp only
      split
      · exact Machine.recordError_congr machines exceptions
      · exact Machine.withResult_congr machines (Exception.value_congr exceptions)
    · exact congrArg (fun f : Frame =>
        { f with catchHeights := f'.catchHeights, lastCode := e'.code.number }) same
  · exact giveUp_agree same exceptions

theorem lookForCatch_agree :
    Agree (Prod.map Resume.erase Frame.erase) (f.lookForCatch pc e) (f'.lookForCatch pc e') := by
  rw [lookForCatch, lookForCatch, catchHeights_congr same, ranges_congr same]
  split
  · exact giveUp_agree same exceptions
  · split
    · exact catchWith_agree same exceptions _
    · exact giveUp_agree same exceptions

theorem handle_agree :
    Agree (Prod.map Resume.erase Frame.erase) (f.handle pc i e) (f'.handle pc i e') := by
  rw [handle, handle, Exception.code_congr exceptions, ranges_congr same]
  split
  · split
    · exact catchWith_agree same exceptions _
    · split
      · exact .andThen (.discard _) fun _ => .pure (Prod.ext rfl same)
      · exact lookForCatch_agree same exceptions
  · exact lookForCatch_agree same exceptions

theorem leaveWith_agree : Agree Turn.erase (f.leaveWith pc e) (f'.leaveWith pc e') := by
  refine .bind (abandon_agree same exceptions) fun _ _ abandoned => .pure ?_
  exact congrArg (fun e => Turn.stop (Except.error e)) abandoned

theorem recover_agree : Agree Turn.erase (f.recover pc i e) (f'.recover pc i e') := by
  rw [recover, recover, Exception.isMalformed_congr exceptions]
  split
  · exact leaveWith_agree same exceptions
  · refine .bind (handle_agree same exceptions) fun left right resumed => ?_
    obtain ⟨resume, g⟩ := left
    obtain ⟨resume', g'⟩ := right
    obtain ⟨resumes, frames⟩ := Prod.mk.inj resumed
    cases resume with
    | «at» pc =>
      cases resume' with
      | «at» pc' =>
        obtain rfl : pc = pc' := Resume.at.inj resumes
        exact .pure (congrArg (Turn.go pc) frames)
      | abandon e => cases resumes
    | abandon e =>
      cases resume' with
      | «at» pc => cases resumes
      | abandon e' =>
        exact .pure (congrArg (fun e => Turn.stop (Except.error e)) (Resume.abandon.inj resumes))

end

/-! ### Runs of frames -/

theorem result_agree : Agree Value.erase result result := by
  intro m m' machines
  have depth := Stack.depth_congr (Machine.stack_congr machines)
  rw [result, result, depth]
  split
  · rcases map_eq_cases (Stack.pop_congr (Machine.stack_congr machines)) with
      ⟨a, b, left, right, popped⟩ | ⟨violation, left, right⟩
    · rw [left, right]
      obtain ⟨values, stacked⟩ := Prod.mk.inj popped
      exact Prod.ext (congrArg Except.ok values) (Machine.withStack_congr machines stacked)
    · rw [left, right]
      exact Prod.ext rfl machines
  · exact Prod.ext rfl machines

theorem saveHeight_congr (same : f.erase = f'.erase) (height : Nat) :
    (f.saveHeight i height).erase = (f'.saveHeight i height).erase := by
  rw [saveHeight, saveHeight]
  split
  · exact congrArg (fun f : Frame => { f with catchHeights := height :: f.catchHeights }) same
  · exact congrArg (fun f : Frame => { f with catchHeights := f.catchHeights.drop 1 }) same
  · exact same

theorem dispatch_agree (respects : invoke.Respects) (same : f.erase = f'.erase) :
    Agree Turn.erase (f.dispatch invoke pc) (f'.dispatch invoke pc) := by
  rw [dispatch, dispatch, code_congr same]
  split
  · exact leaveWith_agree same rfl
  · refine .bind (.attempt (perform_agree respects same)) fun outcome outcome' performed => ?_
    rcases completed_cases performed with ⟨next, next', rfl, rfl, (nexts : next = next')⟩ |
      ⟨e, e', rfl, rfl, exceptions⟩
    · subst nexts
      cases next with
      | none =>
        refine .bind result_agree fun v w values => .pure ?_
        exact congrArg (fun v => Turn.stop (Except.ok v)) values
      | some next =>
        refine .andThen .height fun height => .pure ?_
        exact congrArg (Turn.go next) (saveHeight_congr same height)
    · exact recover_agree same exceptions

theorem run_agree (respects : invoke.Respects) (fuel : Nat) (same : f.erase = f'.erase) :
    Agree Value.erase (run invoke fuel f pc) (run invoke fuel f' pc) := by
  induction fuel generalizing f f' pc with
  | zero => exact fun _ _ machines => Prod.ext rfl machines
  | succ fuel ih =>
    intro m m' machines
    rw [run, run]
    rcases seen_cases (dispatch_agree respects same m m' machines) with
      ⟨turn, turn', n, n', left, right, turns, after⟩ |
      ⟨stop, stop', n, n', left, right, stops, after⟩
    · rw [left, right]
      cases turn with
      | go pc f =>
        cases turn' with
        | go pc' f' =>
          obtain ⟨rfl, frames⟩ := Turn.go.inj turns
          exact ih frames n n' after
        | stop _ => cases turns
      | stop outcome =>
        cases turn' with
        | go _ _ => cases turns
        | stop outcome' => exact Agree.complete (Turn.stop.inj turns) n n' after
    · rw [left, right]
      exact Prod.ext (congrArg Except.error stops) after

theorem enter_agree (same : u.erase = u'.erase) :
    Agree (Prod.map id Frame.erase) (enter u) (enter u') := by
  intro m m' machines
  have names : u.locals = u'.locals := (congrArg CompiledUnit.locals same :)
  have depth : u.maxStack = u'.maxStack := (congrArg CompiledUnit.maxStack same :)
  obtain ⟨slots, stores⟩ := Store.resolveAll_congr (Machine.store_congr machines) u'.locals
  obtain ⟨marks, stacked⟩ :=
    Stack.enter_congr (Machine.stack_congr machines) u'.maxStack.toNat
  rw [enter, enter, names, depth]
  refine Prod.ext (congrArg Except.ok (Prod.ext marks ?_)) ?_
  · have height : m.stack.height = m'.stack.height := (congrArg FrameMark.base marks :)
    show Frame.mk u.erase m.stack.height (Store.resolveAll u'.locals m.store).1 [] 0 =
      Frame.mk u'.erase m'.stack.height (Store.resolveAll u'.locals m'.store).1 [] 0
    rw [same, slots, height]
  · exact Machine.withStack_congr (Machine.withStore_congr machines stores) stacked

theorem runUnit_agree (respects : invoke.Respects) (fuel : Nat) (same : u.erase = u'.erase) :
    Agree Value.erase (runUnit invoke fuel u) (runUnit invoke fuel u') := by
  refine .bind (enter_agree same) fun left right entered => ?_
  obtain ⟨mark, f⟩ := left
  obtain ⟨mark', f'⟩ := right
  obtain ⟨(marks : mark = mark'), frames⟩ := Prod.mk.inj entered
  subst marks
  refine .bind (.attempt (run_agree respects fuel frames)) fun outcome outcome' outcomes => ?_
  refine .andThen (.reshape fun _ _ stacked => Stack.leave_congr stacked mark) fun _ => ?_
  exact .complete outcomes

end Frame

/-! ### Commands -/

namespace Command

/-- Units and commands do the same, up to erasure, from what is the same after erasure. -/
structure Respects (calls : Calls) : Prop where
  execute : ∀ u u', u.erase = u'.erase → Agree Value.erase (calls.execute u) (calls.execute u')
  invoke : ∀ vs ws hint, vs.map Value.erase = ws.map Value.erase →
    Agree Value.erase (calls.invoke vs hint) (calls.invoke ws hint)

theorem write_agree (text : String) : Agree Value.erase (write text) (write text) := by
  refine .andThen (.modify fun _ _ machines => ?_) fun _ => .pure rfl
  exact congrArg (fun m : Machine => { m with output := m.output ++ text }) machines

theorem runPuts_erase (vs : List Value) : runPuts (vs.map Value.erase) = runPuts vs := by
  match vs with
  | [] => rfl
  | [text] => rw [List.map_cons, List.map_nil, runPuts, runPuts, Value.str_erase]
  | [flag, text] =>
    rw [List.map_cons, List.map_cons, List.map_nil, runPuts, runPuts, Value.str_erase,
      Value.str_erase]
  | _ :: _ :: _ :: _ => rfl

theorem runPuts_agree (same : vs.map Value.erase = ws.map Value.erase) :
    Agree Value.erase (runPuts vs) (runPuts ws) := by
  rw [← runPuts_erase vs, same, runPuts_erase]
  unfold runPuts
  split
  · exact write_agree _
  · split
    · exact write_agree _
    · exact .fault _
  · exact .fault _

theorem completeWith_agree (code : Option Code) (same : v.erase = w.erase) :
    Agree Value.erase (completeWith code v) (completeWith code w) := by
  cases code with
  | none => exact .pure same
  | some code => exact .raise (Exception.complete_congr code same)

theorem completeArgs_agree (code : Option Code) (same : vs.map Value.erase = ws.map Value.erase) :
    Agree Value.erase (completeArgs code vs) (completeArgs code ws) := by
  cases vs with
  | nil =>
    rw [nil_of_map_eq same]
    exact completeWith_agree code rfl
  | cons v vs =>
    obtain ⟨w, ws, rfl, first, rest⟩ := cons_of_map_eq same
    cases vs with
    | nil =>
      rw [nil_of_map_eq rest]
      exact completeWith_agree code first
    | cons v' vs =>
      obtain ⟨w', ws, rfl, _, _⟩ := cons_of_map_eq rest
      exact .fault _

theorem runReturn_agree (same : vs.map Value.erase = ws.map Value.erase) :
    Agree Value.erase (runReturn vs) (runReturn ws) := by
  cases vs with
  | nil =>
    rw [nil_of_map_eq same]
    exact completeArgs_agree (some .returnValue) (Eq.refl ([].map Value.erase))
  | cons flag vs =>
    obtain ⟨flag', ws, rfl, flags, rest⟩ := cons_of_map_eq same
    cases vs with
    | nil =>
      rw [nil_of_map_eq rest] at same ⊢
      exact completeArgs_agree (some .returnValue) same
    | cons code vs =>
      obtain ⟨code', ws, rfl, codes, others⟩ := cons_of_map_eq rest
      rw [runReturn, runReturn, Value.str_congr flags, Value.str_congr codes]
      split
      · split
        · exact completeArgs_agree _ others
        · exact .raise rfl
      · exact completeArgs_agree _ same

theorem bindParams_agree (params : List String) (same : vs.map Value.erase = ws.map Value.erase) :
    Agree id (bindParams (params.zip vs)) (bindParams (params.zip ws)) := by
  induction params generalizing vs ws with
  | nil => exact .pure rfl
  | cons param params ih =>
    cases vs with
    | nil =>
      rw [nil_of_map_eq same]
      exact .pure rfl
    | cons v vs =>
      obtain ⟨w, ws, rfl, first, rest⟩ := cons_of_map_eq same
      exact .bind (.accessNamed (Access.write_congr first .set) param) fun _ _ _ => ih rest

theorem inScope_agree {α γ : Type} {view : α → γ} {action action' : Action α}
    (agree : Agree view action action') : Agree view (inScope action) (inScope action') := by
  let inner (m : Machine) : Machine := { m with store := m.store.pushScope }
  let outer (m : Machine) : Machine := { m with store := m.store.popScope }
  refine .within inner outer (fun _ _ same => ?_) (fun _ _ same => ?_) agree
  · exact Machine.withStore_congr same (Store.pushScope_congr (Machine.store_congr same))
  · refine Machine.withStore_congr same ?_
    rw [Store.popScope_erase, Machine.store_congr same, ← Store.popScope_erase]

theorem procCompletion_congr (name : String) {outcome outcome' : Except Exception Value}
    (same : completed Value.erase outcome = completed Value.erase outcome') :
    completed Value.erase (procCompletion name outcome) =
      completed Value.erase (procCompletion name outcome') := by
  rcases completed_cases same with ⟨v, w, rfl, rfl, _⟩ | ⟨e, e', rfl, rfl, exceptions⟩
  · exact same
  · have left := Frame.outsideLoop_congr exceptions
    rw [procCompletion, procCompletion, Exception.code_congr exceptions]
    split
    · exact congrArg Except.ok (Exception.value_congr exceptions)
    · refine congrArg Except.error ?_
      rw [Exception.code_congr left]
      split
      · exact congrArg (Exception.addInfo · ("\n    (procedure \"" ++ name ++ "\")")) left
      · exact left

variable {calls : Calls} (respects : Respects calls)
include respects

theorem runProc_agree (name : String) (params : List String) (body : CompiledUnit)
    (same : vs.map Value.erase = ws.map Value.erase) :
    Agree Value.erase (runProc calls name params body vs) (runProc calls name params body ws) := by
  have length : vs.length = ws.length := by simpa using congrArg List.length same
  rw [runProc, runProc, length]
  split
  · exact .fault _
  · refine .bind (.attempt (inScope_agree ?_)) fun _ _ outcomes =>
      .complete (procCompletion_congr name outcomes)
    exact .andThen (bindParams_agree params same) fun _ => respects.execute body body rfl

theorem run_agree (command : Command) (same : vs.map Value.erase = ws.map Value.erase) :
    Agree Value.erase (run calls command vs) (run calls command ws) := by
  have args : (vs.drop 1).map Value.erase = (ws.drop 1).map Value.erase := by
    rw [List.map_drop, same, ← List.map_drop]
  have empty : (vs.drop 1).isEmpty = (ws.drop 1).isEmpty := by
    rw [← List.isEmpty_map (f := Value.erase), args, List.isEmpty_map]
  cases command with
  | puts => exact runPuts_agree args
  | list => exact .pure (Value.list_congr args)
  | error =>
    rw [run, run]
    generalize vs.drop 1 = as at args ⊢
    generalize ws.drop 1 = bs at args ⊢
    cases as with
    | nil =>
      rw [nil_of_map_eq args]
      exact .fault _
    | cons message as =>
      obtain ⟨message', bs, rfl, messages, rest⟩ := cons_of_map_eq args
      cases as with
      | nil =>
        rw [nil_of_map_eq rest]
        dsimp only
        rw [Value.str_congr messages]
        exact .raise rfl
      | cons _ _ =>
        obtain ⟨_, _, rfl, _, _⟩ := cons_of_map_eq rest
        exact .fault _
  | breakLoop | continueLoop =>
    rw [run, run, empty]
    split
    · exact .raise rfl
    · exact .fault _
  | returnValue => exact runReturn_agree args
  | proc name params body => exact runProc_agree respects name params body args
  | const v => exact .pure rfl
  | raise code v => exact completeWith_agree _ rfl
  | join =>
    rw [run, run, Value.strs_congr args]
    exact .pure rfl
  | execute body => exact respects.execute body body rfl
  | invoke hint => exact respects.invoke _ _ hint args
  | recurse => exact respects.invoke _ _ none same
  | get =>
    have name : (vs.drop 1).head?.map Value.str = (ws.drop 1).head?.map Value.str := by
      rw [← List.head?_map, ← List.head?_map, ← Value.strs_eq_map, ← Value.strs_eq_map,
        Value.strs_congr args]
    rw [run, run, name]
    exact .accessNamed rfl _
  | height => exact .andThen .height fun _ => .pure rfl
  | mark =>
    refine .andThen (.modify fun _ _ machines => ?_) fun _ => .pure rfl
    exact congrArg (fun m : Machine => { m with marked := true }) machines

theorem runNamed_agree (name : String) (same : vs.map Value.erase = ws.map Value.erase) :
    Agree Value.erase (runNamed calls name vs) (runNamed calls name ws) := by
  have looked : Agree id (Action.read fun m => m.commands.lookup name)
      (Action.read fun m => m.commands.lookup name) :=
    .read fun _ _ machines => congrArg (List.lookup name) (congrArg Machine.commands machines :)
  refine .andThen looked fun registered => ?_
  split
  · exact run_agree respects _ same
  · exact .fault _

omit respects

theorem finishInvoke_agree (hint : Option String) {outcome outcome' : Except Exception Value}
    (same : completed Value.erase outcome = completed Value.erase outcome') :
    Agree Value.erase (finishInvoke hint outcome) (finishInvoke hint outcome') := by
  rcases completed_cases same with ⟨v, w, rfl, rfl, values⟩ | ⟨e, e', rfl, rfl, exceptions⟩
  · refine .andThen (.modify fun _ _ machines => ?_) fun _ => .pure values
    exact Machine.withResult_congr machines values
  · rw [finishInvoke, finishInvoke, Exception.code_congr exceptions]
    split
    · have attributed := Exception.attributeTo_congr exceptions none hint
      refine .andThen (.modify fun _ _ machines => ?_) fun _ => .raise attributed
      exact Machine.withResult_congr machines (Exception.value_congr attributed)
    · refine .andThen (.modify fun _ _ machines => ?_) fun _ => .raise exceptions
      exact Machine.withResult_congr machines (Exception.value_congr exceptions)

end Command

/-! ### Calls -/

theorem calls_agree (fuel level : Nat) :
    Command.Respects { execute := executeTo fuel level, invoke := invokeTo fuel level } := by
  -- A unit calls commands and a command runs units, both one level down.
  induction level with
  | zero =>
    constructor
    · intro u u' _
      exact .fault _
    · intro vs ws hint same
      cases vs with
      | nil =>
        rw [nil_of_map_eq same]
        exact .pure rfl
      | cons name args =>
        obtain ⟨name', args', rfl, _, _⟩ := cons_of_map_eq same
        exact .fault _
  | succ level ih =>
    constructor
    · intro u u' same
      exact .nested (Frame.runUnit_agree (fun vs ws args => ih.invoke vs ws none args) fuel same)
    · intro vs ws hint same
      cases vs with
      | nil =>
        rw [nil_of_map_eq same]
        exact .pure rfl
      | cons name args =>
        obtain ⟨name', args', rfl, named, _⟩ := cons_of_map_eq same
        dsimp only
        rw [invokeTo, invokeTo, Value.str_congr named]
        refine .bind (.nested (.attempt (Command.runNamed_agree ih name'.str same))) ?_
        intro _ _ outcomes
        exact Command.finishInvoke_agree hint outcomes

namespace Machine

theorem execute_agree (fuel : Nat) (same : u.erase = u'.erase) :
    Agree Value.erase (execute fuel u) (execute fuel u') := by
  intro m m' machines
  have room : m.room = m'.room := (congrArg room machines :)
  rw [execute, execute, room]
  exact (calls_agree fuel m'.room).execute u u' same m m' machines

theorem topCompletion_congr {outcome outcome' : Except Exception Value}
    (same : completed Value.erase outcome = completed Value.erase outcome') :
    completed Value.erase (topCompletion outcome) =
      completed Value.erase (topCompletion outcome') := by
  rcases completed_cases same with ⟨v, w, rfl, rfl, _⟩ | ⟨e, e', rfl, rfl, exceptions⟩
  · exact same
  · rw [topCompletion, topCompletion, Exception.code_congr exceptions]
    split
    · exact congrArg Except.ok (Exception.value_congr exceptions)
    · exact congrArg Except.error (Frame.outsideLoop_congr exceptions)

theorem applyHandler_agree (h : Handler) {outcome outcome' : Except Exception Value}
    (same : completed Value.erase outcome = completed Value.erase outcome') :
    Agree (completed Value.erase) (applyHandler outcome h) (applyHandler outcome' h) := by
  cases h with
  | pass => exact .pure same
  | replace v => exact .pure rfl
  | fail message => exact .pure rfl
  | wrap =>
    rcases completed_cases same with ⟨v, w, rfl, rfl, values⟩ | ⟨e, e', rfl, rfl, exceptions⟩
    · rw [applyHandler, applyHandler, Value.str_congr values]
      exact .pure rfl
    · rw [applyHandler, applyHandler, Exception.message_congr exceptions]
      exact .pure rfl
  | remark =>
    refine .andThen (.modify fun _ _ machines => ?_) fun _ => .pure same
    exact congrArg (fun m : Machine => { m with marked := true }) machines

theorem applyHandlers_agree (hs : List Handler) {outcome outcome' : Except Exception Value}
    (same : completed Value.erase outcome = completed Value.erase outcome') :
    Agree (completed Value.erase) (applyHandlers hs outcome) (applyHandlers hs outcome') := by
  induction hs generalizing outcome outcome' with
  | nil => exact .pure same
  | cons h hs ih => exact .bind (applyHandler_agree h same) fun _ _ handled => ih handled

theorem takeMark_agree : Agree id takeMark takeMark := by
  intro m m' machines
  have marks : m.marked = m'.marked := (congrArg Machine.marked machines :)
  exact Prod.ext (congrArg Except.ok marks)
    (congrArg (fun m : Machine => { m with marked := false }) machines)

theorem record_congr {m m' : Machine} (machines : m.erase = m'.erase)
    {outcome outcome' : Except Exception Value}
    (same : completed Value.erase outcome = completed Value.erase outcome') :
    (record outcome m).erase = (record outcome' m').erase := by
  rcases completed_cases same with ⟨v, w, rfl, rfl, values⟩ | ⟨e, e', rfl, rfl, exceptions⟩
  · exact withResult_congr machines values
  · exact recordError_congr machines exceptions

theorem eval_agree (fuel : Nat) (same : u.erase = u'.erase) :
    Agree Value.erase (eval fuel u) (eval fuel u') := by
  refine .bind (.attempt (execute_agree fuel same)) fun outcome outcome' outcomes => ?_
  have tops := topCompletion_congr outcomes
  have handlers : Agree id (Action.read Machine.handlers) (Action.read Machine.handlers) :=
    .read fun _ _ machines => (congrArg Machine.handlers machines :)
  refine .andThen handlers fun hs => .andThen takeMark_agree fun marked => ?_
  have recorded {last last' : Except Exception Value}
      (same : completed Value.erase last = completed Value.erase last') :
      Agree Value.erase (Action.modify (record last) >>= fun _ => Action.complete last)
        (Action.modify (record last') >>= fun _ => Action.complete last') :=
    .andThen (.modify fun _ _ machines => record_congr machines same) fun _ => .complete same
  dsimp only
  split
  · exact .bind (applyHandlers_agree hs tops) fun _ _ handled => recorded handled
  · exact recorded tops

end Machine

end CommandVM
