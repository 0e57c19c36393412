import CommandVM.Machine.Unwind

/-!
# Running units

`dispatch` runs the instruction at an offset; `run` repeats it until the frame is done or abandoned.
Units and commands call one another through `execute` and `invoke`, each call one level deeper, so
the nesting limit bounds the recursion; the fuel bounds the dispatches of each frame.
-/

namespace CommandVM

namespace Frame

inductive Turn where
  /-- The frame goes on at an offset. -/
  | go (pc : Nat) (f : Frame)
  /-- The frame is done with a value, or abandoned. -/
  | stop (outcome : Except Exception Value)

def result : Action Value := fun m =>
  if m.stack.depth = 1 then
    match m.stack.pop with
    | .ok (v, stack) => (.ok v, { m with stack })
    | .error v => (.error (.violation v), m)
  else (.error (.violation (.unbalancedDone m.stack.depth)), m)

/-- The offset that a step leads to, or none when the frame is done. -/
def target (f : Frame) (pc : Nat) (i : Instruction) (next : Next) : Action (Option Nat) :=
  match next with
  | .done => return none
  | .advance => return some (pc + i.size)
  | .jump distance =>
    let target : Int := pc + distance
    if target < 0 || f.unit.code.length ≤ target.toNat then
      Action.fault (.malformed (.jumpOutOfBounds pc target))
    else return some target.toNat

def perform (invoke : Invoke) (f : Frame) (pc : Nat) (i : Instruction) :
    Action (Option Nat) := do
  let effect ← f.step invoke pc i
  let next ← f.target pc i effect.next
  if next.isSome then effect.settle
  return next

def leaveWith (f : Frame) (pc : Nat) (e : Exception) : Action Turn := do
  return .stop (.error (← f.abandon pc e))

/-- Takes care of the exception of an instruction; a malformed unit is not caught. -/
def recover (f : Frame) (pc : Nat) (i : Instruction) (e : Exception) : Action Turn :=
  if e.isMalformed then f.leaveWith pc e
  else do
    match ← f.handle pc i e with
    | (.at pc, f) => return .go pc f
    | (.abandon e, _) => return .stop (.error e)

def dispatch (invoke : Invoke) (f : Frame) (pc : Nat) : Action Turn :=
  match Instruction.decodeAt f.unit.code pc with
  | .error e => f.leaveWith pc (.ofFault (.malformed e))
  | .ok i => do
    match ← Action.attempt (f.perform invoke pc i) with
    | .ok (some next) =>
      let height ← Action.read fun m => m.stack.height
      return .go next (f.saveHeight i height)
    | .ok none => return .stop (.ok (← result))
    | .error e => f.recover pc i e

/-- Runs a frame from an offset, for `fuel` dispatches at most. -/
def run (invoke : Invoke) : Nat → Frame → Nat → Action Value
  | 0, _, _, m => (.error .outOfFuel, m)
  | fuel + 1, f, pc, m => match f.dispatch invoke pc m with
    | (.ok (.go pc f), m) => run invoke fuel f pc m
    | (.ok (.stop outcome), m) => Action.complete outcome m
    | (.error stop, m) => (.error stop, m)

def enter (unit : CompiledUnit) : Action (FrameMark × Frame) := fun m =>
  let (slots, store) := Store.resolveAll unit.locals m.store
  let (mark, stack) := m.stack.enter unit.maxStack.toNat
  (.ok (mark, { unit, base := mark.base, slots }), { m with store, stack })

def runUnit (invoke : Invoke) (fuel : Nat) (unit : CompiledUnit) : Action Value := do
  let (mark, frame) ← enter unit
  let outcome ← Action.attempt (run invoke fuel frame 0)
  -- The frame is left with its outcome, whatever that is; a violation skips this.
  Action.reshape (·.leave mark)
  Action.complete outcome

end Frame

/-! ### Commands -/

/-- What a command may call: units, and other commands. -/
structure Calls where
  execute : CompiledUnit → Action Value
  invoke : List Value → Option String → Action Value

namespace Command

def wrongArgs {α : Type} (usage : String) : Action α := Action.fault (.wrongArgs usage)

def write (text : String) : Action Value := do
  Action.modify fun m => { m with output := m.output ++ text }
  return Value.empty

def runPuts (args : List Value) : Action Value :=
  match args with
  | [text] => write (text.str ++ "\n")
  | [flag, text] =>
    if flag.str = "-nonewline" then write text.str else wrongArgs "puts ?-nonewline? string"
  | _ => wrongArgs "puts ?-nonewline? string"

/-- The completion code with a name or a number; none is normal completion. -/
def readCode (text : String) : Except String (Option Code) :=
  match text with
  | "ok" => .ok none
  | "error" => .ok (some .error)
  | "return" => .ok (some .returnValue)
  | "break" => .ok (some .breakLoop)
  | "continue" => .ok (some .continueLoop)
  | text => match Text.int32? text.toList with
    | some n => .ok (Code.ofNumber? (Int32.ofInt n))
    | none => .error (s!"bad completion code \"{text}\": must be ok, error, return, break, " ++
        "continue, or an integer")

def completeWith (code : Option Code) (v : Value) : Action Value :=
  match code with
  | none => return v
  | some code => Action.raise (.complete code v)

def completeArgs (code : Option Code) (args : List Value) : Action Value :=
  match args with
  | [] => completeWith code Value.empty
  | [v] => completeWith code v
  | _ => wrongArgs "return ?-code code? ?value?"

def runReturn (args : List Value) : Action Value :=
  match args with
  | flag :: code :: rest =>
    if flag.str = "-code" then
      match readCode code.str with
      | .ok code => completeArgs code rest
      | .error message => Action.raise (.ofMessage message)
    else completeArgs (some .returnValue) args
  | args => completeArgs (some .returnValue) args

def usage (name : String) (params : List String) : String :=
  String.intercalate " " (name :: params)

def bindParams : List (String × Value) → Action Unit
  | [] => pure ()
  | (param, v) :: rest => do
    let _ ← Action.accessNamed param (.write v .set)
    bindParams rest

/-- Runs an action in a scope of its own. -/
def inScope {α : Type} (action : Action α) : Action α := fun m =>
  let (outcome, m) := action { m with store := m.store.pushScope }
  (outcome, { m with store := m.store.popScope })

/-- The completion of a procedure, given that of its body: `return` is normal, and loop exits are
errors. -/
def procCompletion (name : String) : Except Exception Value → Except Exception Value
  | .ok v => .ok v
  | .error e =>
    if e.code = .returnValue then .ok e.value
    else
      let e := Frame.outsideLoop e
      .error (if e.code = .error then e.addInfo ("\n    (procedure \"" ++ name ++ "\")") else e)

def runProc (calls : Calls) (name : String) (params : List String) (body : CompiledUnit)
    (args : List Value) : Action Value :=
  if args.length ≠ params.length then wrongArgs (usage name params)
  else do
    let outcome ← Action.attempt (inScope do
      bindParams (params.zip args)
      calls.execute body)
    Action.complete (procCompletion name outcome)

def run (calls : Calls) (command : Command) (argv : List Value) : Action Value :=
  let args := argv.drop 1
  match command with
  | .puts => runPuts args
  | .list => return .list args
  | .error => match args with
    | [message] => Action.raise (.ofMessage message.str)
    | _ => wrongArgs "error message"
  | .breakLoop =>
    if args.isEmpty then Action.raise (.complete .breakLoop Value.empty) else wrongArgs "break"
  | .continueLoop =>
    if args.isEmpty then Action.raise (.complete .continueLoop Value.empty)
    else wrongArgs "continue"
  | .returnValue => runReturn args
  | .proc name params body => runProc calls name params body args
  | .const v => return v
  | .raise code v => completeWith (Code.ofNumber? code) v
  | .join => return .text (String.intercalate "-" (Value.strs args))
  | .execute body => calls.execute body
  | .invoke hint => calls.invoke args hint
  | .recurse => calls.invoke argv none
  | .get => Action.accessNamed ((args.head?.map Value.str).getD "") .read
  | .height => return .ofInt64 (Int64.ofNat (← Action.read fun m => m.stack.height))
  | .mark => do
    Action.modify fun m => { m with marked := true }
    return .text "marked"

def runNamed (calls : Calls) (name : String) (argv : List Value) : Action Value := do
  match ← Action.read fun m => m.commands.lookup name with
  | some command => command.run calls argv
  | none => Action.fault (.unknownCommand name)

/-- The result of the machine becomes that of the completion; an error is attributed to the hint. -/
def finishInvoke (hint : Option String) : Except Exception Value → Action Value
  | .ok v => do
    Action.modify fun m => { m with result := v }
    return v
  | .error e => do
    let e := if e.code = .error && hint.isSome then e.attributeTo none hint else e
    Action.modify fun m => { m with result := e.value }
    Action.raise e

end Command

/-! ### Calls -/

mutual

/-- Executes a unit in the current scope, with at most `level` more levels of nesting. -/
def executeTo (fuel : Nat) : Nat → CompiledUnit → Action Value
  | 0, _ => Action.fault .nestingLimit
  | level + 1, unit =>
    Action.nested (Frame.runUnit (fun argv => invokeTo fuel level argv none) fuel unit)

def invokeTo (fuel : Nat) : Nat → List Value → Option String → Action Value
  | _, [], _ => pure Value.empty
  | 0, _ :: _, _ => Action.fault .nestingLimit
  | level + 1, name :: args, hint => do
    let calls : Calls :=
      { execute := fun unit => executeTo fuel level unit
        invoke := fun argv hint => invokeTo fuel level argv hint }
    let outcome ← Action.nested (Action.attempt (Command.runNamed calls name.str (name :: args)))
    Command.finishInvoke hint outcome

end

namespace Machine

def room (m : Machine) : Nat := m.maxNesting - m.nesting

def execute (fuel : Nat) (unit : CompiledUnit) : Action Value := fun m =>
  executeTo fuel m.room unit m

def invoke (fuel : Nat) (argv : List Value) (hint : Option String) : Action Value := fun m =>
  invokeTo fuel m.room argv hint m

/-! ### Evaluation -/

/-- The completion of a unit at the outermost level: `return` is normal, and loop exits are
errors. -/
def topCompletion : Except Exception Value → Except Exception Value
  | .ok v => .ok v
  | .error e => if e.code = .returnValue then .ok e.value else .error (Frame.outsideLoop e)

def applyHandler (outcome : Except Exception Value) (h : Handler) :
    Action (Except Exception Value) :=
  match h with
  | .pass => return outcome
  | .replace v => return .ok v
  | .fail message => return .error (.ofMessage message)
  | .wrap => match outcome with
    | .ok v => return .ok (.text ("<" ++ v.str ++ ">"))
    | .error e => return .ok (.text ("caught: " ++ e.message))
  | .remark => do
    Action.modify fun m => { m with marked := true }
    return outcome

def applyHandlers : List Handler → Except Exception Value → Action (Except Exception Value)
  | [], outcome => return outcome
  | h :: hs, outcome => do applyHandlers hs (← applyHandler outcome h)

def takeMark : Action Bool := fun m => (.ok m.marked, { m with marked := false })

def record (outcome : Except Exception Value) (m : Machine) : Machine :=
  match outcome with
  | .ok v => { m with result := v }
  | .error e => { m with result := e.value }.recordError e

def eval (fuel : Nat) (unit : CompiledUnit) : Action Value := do
  let outcome := topCompletion (← Action.attempt (execute fuel unit))
  let hs ← Action.read Machine.handlers
  let outcome ← if ← takeMark then applyHandlers hs outcome else pure outcome
  Action.modify (record outcome)
  Action.complete outcome

end Machine

end CommandVM
