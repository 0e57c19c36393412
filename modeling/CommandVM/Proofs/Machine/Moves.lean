import CommandVM.Proofs.Machine.Perform

/-!
# Moves of a frame

A frame goes on in three ways: an instruction is performed, a loop exit goes to a target of its
range, or an exception goes to a handler. A run is a chain of such moves from the entry of the
frame. It is what the dispatch loop does.
-/

namespace CommandVM

theorem Exception.isMalformed_attributeTo {e : Exception} {location : Option Location}
    {snippet : Option String} : (e.attributeTo location snippet).isMalformed = e.isMalformed := by
  unfold attributeTo
  split
  · rfl
  · dsimp only
    split <;> rfl

namespace Frame

/-! ### Routes of exceptions -/

/-- What becomes of an exception. -/
inductive Route where
  /-- A loop exit goes to a target of the range. -/
  | exit (r : ExceptionRange) (target : UInt32)
  /-- The handler of the range takes over, with the stack cut to a saved height. -/
  | handler (r : ExceptionRange) (target : UInt32) (saved : Nat)
  | out

/-- The route to the handler of a range. -/
def routeTo (f : Frame) (r : ExceptionRange) : Route :=
  match r.catchTarget, f.catchHeights with
  | some target, saved :: _ => .handler r target saved
  | _, _ => .out

/-- The route to a handler, if there is one. -/
def routeToCatch (f : Frame) (pc : Nat) : Route :=
  if f.catchHeights.isEmpty then .out
  else match innermost? f.unit.ranges pc true with
    | some r => f.routeTo r
    | none => .out

/-- The route of an exception that the instruction at `pc` raised. -/
def route (f : Frame) (pc : Nat) (e : Exception) : Route :=
  match e.code.loopExit?, innermost? f.unit.ranges pc false with
  | some exit, some r =>
    if r.kind = .catch then f.routeTo r
    else match exitTarget r exit with
      | some target => .exit r target
      | none => f.routeToCatch pc
  | _, _ => f.routeToCatch pc

/-- The machine when a handler takes over. -/
def noteCaught (e : Exception) (m : Machine) : Machine :=
  let m := { m with result := e.value }
  if e.code = .error then m.recordError e else m

/-- The handling of an exception along its route. -/
def follow (f : Frame) (pc : Nat) (i : Instruction) (e : Exception) :
    Route → Action (Resume × Frame)
  | .exit _ target => do
    Action.discard i.pops
    return (.at target.toNat, f)
  | .handler _ target saved => do
    Action.reshape (·.truncate saved)
    Action.modify (noteCaught e)
    return (.at target.toNat, { f with lastCode := e.code.number })
  | .out => f.giveUp pc e

variable {f : Frame} {pc saved : Nat} {i : Instruction} {e : Exception} {r : ExceptionRange}
  {target : UInt32}

theorem catchWith_eq : f.catchWith pc r e = f.follow pc i e (f.routeTo r) := by
  cases handler : r.catchTarget with
  | none => simp only [catchWith, routeTo, handler, follow]
  | some target =>
    cases heights : f.catchHeights with
    | nil => simp only [catchWith, routeTo, handler, heights, follow]
    | cons saved rest =>
      simp only [catchWith, routeTo, handler, heights, follow]
      rfl

theorem lookForCatch_eq : f.lookForCatch pc e = f.follow pc i e (f.routeToCatch pc) := by
  by_cases none : f.catchHeights.isEmpty = true
  · simp only [lookForCatch, routeToCatch, if_pos none, follow]
  · cases found : innermost? f.unit.ranges pc true with
    | none => simp only [lookForCatch, routeToCatch, if_neg none, found, follow]
    | some r =>
      simp only [lookForCatch, routeToCatch, if_neg none, found]
      exact catchWith_eq

theorem handle_eq : f.handle pc i e = f.follow pc i e (f.route pc e) := by
  cases asks : e.code.loopExit? with
  | none =>
    simp only [handle, route, asks]
    exact lookForCatch_eq
  | some exit =>
    cases found : innermost? f.unit.ranges pc false with
    | none =>
      simp only [handle, route, asks, found]
      exact lookForCatch_eq
    | some r =>
      by_cases catches : r.kind = .catch
      · simp only [handle, route, asks, found, if_pos catches]
        exact catchWith_eq
      · cases leads : exitTarget r exit with
        | none =>
          simp only [handle, route, asks, found, if_neg catches, leads]
          exact lookForCatch_eq
        | some target => simp only [handle, route, asks, found, if_neg catches, leads, follow]

theorem innermost?_mem {ranges : List ExceptionRange} {catchOnly : Bool}
    (found : innermost? ranges pc catchOnly = some r) :
    r ∈ ranges ∧ r.contains pc = true ∧ (catchOnly = true → r.kind = .catch) := by
  have member := List.mem_filter.mp (List.mem_of_getLast? found)
  have fits : r.contains pc = true ∧ (catchOnly = false ∨ r.kind = .catch) := by
    simpa using member.2
  refine ⟨member.1, fits.1, ?_⟩
  intro only
  rcases fits.2 with not | kind
  · rw [only] at not
    cases not
  · exact kind

theorem routeTo_handler {r' : ExceptionRange} (same : f.routeTo r' = .handler r target saved) :
    r' = r ∧ r.catchTarget = some target ∧ f.catchHeights.head? = some saved := by
  unfold routeTo at same
  split at same
  · rename_i found heights
    cases same
    exact ⟨rfl, found, by rw [heights]; rfl⟩
  · cases same

theorem routeTo_ne_exit {r' : ExceptionRange} : f.routeTo r' ≠ .exit r target := by
  unfold routeTo
  split <;> exact nofun

theorem routeToCatch_ne_exit : f.routeToCatch pc ≠ .exit r target := by
  unfold routeToCatch
  split
  · exact nofun
  · split
    · exact routeTo_ne_exit
    · exact nofun

/-- A loop exit is taken by the innermost range, which is a loop with a target for it. -/
theorem route_exit (same : f.route pc e = .exit r target) :
    innermost? f.unit.ranges pc false = some r ∧ r.kind = .loop ∧
      ∃ exit, e.code.loopExit? = some exit ∧ exitTarget r exit = some target := by
  unfold route at same
  split at same
  · rename_i exit r' asks innermost
    split at same
    · exact absurd same routeTo_ne_exit
    · rename_i loop
      split at same
      · rename_i target' found
        cases same
        refine ⟨innermost, ?_, exit, asks, found⟩
        cases kind : r.kind with
        | loop => rfl
        | «catch» => exact absurd kind loop
      · exact absurd same routeToCatch_ne_exit
  · exact absurd same routeToCatch_ne_exit

/-- A handler is that of a catch range around the instruction, and the height was saved last. -/
theorem route_handler (same : f.route pc e = .handler r target saved) :
    r ∈ f.unit.ranges ∧ r.contains pc = true ∧ r.kind = .catch ∧ r.catchTarget = some target ∧
      f.catchHeights.head? = some saved := by
  have direct (looked : f.routeToCatch pc = .handler r target saved) :
      r ∈ f.unit.ranges ∧ r.contains pc = true ∧ r.kind = .catch ∧
        r.catchTarget = some target ∧ f.catchHeights.head? = some saved := by
    unfold routeToCatch at looked
    split at looked
    · cases looked
    · split at looked
      · rename_i r' found
        obtain ⟨rfl, leads, height⟩ := routeTo_handler looked
        obtain ⟨member, inside, kind⟩ := innermost?_mem found
        exact ⟨member, inside, kind rfl, leads, height⟩
      · cases looked
  unfold route at same
  split at same
  · rename_i exit r' _ found
    split at same
    · rename_i kind
      obtain ⟨rfl, leads, height⟩ := routeTo_handler same
      obtain ⟨member, inside, _⟩ := innermost?_mem found
      exact ⟨member, inside, kind, leads, height⟩
    · split at same
      · cases same
      · exact direct same
  · exact direct same

/-- The exception with which a frame is left. -/
def blame (f : Frame) (pc : Nat) (e : Exception) : Exception :=
  if e.code = .error then
    let command := f.unit.commandAt pc
    let span := command.map fun c => (c.sourceStart.toNat, c.sourceSize.toNat)
    e.attributeTo (some { pc, span }) (command.bind f.unit.snippet)
  else e

theorem abandon_eq (m : Machine) : f.abandon pc e m =
    match m.stack.truncate f.base with
    | .ok s => (.ok (f.blame pc e), { m with stack := s })
    | .error v => (.error (.violation v), m) := by
  unfold abandon blame
  simp only [bind, Action.bind, Action.reshape]
  cases m.stack.truncate f.base with
  | error v => rfl
  | ok s => by_cases error : e.code = .error <;> simp only [error, if_true, if_false] <;> rfl

theorem isMalformed_blame : (f.blame pc e).isMalformed = e.isMalformed := by
  unfold blame
  split
  · exact Exception.isMalformed_attributeTo
  · rfl

theorem result_eq {m : Machine} (one : m.stack.depth = 1) :
    ∃ v rest, m.stack.slots = v :: rest ∧
      result m = (.ok v, { m with stack := { m.stack with slots := rest } }) := by
  have inside : m.stack.floor < m.stack.height := by
    rw [Stack.depth] at one
    omega
  cases shape : m.stack.slots with
  | nil =>
    rw [Stack.height, shape] at inside
    cases inside
  | cons v rest =>
    refine ⟨v, rest, rfl, ?_⟩
    simp only [result, if_pos one, Stack.pop, shape, if_neg (Nat.not_le.mpr inside)]

end Frame

/-! ### Moments and moves -/

/-- A frame that is about to run the instruction at an offset. -/
structure Moment where
  frame : Frame
  pc : Nat
  machine : Machine

/-- How a frame goes on. -/
inductive Move where
  | next
  | exit (r : ExceptionRange) (target : UInt32)
  | handler (r : ExceptionRange) (target : UInt32)

namespace Moment

/-- The frame of a unit when it is entered. -/
def start (u : CompiledUnit) (m : Machine) : Moment :=
  { frame :=
      { unit := u, base := m.stack.height, slots := (Store.resolveAll u.locals m.store).1 }
    pc := 0
    machine :=
      { m with
        store := (Store.resolveAll u.locals m.store).2
        stack := (m.stack.enter u.maxStack.toNat).2 } }

theorem enter_eq (u : CompiledUnit) (m : Machine) :
    Frame.enter u m = (.ok ((m.stack.enter u.maxStack.toNat).1, (start u m).frame),
      (start u m).machine) := rfl

/-- The instruction at this moment raises an exception that does not report broken code. -/
structure Throws (invoke : Invoke) (c : Moment) (i : Instruction) (e : Exception) (m : Machine) :
    Prop where
  decoded : Instruction.decodeAt c.frame.unit.code c.pc = .ok i
  raised : c.frame.perform invoke c.pc i c.machine = (.error (.exception e), m)
  wellFormed : e.isMalformed = false

/-- The frame goes on, and how. -/
inductive Moves (invoke : Invoke) (c : Moment) : Move → Moment → Prop where
  | next {i : Instruction} {pc : Nat} {m : Machine} :
      Instruction.decodeAt c.frame.unit.code c.pc = .ok i →
      c.frame.perform invoke c.pc i c.machine = (.ok (some pc), m) →
      Moves invoke c .next ⟨c.frame.saveHeight i m.stack.height, pc, m⟩
  | exit {i : Instruction} {e : Exception} {m : Machine} {r : ExceptionRange} {target : UInt32}
      {s : Stack} : c.Throws invoke i e m → c.frame.route c.pc e = .exit r target →
      m.stack.discard i.pops = .ok s →
      Moves invoke c (.exit r target) ⟨c.frame, target.toNat, { m with stack := s }⟩
  | handler {i : Instruction} {e : Exception} {m : Machine} {r : ExceptionRange}
      {target : UInt32} {saved : Nat} {s : Stack} : c.Throws invoke i e m →
      c.frame.route c.pc e = .handler r target saved → m.stack.truncate saved = .ok s →
      Moves invoke c (.handler r target) ⟨{ c.frame with lastCode := e.code.number },
        target.toNat, Frame.noteCaught e { m with stack := s }⟩

/-- No range takes an exception: the code is broken, or the route leads out of the frame. -/
inductive GivesUp (invoke : Invoke) (c : Moment) : Exception → Machine → Prop where
  | undecodable {d : DecodeError} : Instruction.decodeAt c.frame.unit.code c.pc = .error d →
      GivesUp invoke c (.ofFault (.malformed d)) c.machine
  | malformed {i : Instruction} {e : Exception} {m : Machine} :
      Instruction.decodeAt c.frame.unit.code c.pc = .ok i →
      c.frame.perform invoke c.pc i c.machine = (.error (.exception e), m) →
      e.isMalformed = true → GivesUp invoke c e m
  | uncaught {i : Instruction} {e : Exception} {m : Machine} : c.Throws invoke i e m →
      c.frame.route c.pc e = .out → GivesUp invoke c e m

/-- The outcomes of a dispatch. -/
inductive Dispatches (invoke : Invoke) (c : Moment) : Except Stop Frame.Turn × Machine → Prop where
  | goes {move : Move} {c' : Moment} : c.Moves invoke move c' →
      Dispatches invoke c (.ok (.go c'.pc c'.frame), c'.machine)
  | finishes {i : Instruction} {m : Machine} {v : Value} {rest : List Value} :
      Instruction.decodeAt c.frame.unit.code c.pc = .ok i →
      c.frame.perform invoke c.pc i c.machine = (.ok none, m) → m.stack.depth = 1 →
      m.stack.slots = v :: rest → Dispatches invoke c
        (.ok (.stop (.ok v)), { m with stack := { m.stack with slots := rest } })
  | leaves {e : Exception} {m : Machine} {s : Stack} : c.GivesUp invoke e m →
      m.stack.truncate c.frame.base = .ok s → Dispatches invoke c
        (.ok (.stop (.error (c.frame.blame c.pc e))), { m with stack := s })
  | stops {i : Instruction} {stop : Stop} {m : Machine} :
      Instruction.decodeAt c.frame.unit.code c.pc = .ok i →
      c.frame.perform invoke c.pc i c.machine = (.error stop, m) →
      (∀ e, stop ≠ .exception e) → Dispatches invoke c (.error stop, m)
  | unbalanced {i : Instruction} {m : Machine} {v : Violation} :
      Instruction.decodeAt c.frame.unit.code c.pc = .ok i →
      c.frame.perform invoke c.pc i c.machine = (.ok none, m) → m.stack.depth ≠ 1 →
      Dispatches invoke c (.error (.violation v), m)
  | misleaves {e : Exception} {m : Machine} {v : Violation} : c.GivesUp invoke e m →
      m.stack.truncate c.frame.base = .error v → Dispatches invoke c (.error (.violation v), m)
  | misexits {i : Instruction} {e : Exception} {m : Machine} {r : ExceptionRange}
      {target : UInt32} {v : Violation} : c.Throws invoke i e m →
      c.frame.route c.pc e = .exit r target → m.stack.discard i.pops = .error v →
      Dispatches invoke c (.error (.violation v), m)
  | miscatches {i : Instruction} {e : Exception} {m : Machine} {r : ExceptionRange}
      {target : UInt32} {saved : Nat} {v : Violation} : c.Throws invoke i e m →
      c.frame.route c.pc e = .handler r target saved → m.stack.truncate saved = .error v →
      Dispatches invoke c (.error (.violation v), m)

variable {invoke : Invoke} {c : Moment}

theorem leaveWith_dispatches {e : Exception} {m : Machine} (gaveUp : c.GivesUp invoke e m) :
    c.Dispatches invoke (c.frame.leaveWith c.pc e m) := by
  simp only [Frame.leaveWith, bind, Action.bind, Frame.abandon_eq]
  cases cut : m.stack.truncate c.frame.base with
  | ok s => exact .leaves gaveUp cut
  | error v => exact .misleaves gaveUp cut

theorem recover_dispatches {i : Instruction} {e : Exception} {m : Machine}
    (decoded : Instruction.decodeAt c.frame.unit.code c.pc = .ok i)
    (raised : c.frame.perform invoke c.pc i c.machine = (.error (.exception e), m)) :
    c.Dispatches invoke (c.frame.recover c.pc i e m) := by
  unfold Frame.recover
  by_cases malformed : e.isMalformed = true
  · rw [if_pos malformed]
    exact leaveWith_dispatches (.malformed decoded raised malformed)
  · rw [if_neg malformed]
    have throws : c.Throws invoke i e m := ⟨decoded, raised, by simpa using malformed⟩
    simp only [Frame.handle_eq]
    cases route : c.frame.route c.pc e with
    | exit r target =>
      simp only [Frame.follow, bind, Action.bind, Action.discard, Action.reshape]
      cases dropped : m.stack.discard i.pops with
      | ok s => exact .goes (.exit throws route dropped)
      | error v => exact .misexits throws route dropped
    | handler r target saved =>
      simp only [Frame.follow, bind, Action.bind, Action.reshape]
      cases cut : m.stack.truncate saved with
      | ok s => exact .goes (.handler throws route cut)
      | error v => exact .miscatches throws route cut
    | out =>
      simp only [Frame.follow, Frame.giveUp, bind, Action.bind, Frame.abandon_eq]
      cases cut : m.stack.truncate c.frame.base with
      | ok s => exact .leaves (.uncaught throws route) cut
      | error v => exact .misleaves (.uncaught throws route) cut

/-- Every dispatch has one of the outcomes. -/
theorem dispatch_dispatches (invoke : Invoke) (c : Moment) :
    c.Dispatches invoke (c.frame.dispatch invoke c.pc c.machine) := by
  unfold Frame.dispatch
  cases decoded : Instruction.decodeAt c.frame.unit.code c.pc with
  | error d => exact leaveWith_dispatches (.undecodable decoded)
  | ok i =>
    simp only [bind, Action.bind, Action.attempt]
    cases performed : c.frame.perform invoke c.pc i c.machine with
    | mk outcome m =>
      cases outcome with
      | ok next =>
        cases next with
        | some pc => exact .goes (.next decoded performed)
        | none =>
          by_cases one : m.stack.depth = 1
          · obtain ⟨v, rest, shape, same⟩ := Frame.result_eq one
            simp only [Action.bind, same]
            exact .finishes decoded performed one shape
          · simp only [Action.bind, Frame.result, if_neg one]
            exact .unbalanced decoded performed one
      | error stop =>
        cases stop with
        | exception e => exact recover_dispatches decoded performed
        | violation v => exact .stops decoded performed fun e => Stop.noConfusion
        | outOfFuel => exact .stops decoded performed fun e => Stop.noConfusion

theorem Throws.dispatch_eq {i : Instruction} {e : Exception} {m : Machine}
    (throws : c.Throws invoke i e m) :
    c.frame.dispatch invoke c.pc c.machine =
      match c.frame.follow c.pc i e (c.frame.route c.pc e) m with
      | (.ok (.at pc, f), m) => (.ok (.go pc f), m)
      | (.ok (.abandon e, _), m) => (.ok (.stop (.error e)), m)
      | (.error stop, m) => (.error stop, m) := by
  simp only [Frame.dispatch, throws.decoded, bind, Action.bind, Action.attempt, throws.raised,
    Frame.recover, throws.wellFormed, Frame.handle_eq, if_false, Bool.false_eq_true]
  generalize c.frame.follow c.pc i e (c.frame.route c.pc e) m = result
  obtain ⟨outcome, m'⟩ := result
  cases outcome with
  | error stop => rfl
  | ok turn =>
    obtain ⟨resume, f⟩ := turn
    cases resume <;> rfl

/-- The moves are the dispatches after which the frame goes on. -/
theorem moves_iff {c' : Moment} : (∃ move, c.Moves invoke move c') ↔
    c.frame.dispatch invoke c.pc c.machine = (.ok (.go c'.pc c'.frame), c'.machine) := by
  constructor
  · rintro ⟨move, moved⟩
    cases moved with
    | next decoded performed =>
      simp only [Frame.dispatch, decoded, bind, Action.bind, Action.attempt, performed]
      rfl
    | exit throws route dropped =>
      simp only [throws.dispatch_eq, route, Frame.follow, bind, Action.bind, Action.discard,
        Action.reshape, dropped]
      rfl
    | handler throws route cut =>
      simp only [throws.dispatch_eq, route, Frame.follow, bind, Action.bind, Action.reshape, cut]
      rfl
  · intro went
    have dispatched := dispatch_dispatches invoke c
    rw [went] at dispatched
    obtain ⟨f, pc, m⟩ := c'
    generalize turn : (Except.ok (Frame.Turn.go pc f), m) = result at dispatched
    cases dispatched with
    | @goes move c'' moved =>
      cases turn
      exact ⟨move, moved⟩
    | _ => cases turn

end Moment

/-! ### Runs -/

/-- The moves of a frame from its entry to a moment. The moments passed are listed with the moves
made from them, the last first. -/
inductive Run (invoke : Invoke) (u : CompiledUnit) (m : Machine) :
    List (Moment × Move) → Moment → Prop where
  | enter : Run invoke u m [] (Moment.start u m)
  | go {past : List (Moment × Move)} {c c' : Moment} {move : Move} : Run invoke u m past c →
      c.Moves invoke move c' → Run invoke u m ((c, move) :: past) c'

/-- The frame runs the unit above a base, with a variable for each local slot. -/
structure Frame.Serves (u : CompiledUnit) (base : Nat) (f : Frame) : Prop where
  unit : f.unit = u
  base : f.base = base
  slots : f.slots.length = u.locals.length

variable {invoke : Invoke} {u : CompiledUnit} {m : Machine} {past : List (Moment × Move)}
  {c c' : Moment} {move : Move} {base : Nat}

theorem Frame.Serves.saveHeight {f : Frame} (serves : f.Serves u base) (i : Instruction)
    (height : Nat) : (f.saveHeight i height).Serves u base := by
  unfold Frame.saveHeight
  split <;> exact ⟨serves.unit, serves.base, serves.slots⟩

theorem Moment.Moves.serves (moved : c.Moves invoke move c') (serves : c.frame.Serves u base) :
    c'.frame.Serves u base := by
  cases moved with
  | next _ _ => exact serves.saveHeight _ _
  | exit _ _ _ => exact serves
  | handler _ _ _ => exact ⟨serves.unit, serves.base, serves.slots⟩

namespace Run

theorem serves (reached : Run invoke u m past c) : c.frame.Serves u m.stack.height := by
  induction reached with
  | enter => exact ⟨rfl, rfl, Store.resolveAll_length⟩
  | go _ moved ih => exact moved.serves ih

/-- The dispatch loop, started at the entry of the frame, comes to every moment of a run. -/
theorem run_eq (reached : Run invoke u m past c) (fuel : Nat) :
    (Moment.start u m).frame.run invoke (past.length + fuel) 0 (Moment.start u m).machine =
      c.frame.run invoke fuel c.pc c.machine := by
  induction reached generalizing fuel with
  | enter => rw [List.length_nil, Nat.zero_add]; rfl
  | @go past c c' move _ moved ih =>
    have went := Moment.moves_iff.mp ⟨move, moved⟩
    have count : ((c, move) :: past).length + fuel = past.length + (fuel + 1) := by
      rw [List.length_cons]
      omega
    rw [count, ih (fuel + 1), Frame.run, went]

/-- The dispatch loop runs out of fuel, or ends with the dispatch at some moment of the run. -/
theorem run_ends (reached : Run invoke u m past c) (fuel : Nat) {outcome : Except Stop Value}
    {m' : Machine} (ended : c.frame.run invoke fuel c.pc c.machine = (outcome, m')) :
    outcome = .error .outOfFuel ∨ ∃ past c, Run invoke u m past c ∧
      ((∃ completion, outcome = completion.mapError .exception ∧
          c.frame.dispatch invoke c.pc c.machine = (.ok (.stop completion), m')) ∨
        ∃ stop, outcome = .error stop ∧
          c.frame.dispatch invoke c.pc c.machine = (.error stop, m')) := by
  induction fuel generalizing c past with
  | zero =>
    cases ended
    exact .inl rfl
  | succ fuel ih =>
    rw [Frame.run] at ended
    cases dispatched : c.frame.dispatch invoke c.pc c.machine with
    | mk result m'' =>
      rw [dispatched] at ended
      cases result with
      | error stop =>
        cases ended
        exact .inr ⟨past, c, reached, .inr ⟨stop, rfl, dispatched⟩⟩
      | ok turn =>
        cases turn with
        | go pc f =>
          have went : ∃ move, c.Moves invoke move ⟨f, pc, m''⟩ := Moment.moves_iff.mpr dispatched
          obtain ⟨move, moved⟩ := went
          exact ih (.go reached moved) ended
        | stop completion =>
          refine .inr ⟨past, c, reached, .inl ⟨completion, ?_, ?_⟩⟩
          · cases completion <;> cases ended <;> rfl
          · cases completion <;> cases ended <;> exact dispatched

end Run

/-! ### Whole frames -/

/-- A completed frame is left: what stands above the base of the mark goes. -/
def Frame.leaving (mark : FrameMark) : Except Stop Value × Machine → Except Stop Value × Machine
  | (.error (.violation v), m) => (.error (.violation v), m)
  | (.error .outOfFuel, m) => (.error .outOfFuel, m)
  | (outcome, m) => match m.stack.leave mark with
    | .ok s => (outcome, { m with stack := s })
    | .error v => (.error (.violation v), m)

theorem Frame.runUnit_eq (invoke : Invoke) (fuel : Nat) (u : CompiledUnit) (m : Machine) :
    runUnit invoke fuel u m = leaving (m.stack.enter u.maxStack.toNat).1
      ((Moment.start u m).frame.run invoke fuel 0 (Moment.start u m).machine) := by
  simp only [runUnit, bind, Action.bind, Moment.enter_eq, Action.attempt]
  generalize (Moment.start u m).frame.run invoke fuel 0 (Moment.start u m).machine = ended
  obtain ⟨outcome, m'⟩ := ended
  cases outcome with
  | ok v =>
    simp only [Action.reshape, leaving]
    cases m'.stack.leave (m.stack.enter u.maxStack.toNat).1 <;> rfl
  | error stop =>
    cases stop with
    | exception e =>
      simp only [Action.reshape, leaving]
      cases m'.stack.leave (m.stack.enter u.maxStack.toNat).1 <;> rfl
    | violation v => rfl
    | outOfFuel => rfl

/-- An exception with which a unit ends is one with which its frame was left. -/
theorem Run.of_raised {fuel : Nat} {e : Exception} {m' : Machine}
    (raised : Frame.runUnit invoke fuel u m = (.error (.exception e), m')) :
    ∃ past c e' m'', Run invoke u m past c ∧ c.GivesUp invoke e' m'' ∧
      e = c.frame.blame c.pc e' := by
  rw [Frame.runUnit_eq] at raised
  cases ended : (Moment.start u m).frame.run invoke fuel 0 (Moment.start u m).machine with
  | mk outcome m₁ =>
    have same : outcome = .error (.exception e) := by
      rw [ended] at raised
      unfold Frame.leaving at raised
      split at raised
      · cases raised
      · cases raised
      · rename_i completed
        cases completed
        split at raised <;> cases raised
        rfl
    rcases run_ends .enter fuel ended with out | ⟨past, c, reached, ⟨completion, is, went⟩ |
      ⟨stop, is, went⟩⟩
    · rw [same] at out
      cases out
    · have dispatched := Moment.dispatch_dispatches invoke c
      rw [went] at dispatched
      cases dispatched with
      | finishes _ _ _ _ =>
        rw [same] at is
        cases is
      | leaves gaveUp _ =>
        rw [same] at is
        cases is
        exact ⟨past, c, _, _, reached, gaveUp, rfl⟩
    · have dispatched := Moment.dispatch_dispatches invoke c
      rw [went] at dispatched
      rw [same] at is
      cases is
      cases dispatched with
      | stops _ _ other => exact absurd rfl (other e)

end CommandVM
