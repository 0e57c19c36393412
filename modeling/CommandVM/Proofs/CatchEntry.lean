import CommandVM.Proofs.AssignedDepth

/-!
# Entry of catch handlers

A handler cuts the stack to the height that was saved last, and the third pass gives it the depth at
the `BEGIN_CATCH4` of its own range. So the handler is entered at the assigned depth exactly if the
innermost open `BEGIN_CATCH4` had that depth and the frame has not dropped below it since.
-/

namespace CommandVM

open Verifier (Accepted Layout assigned)

variable {u : CompiledUnit} {l : Layout} {invoke : Invoke} {m m' : Machine} {b c c' : Moment}
  {move : Move} {past : List (Moment × Move)} {i : Instruction} {e : Exception}
  {r : ExceptionRange} {target : UInt32} {saved : Nat}

/-! ### Open handlers -/

/-- The moments at which `BEGIN_CATCH4` was performed without an `END_CATCH` since, the last
first. -/
def openCatches : List (Moment × Move) → List Moment
  | [] => []
  | (b, .next) :: past =>
    match Instruction.decodeAt b.frame.unit.code b.pc with
    | .ok i => match i.opcode with
      | .beginCatch4 => b :: openCatches past
      | .endCatch => (openCatches past).drop 1
      | _ => openCatches past
    | .error _ => openCatches past
  | _ :: past => openCatches past

/-- The instruction at the moment opens the handler of the range. -/
def Moment.Opens (u : CompiledUnit) (r : ExceptionRange) (b : Moment) : Prop :=
  ∃ i, Instruction.decodeAt u.code b.pc = .ok i ∧ i.opcode = .beginCatch4 ∧
    u.ranges[i.index]? = some r

theorem mem_of_mem_openCatches (member : b ∈ openCatches past) : ∃ move, (b, move) ∈ past := by
  have earlier {step : Moment × Move} {past : List (Moment × Move)}
      (found : ∃ move, (b, move) ∈ past) : ∃ move, (b, move) ∈ step :: past := by
    obtain ⟨move, found⟩ := found
    exact ⟨move, List.mem_cons_of_mem _ found⟩
  fun_induction openCatches past with
  | case1 => cases member
  | case2 b' past i decoded op ih =>
    rcases List.mem_cons.mp member with rfl | later
    · exact ⟨.next, List.mem_cons_self⟩
    · exact earlier (ih later)
  | case3 b' past i decoded op ih => exact earlier (ih (List.mem_of_mem_drop member))
  | case4 b' past i decoded _ _ ih => exact earlier (ih member)
  | case5 b' past d failed ih => exact earlier (ih member)
  | case6 step past _ ih => exact earlier (ih member)

/-- An instruction saves the height at which it starts, if it opens a handler. -/
theorem Frame.saveHeight_catchHeights (keeping : Frame.Keeping invoke) {pc : Nat}
    (decoded : Instruction.decodeAt c.frame.unit.code c.pc = .ok i)
    (performed : c.frame.perform invoke c.pc i c.machine = (.ok (some pc), m'))
    (same : c.frame.catchHeights = (openCatches past).map (·.machine.stack.height)) :
    (c.frame.saveHeight i m'.stack.height).catchHeights =
      (openCatches ((c, .next) :: past)).map (·.machine.stack.height) := by
  unfold saveHeight
  split
  · rename_i op
    have pops : i.pops = 0 := by rw [Instruction.pops, op]
    have pushes : i.pushes = 0 := by rw [Instruction.pushes, op]
    have height := (perform_swaps keeping performed (by omega)).height
    rw [pops, pushes] at height
    simp only [openCatches, decoded, op, List.map_cons, ← same]
    exact congrArg (· :: c.frame.catchHeights) height
  · rename_i op
    simp only [openCatches, decoded, op, List.map_drop, ← same]
  · simp only [openCatches, decoded, ← same]

/-- The saved heights are those at the open handlers. -/
theorem Run.catchHeights_eq (keeping : Frame.Keeping invoke) (reached : Run invoke u m past c) :
    c.frame.catchHeights = (openCatches past).map (·.machine.stack.height) := by
  induction reached with
  | enter => rfl
  | go _ moved ih =>
    cases moved with
    | next decoded performed => exact Frame.saveHeight_catchHeights keeping decoded performed ih
    | exit _ _ _ | handler _ _ _ => exact ih

/-! ### Entry of a handler -/

/-- The moments passed in a run were reached in it. -/
theorem Run.of_mem (reached : Run invoke u m past c) (member : (b, move) ∈ past) :
    ∃ earlier, Run invoke u m earlier b ∧ (Landed u past c → Landed u earlier b) := by
  induction reached with
  | enter => cases member
  | go before _ ih =>
    rcases List.mem_cons.mp member with same | earlier
    · cases same
      exact ⟨_, before, Landed.tail⟩
    · obtain ⟨earlier, reached, landed⟩ := ih earlier
      exact ⟨earlier, reached, fun all => landed all.tail⟩

theorem Frame.noteCaught_stack : (Frame.noteCaught e m).stack = m.stack := by
  unfold noteCaught
  dsimp only
  split <;> rfl

/-- A handler is entered where the stack can be cut to the saved height. -/
theorem Moment.Throws.handler_iff (throws : c.Throws invoke i e m')
    (route : c.frame.route c.pc e = .handler r target saved) {depth : Nat} :
    (∃ c', c.Moves invoke (.handler r target) c' ∧ c'.machine.stack.depth = depth) ↔
      ∃ s, m'.stack.truncate saved = .ok s ∧ s.depth = depth := by
  constructor
  · rintro ⟨c', moved, rfl⟩
    cases moved with
    | handler throws' route' cut =>
      cases throws.decoded.symm.trans throws'.decoded
      cases throws.raised.symm.trans throws'.raised
      cases route.symm.trans route'
      refine ⟨_, cut, ?_⟩
      rw [Frame.noteCaught_stack]
  · rintro ⟨s, cut, rfl⟩
    refine ⟨_, .handler throws route cut, ?_⟩
    rw [Frame.noteCaught_stack]

theorem Stack.truncate_iff {s : Stack} {depth : Nat} (low : s.floor ≤ saved) :
    (∃ s', s.truncate saved = .ok s' ∧ s'.depth = depth) ↔
      saved ≤ s.height ∧ saved - s.floor = depth := by
  have kept (high : saved ≤ s.height) : (s.cut saved).depth = saved - s.floor :=
    congrArg (· - s.floor) (cut_height high)
  constructor
  · rintro ⟨s', cut, rfl⟩
    obtain ⟨_, high, rfl⟩ := truncate_ok cut
    exact ⟨high, (kept high).symm⟩
  · rintro ⟨high, rfl⟩
    exact ⟨_, truncate_eq low high, kept high⟩

/-- The depth with which a handler is entered is that at the innermost open one. -/
theorem Run.handler_iff (keeping : Frame.Keeping invoke) (reached : Run invoke u m past c)
    {earlier : List (Moment × Move)} (opened : Run invoke u m earlier b)
    (throws : c.Throws invoke i e m')
    (route : c.frame.route c.pc e = .handler r target b.machine.stack.height) {n : Nat} :
    (∃ c', c.Moves invoke (.handler r target) c' ∧ c'.machine.stack.depth = n) ↔
      b.machine.stack.depth ≤ c.machine.stack.depth ∧ b.machine.stack.depth = n := by
  have stands := (opened.hosts keeping).stands
  have grounded := stands.grounded
  have high := (reached.hosts keeping).stands.grounded
  have floor : c.machine.stack.floor = b.machine.stack.floor :=
    (reached.hosts keeping).stands.1.trans stands.1.symm
  rw [throws.handler_iff route, (Frame.perform_raised keeping throws.raised).stack,
    Stack.truncate_iff (by omega)]
  simp only [Stack.depth]
  omega

/-- The third pass gives a handler the depth at the instruction that opens it. -/
theorem Moment.Opens.assigned_target (h : Accepted u l) (opens : b.Opens u r) (level : b.Level u)
    (leads : r.catchTarget = some target) :
    assigned u target.toNat = some b.machine.stack.depth := by
  obtain ⟨i, decoded, op, named⟩ := opens
  obtain ⟨j, here, passes⟩ := h.assigned_passes level
  cases decoded.symm.trans (Verifier.decodeAt_of_instruction? h.layout here)
  exact passes.handler op r target named leads

/-- A handler is entered, and at the depth assigned to it, exactly if the innermost open
`BEGIN_CATCH4` had this depth and the frame is still as deep. It had, if it was the one of the range
and the exceptions before had led to the assigned depths. -/
theorem handler_entered_iff (accepted : Verifier.accepts u = true) (fuel level : Nat)
    (reached : Run (fun argv => invokeTo fuel level argv none) u m past c)
    (throws : c.Throws (fun argv => invokeTo fuel level argv none) i e m')
    (route : c.frame.route c.pc e = .handler r target saved) :
    ∃ b, (openCatches past).head? = some b ∧ saved = b.machine.stack.height ∧
      ((∃ c', c.Moves (fun argv => invokeTo fuel level argv none) (.handler r target) c' ∧
          assigned u target.toNat = some c'.machine.stack.depth) ↔
        b.machine.stack.depth ≤ c.machine.stack.depth ∧
          assigned u target.toNat = some b.machine.stack.depth) ∧
      (Landed u past c → b.Opens u r →
        assigned u target.toNat = some b.machine.stack.depth) := by
  obtain ⟨l, h⟩ := Verifier.accepted_of_accepts accepted
  have keeping := invokeTo_keeping fuel level
  obtain ⟨_, _, _, leads, last⟩ := Frame.route_handler route
  rw [reached.catchHeights_eq keeping, List.head?_map, Option.map_eq_some_iff] at last
  obtain ⟨b, innermost, rfl⟩ := last
  obtain ⟨_, member⟩ := mem_of_mem_openCatches (List.mem_of_head? innermost)
  obtain ⟨earlier, opened, landed⟩ := reached.of_mem member
  have entered {n : Nat} := reached.handler_iff keeping opened throws route (n := n)
  refine ⟨b, innermost, rfl, ⟨?_, ?_⟩, ?_⟩
  · rintro ⟨c', moved, lands⟩
    obtain ⟨deep, same⟩ := entered.mp ⟨c', moved, rfl⟩
    rw [same]
    exact ⟨by omega, lands⟩
  · rintro ⟨deep, lands⟩
    obtain ⟨c', moved, same⟩ := entered.mpr ⟨deep, rfl⟩
    rw [← same] at lands
    exact ⟨c', moved, lands⟩
  · intro all opens
    exact opens.assigned_target h (opened.level_of_landed h keeping (landed all)) leads

/-- An unknown command is caught while a value is held. -/
def heldValue : CompiledUnit :=
  { code := [0x01, 0x00, 0x4a, 0x00, 0x00, 0x00, 0x00, 0x01, 0x01, 0x07, 0x01, 0x03, 0x00, 0x00]
    literals := [.text "held", .text "nosuch"]
    ranges := [⟨.catch, 0, 7, 4, none, none, some 13⟩]
    maxStack := 2 }

theorem heldValue_handler_entered :
    Verifier.accepts heldValue = true ∧ ∃ past c i e m r target saved,
      Run (fun argv => invokeTo 0 1 argv none) heldValue {} past c ∧
      c.Throws (fun argv => invokeTo 0 1 argv none) i e m ∧
      c.frame.route c.pc e = .handler r target saved ∧
      ∃ c', c.Moves (fun argv => invokeTo 0 1 argv none) (.handler r target) c' ∧
        assigned heldValue target.toNat = some c'.machine.stack.depth := by
  have accepted : Verifier.accepts heldValue = true := by decide
  let entry := Moment.start heldValue {}
  let catching : Frame := { entry.frame with catchHeights := [1] }
  let holding (slots : List Value) : Machine :=
    { entry.machine with stack := { entry.machine.stack with slots } }
  have pushed : entry.Moves (fun argv => invokeTo 0 1 argv none) .next
      ⟨entry.frame, 2, holding [.text "held"]⟩ := .next (i := ⟨.push1, [0]⟩) rfl rfl
  have opened : Moment.Moves (fun argv => invokeTo 0 1 argv none)
      ⟨entry.frame, 2, holding [.text "held"]⟩ .next ⟨catching, 7, holding [.text "held"]⟩ :=
    .next (i := ⟨.beginCatch4, [0]⟩) (m := holding [.text "held"]) rfl rfl
  have named : Moment.Moves (fun argv => invokeTo 0 1 argv none)
      ⟨catching, 7, holding [.text "held"]⟩ .next
      ⟨catching, 9, holding [.text "nosuch", .text "held"]⟩ :=
    .next (i := ⟨.push1, [1]⟩) rfl rfl
  have reached := Run.go (.go (.go .enter pushed) opened) named
  let unknown := Exception.ofFault (.unknownCommand "nosuch")
  have throws : Moment.Throws (fun argv => invokeTo 0 1 argv none)
      ⟨catching, 9, holding [.text "nosuch", .text "held"]⟩ ⟨.invokeStk1, [1]⟩ unknown
      { holding [.text "nosuch", .text "held"] with result := unknown.value } :=
    ⟨rfl, rfl, rfl⟩
  refine ⟨accepted, _, _, _, _, _, ⟨.catch, 0, 7, 4, none, none, some 13⟩, 13, 1, reached, throws,
    rfl, ?_⟩
  obtain ⟨b, innermost, _, entered, opens⟩ := handler_entered_iff accepted 0 1 reached throws rfl
  cases innermost
  refine entered.mpr ⟨by decide, opens ?_ ⟨⟨.beginCatch4, [0]⟩, rfl, rfl, rfl⟩⟩
  intro t member jumped
  simp only [transitions, List.mem_cons, List.not_mem_nil, or_false] at member
  rcases member with rfl | rfl | rfl <;> exact absurd rfl jumped

/-- An inner handler is left by a jump and stays open, while the value that it saved is dropped. -/
def leftCatch : CompiledUnit :=
  { code := [0x4a, 0x00, 0x00, 0x00, 0x00, 0x01, 0x00, 0x4a, 0x01, 0x00, 0x00, 0x00, 0x27, 0x02,
      0x03, 0x01, 0x01, 0x07, 0x01, 0x00, 0x00, 0x01, 0x02, 0x00]
    literals := [.text "x", .text "nosuch", .text "ok"]
    ranges := [⟨.catch, 0, 5, 15, none, none, some 21⟩, ⟨.catch, 1, 12, 2, none, none, some 20⟩]
    maxStack := 1 }

theorem leftCatch_handler_too_deep :
    Verifier.accepts leftCatch = true ∧ ∃ past c c',
      Run (fun argv => invokeTo 0 1 argv none) leftCatch {} past c ∧
      c.Moves (fun argv => invokeTo 0 1 argv none)
        (.handler ⟨.catch, 0, 5, 15, none, none, some 21⟩ 21) c' ∧
      assigned leftCatch 21 = some 0 ∧ c'.machine.stack.depth = 1 := by
  let entry := Moment.start leftCatch {}
  let catching (heights : List Nat) : Frame := { entry.frame with catchHeights := heights }
  let holding (slots : List Value) : Machine :=
    { entry.machine with stack := { entry.machine.stack with slots } }
  have outer : entry.Moves (fun argv => invokeTo 0 1 argv none) .next
      ⟨catching [0], 5, holding []⟩ :=
    .next (i := ⟨.beginCatch4, [0]⟩) (m := holding []) rfl rfl
  have pushed : Moment.Moves (fun argv => invokeTo 0 1 argv none) ⟨catching [0], 5, holding []⟩
      .next ⟨catching [0], 7, holding [.text "x"]⟩ := .next (i := ⟨.push1, [0]⟩) rfl rfl
  have inner : Moment.Moves (fun argv => invokeTo 0 1 argv none)
      ⟨catching [0], 7, holding [.text "x"]⟩ .next ⟨catching [1, 0], 12, holding [.text "x"]⟩ :=
    .next (i := ⟨.beginCatch4, [1]⟩) (m := holding [.text "x"]) rfl rfl
  have left : Moment.Moves (fun argv => invokeTo 0 1 argv none)
      ⟨catching [1, 0], 12, holding [.text "x"]⟩ .next
      ⟨catching [1, 0], 14, holding [.text "x"]⟩ := .next (i := ⟨.jump1, [2]⟩) rfl rfl
  have dropped : Moment.Moves (fun argv => invokeTo 0 1 argv none)
      ⟨catching [1, 0], 14, holding [.text "x"]⟩ .next ⟨catching [1, 0], 15, holding []⟩ :=
    .next (i := ⟨.pop, []⟩) rfl rfl
  have named : Moment.Moves (fun argv => invokeTo 0 1 argv none)
      ⟨catching [1, 0], 15, holding []⟩ .next
      ⟨catching [1, 0], 17, holding [.text "nosuch"]⟩ := .next (i := ⟨.push1, [1]⟩) rfl rfl
  have reached := Run.go (.go (.go (.go (.go (.go .enter outer) pushed) inner) left) dropped) named
  let unknown := Exception.ofFault (.unknownCommand "nosuch")
  have throws : Moment.Throws (fun argv => invokeTo 0 1 argv none)
      ⟨catching [1, 0], 17, holding [.text "nosuch"]⟩ ⟨.invokeStk1, [1]⟩ unknown
      { holding [.text "nosuch"] with result := unknown.value } :=
    ⟨rfl, rfl, rfl⟩
  exact ⟨by decide, _, _, _, reached, .handler throws rfl rfl, by decide, rfl⟩

end CommandVM
