import CommandVM.Proofs.Machine.Sites

/-!
# Broken code

No range catches the report that code or a table of a unit is broken. The frame that finds it is
left, and so is every frame around it; the execution ends with the report.
-/

namespace CommandVM

/-- The exception is the error that says how code is broken. -/
structure Exception.Reports (e : Exception) (d : DecodeError) : Prop where
  fault : e.fault = some (.malformed d)
  code : e.code = .error

/-- There is no instruction here, or what it raises says that code is broken. -/
inductive Moment.FindsBroken (invoke : Invoke) (c : Moment) (d : DecodeError) : Prop where
  | fetch : Instruction.decodeAt c.frame.unit.code c.pc = .error d → FindsBroken invoke c d
  | perform {i : Instruction} {e : Exception} {m : Machine} :
      Instruction.decodeAt c.frame.unit.code c.pc = .ok i →
      c.frame.perform invoke c.pc i c.machine = (.error (.exception e), m) →
      e.fault = some (.malformed d) → FindsBroken invoke c d

variable {fuel : Nat} {s t : Site} {e : Exception} {d : DecodeError} {name : String}
  {names : List String} {u : CompiledUnit} {m m' : Machine}

theorem Exception.Reports.blame (reports : e.Reports d) (f : Frame) (pc : Nat) :
    (f.blame pc e).Reports d where
  fault := Frame.fault_blame.trans reports.fault
  code := Frame.code_blame.trans reports.code

namespace Site

/-- What has a fault is an error, also after it came out of procedures. -/
theorem Occurs.code_eq_error (occurs : s.Occurs fuel)
    (gaveUp : s.moment.GivesUp (invoker fuel s.level) e m) {f : Fault}
    (about : e.fault = some f) : e.code = .error := by
  induction depth : s.level using Nat.strongRecOn generalizing s e m with
  | ind n ih =>
    cases source_of_gaveUp occurs.standard gaveUp with
    | new new => exact new.code_eq_error about
    | @called name t e' called inside completed =>
      rcases Command.procCompletion_cases completed with
        ⟨failed, rfl⟩ | ⟨exit, _, rfl⟩ | ⟨n, _, rfl⟩
      · exact failed
      · rfl
      · obtain ⟨raised, m₁, before, rfl⟩ := inside.gaveUp
        rw [Frame.fault_blame] at about
        rw [Frame.code_blame]
        exact ih t.level (depth ▸ called.level_lt) (occurs.called called) before about rfl

theorem Occurs.leaves (occurs : s.Occurs fuel)
    (broken : s.moment.FindsBroken (invoker fuel s.level) d) :
    ∃ e, s.Leaves fuel e ∧ e.Reports d := by
  obtain ⟨level, u, m, within, _⟩ := id occurs
  cases broken with
  | fetch failed =>
    have reports : (Exception.ofFault (.malformed d)).Reports d := ⟨rfl, rfl⟩
    refine ⟨_, within.leaves (.refl _) ?_, reports.blame s.moment.frame s.moment.pc⟩
    rw [Frame.dispatch, failed]
  | @perform i e m' decoded raised about =>
    have malformed : e.isMalformed = true := by rw [Exception.isMalformed, about]
    have reports : e.Reports d :=
      ⟨about, occurs.code_eq_error (.malformed decoded raised malformed) about⟩
    have kept := Frame.perform_raised (invoker_keeping fuel s.level) raised
    refine ⟨_, within.leaves kept ?_, reports.blame s.moment.frame s.moment.pc⟩
    simp only [Frame.dispatch, decoded, bind, Action.bind, Action.attempt, raised, Frame.recover,
      malformed, if_true]

theorem Calls.findsBroken (called : s.Calls fuel name t) (occurs : s.Occurs fuel)
    (broken : t.moment.FindsBroken (invoker fuel t.level) d) :
    s.moment.FindsBroken (invoker fuel s.level) d := by
  obtain ⟨e, left, reports⟩ := (occurs.called called).leaves broken
  obtain ⟨i, m, decoded, raised⟩ := called.raised left reports.code
  exact .perform decoded raised reports.fault

theorem Around.occurs (around : s.Around fuel names t) (occurs : s.Occurs fuel) :
    t.Occurs fuel := by
  induction around with
  | here => exact occurs
  | call called _ ih => exact ih (occurs.called called)

theorem Around.findsBroken (around : s.Around fuel names t) (occurs : s.Occurs fuel)
    (broken : t.moment.FindsBroken (invoker fuel t.level) d) :
    s.moment.FindsBroken (invoker fuel s.level) d := by
  induction around with
  | here => exact broken
  | call called _ ih => exact called.findsBroken occurs (ih (occurs.called called) broken)

end Site

/-- When a frame finds broken code, neither it nor a frame around it goes on: all of them are left
with the report, and so does the execution end. -/
theorem broken_code_never_caught (standard : m.Standard) (within : s.In fuel m.room u m)
    (around : s.Around fuel names t)
    (broken : t.moment.FindsBroken (invoker fuel t.level) d) :
    (∀ between outer inner, s.Around fuel outer between → between.Around fuel inner t →
      (∀ move c', ¬ between.moment.Moves (invoker fuel between.level) move c') ∧
        ∃ e, between.Leaves fuel e ∧ e.Reports d) ∧
      ∃ e m', Machine.execute fuel u m = (.error (.exception e), m') ∧ e.Reports d := by
  have occurs : s.Occurs fuel := ⟨_, _, _, within, standard⟩
  constructor
  · intro between outer inner above below
    have occursBetween := above.occurs occurs
    obtain ⟨e, left, reports⟩ := occursBetween.leaves (below.findsBroken occursBetween broken)
    exact ⟨left.not_moves, e, left, reports⟩
  · obtain ⟨e, left, reports⟩ := occurs.leaves (around.findsBroken occurs broken)
    obtain ⟨m', ended⟩ := within.raised left
    exact ⟨e, m', ended, reports⟩

/-- Opens a catch range, inside which an opcode is unknown. -/
def undecodable : CompiledUnit where
  code := [0x4a, 0, 0, 0, 0, 0xff, 0x4c, 0x00]
  ranges := [⟨.catch, 0, 5, 1, none, none, some 6⟩]
  maxStack := 1

/-- Opens a catch range, inside which a command is invoked. -/
def guarding : CompiledUnit where
  code := [0x4a, 0, 0, 0, 0, 0x01, 0, 0x07, 1, 0x00, 0x4c, 0x00]
  literals := [.text "broken"]
  ranges := [⟨.catch, 0, 5, 5, none, none, some 10⟩]
  maxStack := 1

/-- A machine with a procedure whose body cannot be decoded. -/
def guardingMachine : Machine where
  commands := ("broken", .proc "broken" [] undecodable) :: Machine.standardCommands

theorem guarding_never_caught :
    guardingMachine.Standard ∧ ∃ s t : Site, s.In 9 200 guarding guardingMachine ∧
      s.Around 9 ["broken"] t ∧
      t.moment.FindsBroken (invoker 9 t.level) (.unknownOpcode 5 0xff) ∧
      (∀ move c', ¬ s.moment.Moves (invoker 9 s.level) move c') ∧
      ∃ e m', Machine.execute 9 guarding guardingMachine = (.error (.exception e), m') ∧
        e.Reports (.unknownOpcode 5 0xff) := by
  have standard : guardingMachine.Standard := by decide
  let entry := Moment.start guarding guardingMachine.deeper
  let catching : Frame := { entry.frame with catchHeights := [0] }
  let named : Machine :=
    { entry.machine with stack := { entry.machine.stack with slots := [.text "broken"] } }
  have opened : entry.Moves (invoker 9 199) .next ⟨catching, 5, entry.machine⟩ :=
    .next (i := ⟨.beginCatch4, [0]⟩) (m := entry.machine) rfl rfl
  have pushed : Moment.Moves (invoker 9 199) ⟨catching, 5, entry.machine⟩ .next
      ⟨catching, 7, named⟩ := .next (i := ⟨.push1, [0]⟩) rfl rfl
  have within : Site.In 9 200 guarding guardingMachine ⟨199, catching, 7, named⟩ :=
    ⟨rfl, by decide, _, .go (.go .enter opened) pushed, by decide⟩
  let inner := named.deeper.entered
  have called : Moment.Calls ⟨catching, 7, named⟩ "broken" undecodable inner :=
    .mk (i := ⟨.invokeStk1, [1]⟩) rfl rfl rfl rfl rfl (by decide) rfl
  let start := Moment.start undecodable inner.deeper
  let ready : Frame := { start.frame with catchHeights := [1] }
  have openedInside : start.Moves (invoker 9 197) .next ⟨ready, 5, start.machine⟩ :=
    .next (i := ⟨.beginCatch4, [0]⟩) (m := start.machine) rfl rfl
  have inside : Site.In 9 198 undecodable inner ⟨197, ready, 5, start.machine⟩ :=
    ⟨rfl, by decide, _, .go .enter openedInside, by decide⟩
  have around : Site.Around 9 ⟨199, catching, 7, named⟩ ["broken"] ⟨197, ready, 5, start.machine⟩ :=
    .call (.mk called inside) .here
  have broken : Moment.FindsBroken (invoker 9 197) ⟨ready, 5, start.machine⟩
      (.unknownOpcode 5 0xff) := .fetch rfl
  obtain ⟨left, ended⟩ := broken_code_never_caught standard within around broken
  exact ⟨standard, _, _, within, around, broken, (left _ _ _ .here around).1, ended⟩

end CommandVM
