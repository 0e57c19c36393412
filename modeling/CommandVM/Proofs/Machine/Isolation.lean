import CommandVM.Proofs.Machine.Moves

/-!
# Frames keep to themselves

A frame shares the stack with its callers but does not reach below its floor, and it is cut away
when it is left. Whatever a unit or a command does, when it completes its caller finds the stack,
the outer scopes and the registrations as they were.
-/

namespace CommandVM

/-- The second machine is that of a frame which was entered in the first. -/
structure Machine.Hosts (m m' : Machine) : Prop extends Machine.Alike m m' where
  stands : m'.stack.StandsOn m.stack.slots

variable {invoke : Invoke} {u : CompiledUnit} {m m' m'' : Machine} {c c' : Moment} {move : Move}
  {past : List (Moment × Move)} {f : Frame} {pc : Nat} {i : Instruction} {e : Exception} {s : Stack}

namespace Machine.Hosts

theorem keeps (hosts : m.Hosts m') (kept : m'.Keeps m'') : m.Hosts m'' := by
  refine ⟨hosts.toAlike.trans kept.toAlike, ?_⟩
  rw [kept.stack]
  exact hosts.stands

theorem reshape (hosts : m.Hosts m') (stands : s.StandsOn m.stack.slots) :
    m.Hosts { m' with stack := s } :=
  ⟨⟨hosts.callers, hosts.commands, hosts.functions, hosts.handlers, hosts.maxNesting,
    hosts.nesting⟩, stands⟩

theorem start : m.Hosts (Moment.start u m).machine :=
  ⟨⟨Store.resolveAll_callers, rfl, rfl, rfl, rfl, rfl⟩, rfl, [], rfl⟩

theorem noteCaught (hosts : m.Hosts m') : m.Hosts (Frame.noteCaught e m') := by
  unfold Frame.noteCaught
  dsimp only
  split <;> exact ⟨⟨hosts.callers, hosts.commands, hosts.functions, hosts.handlers,
    hosts.maxNesting, hosts.nesting⟩, hosts.stands⟩

end Machine.Hosts

theorem Stack.StandsOn.leave {s' : Stack} {n : Nat} (stands : s'.StandsOn s.slots) :
    s'.leave (s.enter n).1 = .ok s := by
  obtain ⟨_, own, same⟩ := stands
  have height : s'.height = own.length + s.height := by
    rw [Stack.height, same, List.length_append]
    rfl
  have high : ¬ s'.height < s.height := by omega
  have left : s'.slots.drop (s'.height - s.height) = s.slots := by
    rw [height, Nat.add_sub_cancel, same, List.drop_left]
  simp only [Stack.leave, Stack.enter, if_neg high, Stack.cut, left]

/-! ### One frame -/

theorem Frame.perform_raised (keeping : Frame.Keeping invoke)
    (raised : f.perform invoke pc i m = (.error (.exception e), m')) : m.Keeps m' := by
  have outcome := f.perform_performs invoke pc i m
  rw [raised] at outcome
  cases outcome with
  | raises _ kept => exact kept
  | strays _ _ kept => exact kept
  | fails _ ended => exact (keeping _).exception ended

theorem Frame.perform_hosts (keeping : Frame.Keeping invoke) {next : Option Nat}
    (performed : f.perform invoke pc i m' = (.ok next, m'')) (hosts : m.Hosts m') :
    m.Hosts m'' := by
  have outcome := f.perform_performs invoke pc i m'
  rw [performed] at outcome
  cases outcome with
  | done _ kept => exact hosts.keeps kept
  | @goes effect m₁ _ next told _ _ settled =>
    have before := hosts.keeps (Frame.step_keeps keeping told)
    rcases effect.settle_cases m₁ with ⟨s, done, stands⟩ | ⟨v, m₂, failed⟩
    · rw [settled] at done
      cases done
      exact before.reshape (stands _ before.stands)
    · rw [settled] at failed
      cases failed

theorem Moment.Moves.hosts (keeping : Frame.Keeping invoke) (moved : c.Moves invoke move c')
    (hosts : m.Hosts c.machine) : m.Hosts c'.machine := by
  cases moved with
  | next _ performed => exact Frame.perform_hosts keeping performed hosts
  | exit throws _ dropped =>
    have before := hosts.keeps (Frame.perform_raised keeping throws.raised)
    obtain ⟨enough, same⟩ := Stack.discard_ok dropped
    rw [same]
    exact before.reshape (before.stands.drop enough)
  | handler throws _ cut =>
    have before := hosts.keeps (Frame.perform_raised keeping throws.raised)
    exact (before.reshape (before.stands.truncate cut)).noteCaught

theorem Run.hosts (keeping : Frame.Keeping invoke) (reached : Run invoke u m past c) :
    m.Hosts c.machine := by
  induction reached with
  | enter => exact .start
  | go _ moved ih => exact moved.hosts keeping ih

theorem Moment.GivesUp.hosts (keeping : Frame.Keeping invoke) (gaveUp : c.GivesUp invoke e m')
    (hosts : m.Hosts c.machine) : m.Hosts m' := by
  cases gaveUp with
  | undecodable _ => exact hosts
  | malformed _ raised _ => exact hosts.keeps (Frame.perform_raised keeping raised)
  | uncaught throws _ => exact hosts.keeps (Frame.perform_raised keeping throws.raised)

theorem Moment.dispatch_hosts (keeping : Frame.Keeping invoke) {turn : Frame.Turn}
    (dispatched : c.frame.dispatch invoke c.pc c.machine = (.ok turn, m'))
    (hosts : m.Hosts c.machine) : m.Hosts m' := by
  have outcome := dispatch_dispatches invoke c
  rw [dispatched] at outcome
  cases outcome with
  | goes moved => exact moved.hosts keeping hosts
  | @finishes _ m₁ v rest _ performed one shape =>
    have before := Frame.perform_hosts keeping performed hosts
    have stands := before.stands.drop (Nat.le_of_eq one.symm)
    rw [shape] at stands
    exact before.reshape stands
  | leaves gaveUp cut =>
    have before := gaveUp.hosts keeping hosts
    exact before.reshape (before.stands.truncate cut)

/-- The machine is back as it was once the frame is left. -/
theorem Machine.Hosts.left (hosts : m.Hosts m') :
    m.Keeps { m' with stack := m.stack } :=
  ⟨⟨hosts.callers, hosts.commands, hosts.functions, hosts.handlers, hosts.maxNesting,
    hosts.nesting⟩, rfl⟩

theorem Run.ended_hosts (keeping : Frame.Keeping invoke) {fuel : Nat}
    (completion : Except Exception Value)
    (ended : (Moment.start u m).frame.run invoke fuel 0 (Moment.start u m).machine =
      (completion.mapError .exception, m')) : m.Hosts m' := by
  rcases Run.run_ends .enter fuel ended with out | ⟨past, c, reached, ⟨_, _, went⟩ |
    ⟨stop, same, went⟩⟩
  · cases completion <;> cases out
  · exact Moment.dispatch_hosts keeping went (reached.hosts keeping)
  · have outcome := Moment.dispatch_dispatches invoke c
    rw [went] at outcome
    cases completion with
    | ok v => cases same
    | error e =>
      cases same
      cases outcome with
      | stops _ _ other => exact absurd rfl (other e)

theorem Frame.leaving_eq {n : Nat} (completion : Except Exception Value) (hosts : m.Hosts m') :
    Frame.leaving (m.stack.enter n).1 (completion.mapError .exception, m') =
      (completion.mapError .exception, { m' with stack := m.stack }) := by
  cases completion with
  | ok v =>
    show Frame.leaving _ (.ok v, m') = (.ok v, _)
    simp only [Frame.leaving, hosts.stands.leave]
  | error e =>
    show Frame.leaving _ (.error (.exception e), m') = (.error (.exception e), _)
    simp only [Frame.leaving, hosts.stands.leave]

/-- A unit that completes has cut its frame away. -/
theorem Frame.runUnit_keeps (keeping : Frame.Keeping invoke) {fuel : Nat}
    (completion : Except Exception Value)
    (ended : Frame.runUnit invoke fuel u m = (completion.mapError .exception, m')) :
    m.Keeps m' := by
  rw [Frame.runUnit_eq] at ended
  cases ran : (Moment.start u m).frame.run invoke fuel 0 (Moment.start u m).machine with
  | mk outcome m₁ =>
    rw [ran] at ended
    have completed (completion' : Except Exception Value)
        (same : outcome = completion'.mapError .exception) : m.Keeps m' := by
      rw [same] at ran ended
      have hosts := Run.ended_hosts keeping completion' ran
      rw [Frame.leaving_eq completion' hosts] at ended
      rw [← (Prod.mk.inj ended).2]
      exact hosts.left
    cases outcome with
    | ok v => exact completed (.ok v) rfl
    | error stop =>
      cases stop with
      | exception e => exact completed (.error e) rfl
      | violation v => cases completion <;> cases ended
      | outOfFuel => cases completion <;> cases ended

theorem Frame.runUnit_restores (keeping : Frame.Keeping invoke) (fuel : Nat) (u : CompiledUnit) :
    (Frame.runUnit invoke fuel u).Restores where
  ok ended := Frame.runUnit_keeps keeping (.ok _) ended
  exception ended := Frame.runUnit_keeps keeping (.error _) ended

/-! ### Commands -/

namespace Command

open CommandVM.Action

/-- The units that a command may execute. -/
def bodies : Command → List CompiledUnit
  | .proc _ _ body => [body]
  | .execute body => [body]
  | _ => []

/-- All units that the commands may execute are good. -/
def AllBodies (good : CompiledUnit → Prop) (commands : List (String × Command)) : Prop :=
  ∀ pair ∈ commands, ∀ body ∈ pair.2.bodies, good body

variable {safe : List (String × Command) → Prop} {good : CompiledUnit → Prop}

/-- An action in a scope of its own leaves the scopes of its callers alone. -/
theorem inScope_behaves {α : Type} {action : Action α} (h : action.Behaves safe) :
    (inScope action).Behaves safe := by
  intro m
  have before := h { m with store := m.store.pushScope }
  have back {m' : Machine} (kept : Machine.Keeps { m with store := m.store.pushScope } m') :
      m.Keeps { m' with store := m'.store.popScope } := by
    have pushed : m'.store.callers = m.store.current :: m.store.callers := kept.callers
    have callers : m'.store.popScope.callers = m.store.callers := by rw [Store.popScope, pushed]
    exact ⟨⟨callers, kept.commands, kept.functions, kept.handlers, kept.maxNesting,
      kept.nesting⟩, kept.stack⟩
  unfold inScope
  generalize action { m with store := m.store.pushScope } = result at before ⊢
  obtain ⟨outcome, m'⟩ := result
  cases outcome with
  | ok v => exact back before
  | error stop =>
    cases stop with
    | exception e => exact back before
    | violation v => exact before
    | outOfFuel => trivial

theorem accessNamed_behaves {full : String} {access : Access} :
    (Action.accessNamed full access).Behaves safe := by
  have reads : Reads 0 (fun _ => True) (fun _ => True) (Action.accessNamed full access) :=
    .accessNamed fun _ => trivial
  exact reads.behaves

theorem bindParams_behaves {params : List (String × Value)} :
    (bindParams params).Behaves safe := by
  induction params with
  | nil => exact .pure
  | cons param params ih => exact .bind accessNamed_behaves fun _ => ih

theorem write_behaves {text : String} : (write text).Behaves safe :=
  .bind (.modify fun _ => ⟨⟨rfl, rfl, rfl, rfl, rfl, rfl⟩, rfl⟩) fun _ => .pure

theorem runPuts_behaves {args : List Value} : (runPuts args).Behaves safe := by
  unfold runPuts
  split
  · exact write_behaves
  · split
    · exact write_behaves
    · exact .raise
  · exact .raise

theorem completeWith_behaves {code : Option Code} {v : Value} :
    (completeWith code v).Behaves safe := by
  cases code with
  | none => exact .pure
  | some code => exact .raise

theorem completeArgs_behaves {code : Option Code} {args : List Value} :
    (completeArgs code args).Behaves safe := by
  unfold completeArgs
  split
  · exact completeWith_behaves
  · exact completeWith_behaves
  · exact .raise

theorem runReturn_behaves {args : List Value} : (runReturn args).Behaves safe := by
  unfold runReturn
  split
  · split
    · split
      · exact completeArgs_behaves
      · exact .raise
    · exact completeArgs_behaves
  · exact completeArgs_behaves

section Calls

variable {calls : Calls}
  (executes : ∀ unit, (calls.execute unit).Behaves fun commands => good unit ∧ safe commands)
  (invokes : ∀ argv hint, (calls.invoke argv hint).Behaves safe)
include executes

theorem runProc_behaves {name : String} {params : List String} {body : CompiledUnit}
    {args : List Value} :
    (runProc calls name params body args).Behaves fun commands => good body ∧ safe commands := by
  unfold runProc
  split
  · exact .raise
  · refine .bind (.attempt (inScope_behaves ?_)) fun _ => .complete
    exact .bind bindParams_behaves fun _ => executes body

include invokes

/-- A command behaves as its calls do. -/
theorem run_behaves (command : Command) (argv : List Value) :
    (command.run calls argv).Behaves fun commands =>
      (∀ body ∈ command.bodies, good body) ∧ safe commands := by
  have calling (argv : List Value) (hint : Option String) :=
    (invokes argv hint).mono fun (commands : List (String × Command))
      (both : (∀ body ∈ command.bodies, good body) ∧ safe commands) => both.2
  cases command with
  | puts => exact runPuts_behaves
  | list => exact .pure
  | error | breakLoop | continueLoop =>
    unfold run
    dsimp only
    split <;> exact .raise
  | returnValue => exact runReturn_behaves
  | proc name params body =>
    refine (runProc_behaves executes).mono ?_
    intro commands both
    exact ⟨both.1 body List.mem_cons_self, both.2⟩
  | const v => exact .pure
  | raise code v => exact completeWith_behaves
  | join => exact .pure
  | execute body =>
    refine (executes body).mono ?_
    intro commands both
    exact ⟨both.1 body List.mem_cons_self, both.2⟩
  | invoke hint => exact calling _ hint
  | recurse => exact calling argv none
  | get => exact accessNamed_behaves
  | height => exact .bind .read fun _ => .pure
  | mark => exact .bind (.modify fun _ => ⟨⟨rfl, rfl, rfl, rfl, rfl, rfl⟩, rfl⟩) fun _ => .pure

end Calls

theorem runNamed_behaves {calls : Calls}
    (executes : ∀ unit, (calls.execute unit).Behaves fun commands =>
      good unit ∧ AllBodies good commands)
    (invokes : ∀ argv hint, (calls.invoke argv hint).Behaves (AllBodies good))
    (name : String) (argv : List Value) :
    (runNamed calls name argv).Behaves (AllBodies good) := by
  intro m
  cases found : m.commands.lookup name with
  | none =>
    have unknown : runNamed calls name argv m = Action.fault (.unknownCommand name) m := by
      simp only [runNamed, Bind.bind, Action.bind, Action.read, found]
    rw [unknown]
    exact Behaves.raise m
  | some command =>
    have known : runNamed calls name argv m = command.run calls argv m := by
      simp only [runNamed, Bind.bind, Action.bind, Action.read, found]
    rw [known]
    refine (run_behaves executes invokes command argv m).mono ?_
    intro all
    obtain ⟨before, after, same, _⟩ := List.lookup_eq_some_iff.mp found
    have member : (name, command) ∈ m.commands := by
      rw [same]
      exact List.mem_append_right _ List.mem_cons_self
    exact ⟨all _ member, all⟩

theorem finishInvoke_behaves (hint : Option String) (outcome : Except Exception Value) :
    (finishInvoke hint outcome).Behaves safe := by
  have noted (v : Value) : (Action.modify fun m => { m with result := v }).Behaves safe :=
    .modify fun _ => ⟨⟨rfl, rfl, rfl, rfl, rfl, rfl⟩, rfl⟩
  cases outcome with
  | ok v => exact .bind (noted v) fun _ => .pure
  | error e => exact .bind (noted _) fun _ => .raise

end Command

/-! ### Calls -/

/-- Units and commands behave at every level of nesting, if a frame of a good unit stays within the
bounds of the stack as long as its calls do. -/
theorem calls_behave {fuel : Nat} {good : CompiledUnit → Prop}
    (sound : ∀ {invoke u m m' v}, (∀ argv, (invoke argv).Behaves (Command.AllBodies good)) →
      good u → Command.AllBodies good m.commands →
      Frame.runUnit invoke fuel u m ≠ (.error (.violation v), m')) (level : Nat) :
    (∀ unit, (executeTo fuel level unit).Behaves fun commands =>
      good unit ∧ Command.AllBodies good commands) ∧
    ∀ argv hint, (invokeTo fuel level argv hint).Behaves (Command.AllBodies good) := by
  induction level with
  | zero =>
    constructor
    · intro unit
      exact .raise
    · intro argv hint
      cases argv with
      | nil => exact .pure
      | cons name args => exact .raise
  | succ level ih =>
    obtain ⟨executes, invokes⟩ := ih
    constructor
    · intro unit
      have restores := Frame.runUnit_restores (fun argv => (invokes argv none).restores) fuel unit
      refine .nested (.of_restores restores ?_)
      intro m m' v ended both
      exact sound (fun argv => invokes argv none) both.1 both.2 ended
    · intro argv hint
      cases argv with
      | nil => exact .pure
      | cons name args =>
        refine .bind (.nested (.attempt (Command.runNamed_behaves executes invokes _ _))) ?_
        intro outcome
        exact Command.finishInvoke_behaves hint outcome

/-- Whatever units are executed, a call keeps the machine. -/
theorem calls_restore (fuel level : Nat) :
    (∀ unit, (executeTo fuel level unit).Restores) ∧
      ∀ argv hint, (invokeTo fuel level argv hint).Restores := by
  have sound {invoke : Invoke} {u : CompiledUnit} {m m' : Machine} {v : Violation}
      (_ : ∀ argv, (invoke argv).Behaves (Command.AllBodies fun _ => False)) (never : False)
      (_ : Command.AllBodies (fun _ => False) m.commands) :
      Frame.runUnit invoke fuel u m ≠ (.error (.violation v), m') := never.elim
  obtain ⟨executes, invokes⟩ := calls_behave sound level
  exact ⟨fun unit => (executes unit).restores, fun argv hint => (invokes argv hint).restores⟩

theorem invokeTo_keeping (fuel level : Nat) :
    Frame.Keeping fun argv => invokeTo fuel level argv none :=
  fun argv => (calls_restore fuel level).2 argv none

end CommandVM
