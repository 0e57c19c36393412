import CommandVM.Proofs.Machine.Step

/-!
# Performing an instruction

An instruction that is performed swaps its operands for its results and goes on to the next
instruction or to the target of its jump. One that raises has left the stack as it was, if the
commands that it invokes do so.
-/

namespace CommandVM

namespace Stack

variable {s s' : Stack} {n takes gives saved : Nat}

/-- The top values are replaced by others. -/
structure Swaps (takes gives : Nat) (s s' : Stack) : Prop where
  floor : s'.floor = s.floor
  limit : s'.limit = s.limit
  slots : ∃ front, front.length = gives ∧ s'.slots = front ++ s.slots.drop takes

theorem Swaps.height (swapped : Swaps takes gives s s') :
    s'.height = s.height - takes + gives := by
  obtain ⟨front, count, same⟩ := swapped.slots
  rw [Stack.height, same, List.length_append, List.length_drop, count, Nat.add_comm]
  rfl

theorem Swaps.depth (swapped : Swaps takes gives s s') (grounded : s.floor ≤ s.height)
    (enough : takes ≤ s.depth) : s'.depth = s.depth - takes + gives := by
  have height := swapped.height
  have floor := swapped.floor
  simp only [Stack.depth] at *
  omega

theorem discard_eq (enough : n ≤ s.depth) :
    s.discard n = .ok { s with slots := s.slots.drop n } := by
  rw [discard, if_neg (by omega)]

theorem discard_ok (h : s.discard n = .ok s') :
    n ≤ s.depth ∧ s' = { s with slots := s.slots.drop n } := by
  unfold discard at h
  split at h
  · cases h
  · cases h
    exact ⟨by omega, rfl⟩

theorem truncate_ok (h : s.truncate saved = .ok s') :
    s.floor ≤ saved ∧ saved ≤ s.height ∧ s' = s.cut saved := by
  unfold truncate at h
  split at h
  · cases h
  · rename_i inside
    cases h
    simp only [Bool.or_eq_true, decide_eq_true_eq, not_or, Nat.not_lt] at inside
    exact ⟨inside.1, inside.2, rfl⟩

theorem truncate_eq (low : s.floor ≤ saved) (high : saved ≤ s.height) :
    s.truncate saved = .ok (s.cut saved) := by
  rw [truncate, if_neg (by simp; omega)]

theorem cut_height (inside : saved ≤ s.height) : (s.cut saved).height = saved := by
  simp only [cut, Stack.height, List.length_drop] at *
  omega

theorem setTop_eq {v w : Value} {slots : List Value} (same : s.slots = v :: slots)
    (some : 0 < s.depth) : s.setTop w = .ok { s with slots := w :: slots } := by
  simp only [setTop, same, if_neg (Nat.ne_of_gt some)]

/-- The values below the floor are those of `bottom`. -/
def StandsOn (bottom : List Value) (s : Stack) : Prop :=
  s.floor = bottom.length ∧ ∃ own, s.slots = own ++ bottom

variable {bottom : List Value}

theorem StandsOn.drop (stands : s.StandsOn bottom) (small : n ≤ s.depth) :
    StandsOn bottom { s with slots := s.slots.drop n } := by
  obtain ⟨floor, own, same⟩ := stands
  refine ⟨floor, own.drop n, ?_⟩
  have inside : n ≤ own.length := by
    simp only [Stack.depth, Stack.height, same, List.length_append] at small
    omega
  rw [same, List.drop_append_of_le_length inside]

theorem StandsOn.push (stands : s.StandsOn bottom) (v : Value) : (s.push v).StandsOn bottom := by
  obtain ⟨floor, own, same⟩ := stands
  exact ⟨floor, v :: own, by rw [Stack.push, same, List.cons_append]⟩

theorem StandsOn.setTop (stands : s.StandsOn bottom) {v : Value} (set : s.setTop v = .ok s') :
    s'.StandsOn bottom := by
  obtain ⟨floor, own, same⟩ := stands
  unfold Stack.setTop at set
  split at set
  · rename_i w slots shape
    split at set
    · cases set
    · rename_i some
      cases set
      cases own with
      | nil =>
        simp only [Stack.depth, Stack.height, same, floor, List.nil_append] at some
        omega
      | cons x own =>
        rw [same, List.cons_append] at shape
        cases shape
        exact ⟨floor, v :: own, rfl⟩
  · cases set

theorem StandsOn.grounded (stands : s.StandsOn bottom) : s.floor ≤ s.height := by
  obtain ⟨floor, own, same⟩ := stands
  rw [floor, Stack.height, same, List.length_append]
  omega

theorem StandsOn.truncate (stands : s.StandsOn bottom) (cut : s.truncate saved = .ok s') :
    s'.StandsOn bottom := by
  obtain ⟨low, high, same⟩ := truncate_ok cut
  rw [same]
  exact stands.drop (by rw [Stack.depth]; omega)

end Stack

namespace Effect

variable {i : Instruction} {e : Effect} {m : Machine}

/-- With enough operands the values that a suitable effect leaves are as many as the instruction
gives. -/
theorem Suits.settles (suits : e.Suits i) (goesOn : i.opcode ≠ .done)
    (enough : i.pops ≤ m.stack.depth) :
    ∃ s, e.settle m = (.ok (), { m with stack := s }) ∧ m.stack.Swaps i.pops i.pushes s := by
  have inside : i.pops ≤ m.stack.slots.length := Nat.le_trans enough (Nat.sub_le _ _)
  -- What a smaller discard leaves of the operands counts among the results.
  have rest {n : Nat} (small : n ≤ i.pops) :
      ∃ front, front.length = i.pops - n ∧
        m.stack.slots.drop n = front ++ m.stack.slots.drop i.pops := by
    refine ⟨(m.stack.slots.drop n).take (i.pops - n), ?_, ?_⟩
    · rw [List.length_take, List.length_drop]
      omega
    · have split := List.take_append_drop (i.pops - n) (m.stack.slots.drop n)
      rw [List.drop_drop, Nat.add_sub_cancel' small] at split
      exact split.symm
  have dropped {n : Nat} (small : n ≤ i.pops) := Stack.discard_eq (Nat.le_trans small enough)
  cases suits with
  | done same => exact absurd same goesOn
  | @discard n _ balance | @jump n _ balance =>
    obtain ⟨front, count, same⟩ := rest (n := n) (by omega)
    refine ⟨{ m.stack with slots := m.stack.slots.drop n }, ?_, rfl, rfl, front, by omega, same⟩
    show Action.reshape (·.discard n) m = _
    rw [Action.reshape, dropped (by omega)]
  | @push n v _ small balance =>
    obtain ⟨front, count, same⟩ := rest small
    refine ⟨{ m.stack with slots := v :: m.stack.slots.drop n }, ?_, rfl, rfl, v :: front, ?_, ?_⟩
    · show (Action.discard n >>= fun _ => Action.push v) m = _
      simp only [bind, Action.bind, Action.discard, Action.reshape, dropped small, Action.push,
        Action.modify, Stack.push]
    · rw [List.length_cons]
      omega
    · rw [List.cons_append, ← same]
  | @replace n x _ positive small balance =>
    obtain ⟨front, count, same⟩ := rest small
    have shape : ∃ v, m.stack.slots.drop (n - 1) = v :: m.stack.slots.drop n := by
      have lower : n - 1 < m.stack.slots.length := by omega
      refine ⟨m.stack.slots[n - 1], ?_⟩
      rw [List.drop_eq_getElem_cons lower, Nat.sub_add_cancel positive]
    obtain ⟨v, shape⟩ := shape
    refine ⟨{ m.stack with slots := .ofNumber x :: m.stack.slots.drop n }, ?_, rfl, rfl,
      .ofNumber x :: front, ?_, ?_⟩
    · show (Action.discard (n - 1) >>= fun _ =>
        Action.reshape fun s => s.setTop (.ofNumber x)) m = _
      have left : 0 < Stack.depth { m.stack with slots := m.stack.slots.drop (n - 1) } := by
        simp only [Stack.depth, Stack.height, List.length_drop] at *
        omega
      simp only [bind, Action.bind, Action.discard, Action.reshape,
        dropped (Nat.le_trans (Nat.sub_le n 1) small), Stack.setTop_eq shape left]
    · rw [List.length_cons]
      omega
    · rw [List.cons_append, ← same]

/-- An effect settles, or violates the bounds of the stack. -/
theorem settle_cases (e : Effect) (m : Machine) :
    (∃ s, e.settle m = (.ok (), { m with stack := s }) ∧
      ∀ bottom, m.stack.StandsOn bottom → s.StandsOn bottom) ∨
    ∃ v m', e.settle m = (.error (.violation v), m') := by
  have dropped (n : Nat) : (∃ s, Action.discard n m = (.ok (), { m with stack := s }) ∧
      ∀ bottom, m.stack.StandsOn bottom → s.StandsOn bottom) ∨
      ∃ v, Action.discard n m = (.error (.violation v), m) := by
    unfold Action.discard Action.reshape
    split
    · rename_i s done
      obtain ⟨small, same⟩ := Stack.discard_ok done
      exact .inl ⟨s, rfl, fun bottom stands => same ▸ stands.drop small⟩
    · exact .inr ⟨_, rfl⟩
  obtain ⟨next, cleanup, emit⟩ := e
  cases emit with
  | nothing =>
    rcases dropped cleanup with done | ⟨v, failed⟩
    · exact .inl done
    · exact .inr ⟨v, m, failed⟩
  | push v =>
    simp only [settle, bind, Action.bind]
    rcases dropped cleanup with ⟨s, done, stands⟩ | ⟨w, failed⟩
    · rw [done]
      exact .inl ⟨s.push v, rfl, fun bottom before => (stands bottom before).push v⟩
    · rw [failed]
      exact .inr ⟨w, m, rfl⟩
  | replace n =>
    simp only [settle, bind, Action.bind]
    rcases dropped (cleanup - 1) with ⟨s, done, stands⟩ | ⟨w, failed⟩
    · rw [done]
      simp only [Action.reshape]
      split
      · rename_i s' set
        exact .inl ⟨s', rfl, fun bottom before => (stands bottom before).setTop set⟩
      · exact .inr ⟨_, _, rfl⟩
    · rw [failed]
      exact .inr ⟨w, m, rfl⟩

end Effect

namespace Frame

variable {invoke : Invoke} {f : Frame} {pc : Nat} {i : Instruction} {m m' : Machine}
  {e : Exception} {effect : Effect}

/-! ### What a step leads to -/

/-- The outcomes of a step: an effect or an exception of the instruction itself, a violation over
missing operands, or what becomes of the command that it invokes. -/
inductive Steps (invoke : Invoke) (f : Frame) (i : Instruction) (m : Machine) :
    Except Stop Effect × Machine → Prop where
  | tells {effect : Effect} {m' : Machine} : effect.Suits i → m.Keeps m' →
      Steps invoke f i m (.ok effect, m')
  | raises {e : Exception} {m' : Machine} : f.Raises i e → m.Keeps m' →
      Steps invoke f i m (.error (.exception e), m')
  | lacks {v : Violation} {m' : Machine} : m.stack.depth < i.pops →
      Steps invoke f i m (.error (.violation v), m')
  | returns {argv : List Value} {v : Value} {m' : Machine} : i.opcode.invokes = true →
      invoke argv m = (.ok v, m') → Steps invoke f i m (.ok (.push i.pops v), m')
  | fails {argv : List Value} {stop : Stop} {m' : Machine} : i.opcode.invokes = true →
      invoke argv m = (.error stop, m') → Steps invoke f i m (.error stop, m')

theorem step_invoke (invokes : i.opcode.invokes = true) :
    f.step invoke pc i = (do
      let argv ← Action.top i.pops
      return .push i.pops (← invoke argv)) := by
  obtain ⟨op, operands⟩ := i
  cases op <;> first | rfl | cases invokes

theorem step_steps (invoke : Invoke) (f : Frame) (pc : Nat) (i : Instruction) (m : Machine) :
    Steps invoke f i m (f.step invoke pc i m) := by
  cases invokes : i.opcode.invokes with
  | false =>
    have reads : Action.Reads i.pops (f.Raises i) (Effect.Suits i) (f.step invoke pc i) :=
      step_reads invokes
    obtain ⟨keeps, ends⟩ := reads m
    generalize f.step invoke pc i m = result at keeps ends ⊢
    obtain ⟨outcome, m'⟩ := result
    cases outcome with
    | ok effect => exact .tells ends keeps
    | error stop =>
      cases stop with
      | exception e => exact .raises ends keeps
      | violation v => exact .lacks ends
      | outOfFuel => cases ends
  | true =>
    rw [step_invoke invokes]
    by_cases few : m.stack.depth < i.pops
    · simp only [bind, Action.bind, Action.top, Action.inspect, Stack.top, if_pos few]
      exact .lacks few
    · simp only [bind, Action.bind, Action.top, Action.inspect, Stack.top, if_neg few]
      cases ended : invoke (m.stack.slots.take i.pops).reverse m with
      | mk outcome m' =>
        cases outcome with
        | ok v => exact .returns invokes ended
        | error stop => exact .fails invokes ended

theorem step_suits (told : f.step invoke pc i m = (.ok effect, m')) : effect.Suits i := by
  have steps := step_steps invoke f pc i m
  rw [told] at steps
  cases steps with
  | tells suits _ => exact suits
  | returns invokes _ =>
    obtain ⟨op, operands⟩ := i
    cases op <;> first | exact .push rfl (Nat.le_refl _) rfl | cases invokes

/-- However a command completes, it leaves the machine as it found it, but for what code may change
for good. -/
def Keeping (invoke : Invoke) : Prop := ∀ argv, (invoke argv).Restores

theorem step_keeps (keeping : Keeping invoke) (told : f.step invoke pc i m = (.ok effect, m')) :
    m.Keeps m' := by
  have steps := step_steps invoke f pc i m
  rw [told] at steps
  cases steps with
  | tells _ keeps => exact keeps
  | returns _ ended => exact (keeping _).ok ended

/-! ### What an instruction leads to -/

/-- The offsets to which an instruction may send control. -/
def Follows (pc : Nat) (i : Instruction) (next : Nat) : Prop :=
  (i.opcode.isTerminal = false ∧ next = pc + i.size) ∨ i.jumpTarget? pc = some (next : Int)

theorem Follows.ne_done {next : Nat} (follows : Follows pc i next) : i.opcode ≠ .done := by
  intro done
  rcases follows with ⟨goesOn, _⟩ | jumps
  · rw [done] at goesOn
    cases goesOn
  · rw [Instruction.jumpTarget?, done] at jumps
    cases jumps

theorem target_advance (suits : effect.Suits i) {next : Nat}
    (led : f.target pc i effect.next m = (.ok (some next), m')) : Follows pc i next ∧ m' = m := by
  cases suits with
  | done _ => cases led
  | discard goesOn _ | push goesOn _ _ | replace goesOn _ _ _ =>
    cases led
    exact ⟨.inl ⟨goesOn, rfl⟩, rfl⟩
  | jump jumps _ =>
    simp only [target, Effect.jump] at led
    split at led
    · cases led
    · rename_i inside
      cases led
      refine ⟨.inr ?_, rfl⟩
      simp only [Bool.or_eq_true, decide_eq_true_eq, not_or, Int.not_lt] at inside
      rw [Instruction.jumpTarget?, if_pos jumps, Int.toNat_of_nonneg inside.1]

theorem target_done (suits : effect.Suits i)
    (led : f.target pc i effect.next m = (.ok none, m')) : i.opcode = .done ∧ m' = m := by
  cases suits with
  | done same =>
    cases led
    exact ⟨same, rfl⟩
  | discard _ _ | push _ _ _ | replace _ _ _ _ => cases led
  | jump _ _ =>
    simp only [target, Effect.jump] at led
    split at led <;> cases led

/-- Only a jump out of the code fails to lead somewhere. -/
theorem target_failed (suits : effect.Suits i) {stop : Stop}
    (failed : f.target pc i effect.next m = (.error stop, m')) :
    m' = m ∧ ∃ target, i.jumpTarget? pc = some target ∧
      (target < 0 ∨ f.unit.code.length ≤ target.toNat) ∧
      stop = .exception (.ofFault (.malformed (.jumpOutOfBounds pc target))) := by
  cases suits with
  | done _ | discard _ _ | push _ _ _ | replace _ _ _ _ => cases failed
  | jump jumps _ =>
    simp only [target, Effect.jump] at failed
    split at failed
    · rename_i outside
      cases failed
      refine ⟨rfl, _, ?_, ?_, rfl⟩
      · rw [Instruction.jumpTarget?, if_pos jumps]
      · simpa using outside
    · cases failed

/-- An instruction that goes on to the next one. -/
theorem perform_of_step {m'' : Machine} (stepped : f.step invoke pc i m = (.ok effect, m'))
    (advances : effect.next = .advance) (settled : effect.settle m' = (.ok (), m'')) :
    f.perform invoke pc i m = (.ok (some (pc + i.size)), m'') := by
  have goes : f.target pc i effect.next m' = (.ok (some (pc + i.size)), m') := by
    rw [advances]
    rfl
  rw [perform, Action.bind_of_ok stepped, Action.bind_of_ok goes,
    if_pos Option.isSome_some, Action.bind_of_ok settled]
  rfl

/-- The outcomes of an instruction. -/
inductive Performs (invoke : Invoke) (f : Frame) (pc : Nat) (i : Instruction) (m : Machine) :
    Except Stop (Option Nat) × Machine → Prop where
  | done {m' : Machine} : i.opcode = .done → m.Keeps m' →
      Performs invoke f pc i m (.ok none, m')
  | goes {effect : Effect} {m' m'' : Machine} {next : Nat} :
      f.step invoke pc i m = (.ok effect, m') → effect.Suits i → Follows pc i next →
      effect.settle m' = (.ok (), m'') → Performs invoke f pc i m (.ok (some next), m'')
  | overdraws {effect : Effect} {m' m'' : Machine} {v : Violation} :
      f.step invoke pc i m = (.ok effect, m') → effect.Suits i → i.opcode ≠ .done →
      effect.settle m' = (.error (.violation v), m'') →
      Performs invoke f pc i m (.error (.violation v), m'')
  | raises {e : Exception} {m' : Machine} : f.Raises i e → m.Keeps m' →
      Performs invoke f pc i m (.error (.exception e), m')
  | strays {target : Int} {m' : Machine} : i.jumpTarget? pc = some target →
      (target < 0 ∨ f.unit.code.length ≤ target.toNat) → m.Keeps m' →
      Performs invoke f pc i m
        (.error (.exception (.ofFault (.malformed (.jumpOutOfBounds pc target)))), m')
  | lacks {v : Violation} {m' : Machine} : m.stack.depth < i.pops →
      Performs invoke f pc i m (.error (.violation v), m')
  | fails {argv : List Value} {stop : Stop} {m' : Machine} : i.opcode.invokes = true →
      invoke argv m = (.error stop, m') → Performs invoke f pc i m (.error stop, m')

theorem perform_performs (invoke : Invoke) (f : Frame) (pc : Nat) (i : Instruction)
    (m : Machine) : Performs invoke f pc i m (f.perform invoke pc i m) := by
  have steps := step_steps invoke f pc i m
  simp only [perform, bind, Action.bind]
  cases stepped : f.step invoke pc i m with
  | mk outcome m' =>
    rw [stepped] at steps
    cases outcome with
    | error stop =>
      cases steps with
      | raises allowed keeps => exact .raises allowed keeps
      | lacks few => exact .lacks few
      | fails invokes ended => exact .fails invokes ended
    | ok effect =>
      have suits := step_suits stepped
      dsimp only
      cases led : f.target pc i effect.next m' with
      | mk outcome m'' =>
        cases outcome with
        | error stop =>
          obtain ⟨rfl, target, jumps, outside, rfl⟩ := target_failed suits led
          cases steps with
          | tells _ keeps => exact .strays jumps outside keeps
          | returns _ _ => cases led
        | ok next =>
          cases next with
          | none =>
            obtain ⟨done, rfl⟩ := target_done suits led
            cases steps with
            | tells _ keeps => exact .done done keeps
            | returns _ _ => cases led
          | some next =>
            obtain ⟨follows, rfl⟩ := target_advance suits led
            rcases effect.settle_cases m'' with ⟨s, settled, _⟩ | ⟨v, m₃, failed⟩
            · simp only [Option.isSome_some, if_true, Action.bind, settled]
              exact .goes stepped suits follows settled
            · simp only [Option.isSome_some, if_true, Action.bind, failed]
              exact .overdraws stepped suits follows.ne_done failed

theorem perform_follows {next : Nat}
    (performed : f.perform invoke pc i m = (.ok (some next), m')) : Follows pc i next := by
  have outcome := f.perform_performs invoke pc i m
  rw [performed] at outcome
  cases outcome with
  | goes _ _ follows _ => exact follows

/-- An instruction that goes on has swapped its operands for its results. -/
theorem perform_swaps (keeping : Keeping invoke) {next : Nat}
    (performed : f.perform invoke pc i m = (.ok (some next), m'))
    (enough : i.pops ≤ m.stack.depth) : m.stack.Swaps i.pops i.pushes m'.stack := by
  have outcome := f.perform_performs invoke pc i m
  rw [performed] at outcome
  cases outcome with
  | @goes effect m₁ _ _ told suits follows settled =>
    have kept := step_keeps keeping told
    rw [← kept.stack] at enough ⊢
    obtain ⟨s, done, swapped⟩ := suits.settles follows.ne_done enough
    rw [settled] at done
    cases done
    exact swapped

end Frame

end CommandVM
