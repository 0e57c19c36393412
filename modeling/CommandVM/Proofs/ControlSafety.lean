import CommandVM.Proofs.Machine.Moves
import CommandVM.Proofs.Verifier.Accepted

/-!
# Control stays in the code

A frame of an accepted unit is at an instruction of the code at every dispatch, however it got
there, and never reports broken code: that can only come out of a command that it invokes.
-/

namespace CommandVM

open Verifier (LaidOut Layout)

variable {u : CompiledUnit} {l : Layout} {o base next : Nat} {i : Instruction} {f : Frame}
  {invoke : Invoke} {m m' : Machine} {c c' : Moment} {move : Move} {past : List (Moment × Move)}
  {e : Exception}

namespace Verifier.LaidOut

theorem local_lt (h : LaidOut u l) (here : l.instruction? o = some i)
    (takes : i.opcode.takesLocal = true) : i.index < u.locals.length := by
  have clean := h.operands here
  apply Nat.lt_of_not_le
  intro outside
  obtain ⟨op, operands⟩ := i
  cases op <;> first | cases takes; done | skip
  all_goals
    simp only [operandErrors, Opcode.takesLocal, Bool.true_and, decide_eq_true_eq] at clean
    rw [if_pos outside] at clean
    cases clean

/-- The tables have all entries that the code names. -/
theorem finds (h : LaidOut u l) (here : l.instruction? o = some i) (serves : f.Serves u base) :
    f.Finds i := by
  have clean := h.operands here
  have slot (takes : i.opcode.takesLocal = true) : i.index < f.slots.length := by
    rw [serves.slots]
    exact h.local_lt here takes
  obtain ⟨op, operands⟩ := i
  cases op with
  | push1 | push4 =>
    simp only [operandErrors] at clean
    split at clean
    · cases clean
    · rename_i inside
      rw [← serves.unit] at inside
      exact Nat.lt_of_not_le inside
  | foreachStart4 | foreachStep4 =>
    simp only [operandErrors] at clean
    split at clean
    · cases clean
    · rename_i inside
      have found := List.getElem?_eq_getElem (Nat.lt_of_not_le inside)
      refine ⟨_, (congrArg (·.foreachInfos[_]?) serves.unit).trans found, ?_⟩
      intro slot named
      rw [serves.slots]
      exact h.foreachSlot_lt (List.mem_of_getElem? found) named
  | beginCatch4 =>
    simp only [operandErrors, isCatchRange] at clean
    cases found : u.ranges[(Instruction.mk .beginCatch4 operands).index]? with
    | none => simp [found] at clean
    | some r =>
      rw [← serves.unit] at found
      exact (List.getElem?_eq_some_iff.mp found).1
  | _ => exact slot

theorem follows_lands (h : LaidOut u l) (here : l.instruction? o = some i)
    (follows : Frame.Follows o i next) : l.isBoundary next = true := by
  rcases follows with ⟨goesOn, rfl⟩ | jumps
  · exact h.next_lands here goesOn
  · exact (h.jump_lands here jumps).2

theorem exit_lands (h : LaidOut u l) {r : ExceptionRange} (member : r ∈ u.ranges)
    {exit : LoopExit} {target : UInt32} (leads : Frame.exitTarget r exit = some target) :
    l.isBoundary target.toNat = true := by
  cases exit with
  | breakLoop => exact h.break_lands member leads
  | continueLoop => exact h.continue_lands member leads

end Verifier.LaidOut

/-! ### Every way to go on -/

theorem Moment.Moves.lands (h : LaidOut u l) (serves : c.frame.Serves u base)
    (inside : l.isBoundary c.pc = true) (moved : c.Moves invoke move c') :
    l.isBoundary c'.pc = true := by
  obtain ⟨i, here⟩ := Option.isSome_iff_exists.mp inside
  cases moved with
  | @next i' pc m' decoded performed =>
    rw [serves.unit, Verifier.decodeAt_of_instruction? h.layout here] at decoded
    cases decoded
    exact h.follows_lands here (Frame.perform_follows performed)
  | exit _ route _ =>
    obtain ⟨innermost, _, exit, _, leads⟩ := Frame.route_exit route
    rw [serves.unit] at innermost
    exact h.exit_lands (Frame.innermost?_mem innermost).1 leads
  | handler _ route _ =>
    obtain ⟨member, _, _, leads, _⟩ := Frame.route_handler route
    rw [serves.unit] at member
    exact h.catch_lands member leads

theorem Run.lands (h : LaidOut u l) (reached : Run invoke u m past c) :
    l.isBoundary c.pc = true := by
  induction reached with
  | enter => exact Verifier.isBoundary_zero h.layout
  | go before moved ih => exact moved.lands h before.serves ih

/-! ### Errors over broken code -/

/-- An instruction that lies in the layout reports no broken code itself. -/
theorem Verifier.LaidOut.invoked (h : LaidOut u l) (here : l.instruction? o = some i)
    (serves : f.Serves u base) (raised : f.perform invoke o i m = (.error (.exception e), m'))
    (malformed : e.isMalformed = true) :
    i.opcode.invokes = true ∧ ∃ argv, invoke argv m = (.error (.exception e), m') := by
  have outcome := Frame.perform_performs invoke f o i m
  rw [raised] at outcome
  cases outcome with
  | raises allowed _ =>
    cases allowed with
    | ordinary ordinary =>
      rw [ordinary.1] at malformed
      cases malformed
    | missing absent _ => exact absurd (h.finds here serves) absent
    | breakLoop _ same | continueLoop _ same =>
      rw [same] at malformed
      cases malformed
  | @strays target _ jumps outside _ =>
    obtain ⟨low, lands⟩ := h.jump_lands here jumps
    have inside := Verifier.lt_length_of_isBoundary h.layout lands
    rw [serves.unit] at outside
    omega
  | fails invokes ended => exact ⟨invokes, _, ended⟩

/-- Wherever a frame of an accepted unit goes, by instructions or by exceptions, it is at an
instruction of the code. If the instruction reports broken code there, the report comes out of the
command that it invokes; so does every such report with which the unit ends. -/
theorem accepted_frame_stays_in_code (accepted : Verifier.accepts u = true) (invoke : Invoke)
    (m : Machine) :
    (∀ past c, Run invoke u m past c → c.frame.unit = u ∧
      ∃ instructions i, Instruction.decodeAll u.code = .ok instructions ∧
        (c.pc, i) ∈ instructions ∧ Instruction.decodeAt u.code c.pc = .ok i ∧
        ∀ e m', c.frame.perform invoke c.pc i c.machine = (.error (.exception e), m') →
          e.isMalformed = true →
          i.opcode.invokes = true ∧ ∃ argv, invoke argv c.machine = (.error (.exception e), m')) ∧
    ∀ fuel e m', Frame.runUnit invoke fuel u m = (.error (.exception e), m') →
      e.isMalformed = true → ∃ past c argv e' m'', Run invoke u m past c ∧
        invoke argv c.machine = (.error (.exception e'), m'') ∧ e'.isMalformed = true ∧
        e = c.frame.blame c.pc e' := by
  obtain ⟨l, h⟩ := Verifier.accepted_of_accepts accepted
  constructor
  · intro past c reached
    obtain ⟨i, here⟩ := Verifier.isBoundary_iff.mp (reached.lands h.toLaidOut)
    refine ⟨reached.serves.unit, l.instructions, i, (Verifier.layout_eq h.layout).2.1,
      Verifier.mem_of_lookup here, Verifier.decodeAt_of_instruction? h.layout here, ?_⟩
    intro e m' raised malformed
    exact h.invoked here reached.serves raised malformed
  · intro fuel e m' raised malformed
    obtain ⟨past, c, e', m'', reached, gaveUp, rfl⟩ := Run.of_raised raised
    rw [Frame.isMalformed_blame] at malformed
    obtain ⟨i, here⟩ := Verifier.isBoundary_iff.mp (reached.lands h.toLaidOut)
    have code := Verifier.decodeAt_of_instruction? h.layout here
    rw [← reached.serves.unit] at code
    cases gaveUp with
    | undecodable failed =>
      rw [code] at failed
      cases failed
    | malformed decoded performed _ =>
      rw [code] at decoded
      cases decoded
      obtain ⟨_, argv, ended⟩ := h.invoked here reached.serves performed malformed
      exact ⟨past, c, argv, e', m'', reached, ended, malformed, rfl⟩
    | uncaught throws _ =>
      rw [throws.wellFormed] at malformed
      cases malformed

/-- A loop whose body leaves it at once; then the unit is done with its literal. -/
def leavingLoop : CompiledUnit :=
  { code := [0x46, 0x01, 0x00, 0x00]
    literals := [.text "left"]
    ranges := [⟨.loop, 0, 0, 1, some 1, none, none⟩]
    maxStack := 1 }

theorem leavingLoop_stays_in_code :
    Verifier.accepts leavingLoop = true ∧ ∃ past c,
      Run (fun _ => pure Value.empty) leavingLoop {} past c ∧ c.pc = 1 ∧
      ∃ instructions i, Instruction.decodeAll leavingLoop.code = .ok instructions ∧
        (c.pc, i) ∈ instructions := by
  have left : ∃ move, (Moment.start leavingLoop {}).Moves (fun _ => pure Value.empty) move
      ⟨(Moment.start leavingLoop {}).frame, 1, (Moment.start leavingLoop {}).machine⟩ :=
    Moment.moves_iff.mpr rfl
  obtain ⟨move, moved⟩ := left
  have accepted : Verifier.accepts leavingLoop = true := by decide
  have reached := Run.go (.enter) moved
  obtain ⟨_, instructions, i, decoded, listed, _⟩ :=
    (accepted_frame_stays_in_code accepted _ _).1 _ _ reached
  exact ⟨accepted, _, _, reached, rfl, instructions, i, decoded, listed⟩

end CommandVM
