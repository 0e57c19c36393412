import CommandVM.Builder.Edit
import CommandVM.Proofs.Builder.Depths
import CommandVM.Proofs.BuiltUnit

/-!
# Refused operations leave no trace

An operation that may refuse what it is given makes all its checks before its first change. So the
operations that were refused can be deleted from a history: all other answers and the finished unit
stay the same.
-/

namespace CommandVM.Builder

variable {α : Type} {b b' : Builder} {op : Op} {ops : List Op} {opcode : Opcode}
  {operands : List Int} {label : Nat} {e : BuildError}

/-! ### Edits and operations -/

namespace Edit

variable {β : Type}

theorem run_bind (x : Edit α) (f : α → Edit β) (b : Builder) :
    (x >>= f).run.run b = match (x.run.run b).1 with
      | .ok a => (f a).run.run (x.run.run b).2
      | .error e => (.error e, (x.run.run b).2) := by
  have unfolded : (x >>= f).run.run b =
      (ExceptT.bindCont f (x.run.run b).1).run (x.run.run b).2 := rfl
  rw [unfolded]
  cases (x.run.run b).1 <;> rfl

theorem run_pure (a : α) (b : Builder) : (pure a : Edit α).run.run b = (.ok a, b) := rfl

theorem run_get (b : Builder) : (get : Edit Builder).run.run b = (.ok b, b) := rfl

theorem run_modify (f : Builder → Builder) (b : Builder) :
    (modify f : Edit PUnit).run.run b = (.ok ⟨⟩, f b) := rfl

theorem run_tell (change : Builder → Nat × Builder) (b : Builder) :
    (tell change).run.run b = (.ok (change b).1, (change b).2) := rfl

theorem run_map (f : α → β) (x : Edit α) (b : Builder) :
    (f <$> x).run.run b = ((x.run.run b).1.map f, (x.run.run b).2) := by
  rw [map_eq_pure_bind, run_bind]
  cases (x.run.run b).1 <;> rfl

/-- The result of an operation, and the builder that is left when a failed one changes nothing. -/
def settled (b : Builder) : Except BuildError (α × Builder) → Except BuildError α × Builder
  | .ok (a, after) => (.ok a, after)
  | .error e => (.error e, b)

theorem run_checkOperands (offset : Nat) (pairs : List (OperandKind × Int)) :
    (checkOperands offset opcode pairs).run.run b =
      match pairs.find? fun pair => !pair.1.fits pair.2 with
      | some pair => (.error (.operandOutOfRange offset opcode pair.2), b)
      | none => (.ok (), b) := by
  induction pairs with
  | nil => rfl
  | cons pair pairs ih =>
    obtain ⟨kind, value⟩ := pair
    rw [checkOperands, List.find?_cons]
    cases kind.fits value with
    | true => exact ih
    | false => rfl

theorem run_emit : (emit opcode operands).run.run b = settled b (b.emit opcode operands) := by
  unfold emit Builder.emit
  dsimp only
  by_cases count : operands.length ≠ opcode.operands.length
  · rw [if_pos count, if_pos count]
    rfl
  · rw [if_neg count, if_neg count]
    simp only [run_bind, run_pure, run_get, run_modify, run_checkOperands]
    cases (opcode.operands.zip operands).find? fun pair => !pair.1.fits pair.2 <;> rfl

theorem run_jump : (jump opcode label).run.run b = settled b (b.jump opcode label) := by
  unfold jump Builder.jump
  by_cases jumps : opcode.isJump = true
  · rw [if_neg (by simp [jumps]), if_neg (by simp [jumps])]
    simp only [run_bind, run_pure, run_modify, run_emit]
    rcases b.emit opcode [0] with e | ⟨offset, b'⟩ <;> rfl
  · rw [if_pos (by simpa using jumps), if_pos (by simpa using jumps)]
    rfl

theorem run_bindLabel :
    (bind label).run.run b = settled b ((b.bind label).map fun after => ((), after)) := by
  unfold bind Builder.bind
  simp only [run_bind, run_get]
  by_cases bound : (b.labelOffset? label).isSome = true
  · rw [if_pos bound, if_pos bound]
    rfl
  · rw [if_neg bound, if_neg bound]
    have kept : (b.place label).labels[label]?.bind Label.depth =
        b.labels[label]?.bind Label.depth := labelDepth?_place b label label
    simp only [run_bind, run_get, run_modify, kept]
    cases b.labels[label]?.bind Label.depth <;> rfl

theorem run_close {region : Nat} (stop : Option Nat) :
    (close region stop).run.run b =
      settled b ((b.close region stop).map fun after => ((), after)) := by
  cases stop with
  | none => rfl
  | some stop =>
    unfold close Builder.close
    simp only [run_bind, run_get]
    by_cases bound : (b.labelOffset? stop).isSome = true
    · rw [if_pos bound, if_pos bound]
      rfl
    · rw [if_neg bound, if_neg bound]
      rfl

end Edit

open Edit (settled)

theorem literal_index_lt (b : Builder) (text : String) : (b.literal text).1 < UInt32.size := by
  unfold literal
  split
  · exact Nat.mod_lt _ (by decide)
  · exact Nat.mod_lt _ (by decide)

theorem pushOf_fits {index : Nat} (small : index < UInt32.size) : (pushOf index).Fits := by
  unfold pushOf
  split
  · refine ⟨rfl, ?_⟩
    intro pair member
    obtain rfl := List.mem_singleton.mp member
    simp only [OperandKind.fits, Bool.and_eq_true, decide_eq_true_eq]
    omega
  · refine ⟨rfl, ?_⟩
    intro pair member
    obtain rfl := List.mem_singleton.mp member
    have bound : index < 0x100000000 := small
    simp only [OperandKind.fits, Bool.and_eq_true, decide_eq_true_eq]
    omega

/-- A push interns its literal before it checks the index, but that check does not fail, since the
index has 32 bits. -/
theorem run_push {text : String} : (Edit.push text).run.run b = settled b (b.push text) := by
  have emitted := Listing.emit_of_fits (pushOf_fits (literal_index_lt b text)) (b.literal text).2
  have pushed : (Edit.push text).run.run b =
      settled (b.literal text).2 (b.push text) := by
    rw [push_eq, ← Edit.run_emit, Edit.push, Edit.run_bind, Edit.run_tell]
    unfold pushOf
    dsimp only
    split <;> rfl
  rw [pushed, push_eq, emitted]
  rfl

theorem telling_eq (b : Builder) (made : Except BuildError (Nat × Builder)) :
    b.telling made = ((settled b made).1.map some, (settled b made).2) := by
  cases made <;> rfl

theorem silent_eq (b : Builder) (made : Except BuildError Builder) :
    b.silent made = ((settled b (made.map fun after => ((), after))).1.map fun _ => none,
      (settled b (made.map fun after => ((), after))).2) := by
  cases made <;> rfl

theorem attempt_silent {x : Edit Unit} {made : Except BuildError Builder}
    (ran : x.run.run b = settled b (made.map fun after => ((), after))) :
    (x >>= fun _ => pure (none : Option Nat)).run.run b = b.silent made := by
  rw [Edit.run_bind, ran, silent_eq]
  cases made <;> rfl

/-- Performed change by change, an operation does what it does as a whole. -/
theorem attempt_eq_apply (b : Builder) (op : Op) : b.attempt op = b.apply op := by
  cases op with
  | emit opcode operands =>
    rw [apply, telling_eq, ← Edit.run_emit, ← Edit.run_map]
    rfl
  | jump opcode label =>
    rw [apply, telling_eq, ← Edit.run_jump, ← Edit.run_map]
    rfl
  | push text =>
    rw [apply, telling_eq, ← run_push, ← Edit.run_map]
    rfl
  | bind label => exact attempt_silent Edit.run_bindLabel
  | endRange range => exact attempt_silent (Edit.run_close _)
  | endCommand command => exact attempt_silent (Edit.run_close _)
  | _ => rfl

/-! ### Histories without the refused operations -/

theorem telling_failed {made : Except BuildError (Nat × Builder)}
    (failed : (b.telling made).1 = .error e) : (b.telling made).2 = b := by
  cases made with
  | error => rfl
  | ok => cases failed

theorem silent_failed {made : Except BuildError Builder}
    (failed : (b.silent made).1 = .error e) : (b.silent made).2 = b := by
  cases made with
  | error => rfl
  | ok => cases failed

/-- An operation that is refused leaves the builder as it is. -/
theorem attempt_refused (may : op.mayRefuse = true) (failed : (b.attempt op).1 = .error e) :
    (b.attempt op).2 = b := by
  rw [attempt_eq_apply] at failed ⊢
  cases op with
  | emit | jump => exact telling_failed failed
  | bind | endRange | endCommand => exact silent_failed failed
  | _ => cases may

theorem attempt_of_refused (gone : refused (op, (b.attempt op).1) = true) :
    (b.attempt op).2 = b := by
  simp only [refused, Bool.and_eq_true, Bool.not_eq_true'] at gone
  cases failed : (b.attempt op).1 with
  | error e => exact attempt_refused gone.1 failed
  | ok answer =>
    rw [failed] at gone
    cases gone.2

/-- The operations that were not refused. -/
def unrefused (b : Builder) (ops : List Op) : List Op :=
  ((b.transcript ops).1.filter fun entry => !refused entry).map Prod.fst

theorem transcript_cons (b : Builder) (op : Op) (ops : List Op) :
    b.transcript (op :: ops) = ((op, (b.attempt op).1) :: ((b.attempt op).2.transcript ops).1,
      ((b.attempt op).2.transcript ops).2) := rfl

theorem transcript_unrefused (b : Builder) (ops : List Op) :
    b.transcript (b.unrefused ops) =
      ((b.transcript ops).1.filter fun entry => !refused entry, (b.transcript ops).2) := by
  induction ops generalizing b with
  | nil => rfl
  | cons op ops ih =>
    rw [unrefused, transcript_cons]
    by_cases gone : refused (op, (b.attempt op).1) = true
    · rw [List.filter_cons_of_neg (by simp [gone]), attempt_of_refused gone]
      exact ih b
    · rw [List.filter_cons_of_pos (by simp [gone]), List.map_cons, transcript_cons]
      have rest := ih (b.attempt op).2
      rw [unrefused] at rest
      rw [rest]

/-- When the operations that were refused are deleted, every other operation gives the answer that it
gave before, and the builder finishes as before. This is so although a failed operation keeps the
changes that it has made; change by change, an operation does what it does as a whole. -/
theorem refused_operations_leave_no_trace (b : Builder) (ops : List Op) :
    (b.transcript (b.unrefused ops)).1 =
        (b.transcript ops).1.filter (fun entry => !refused entry) ∧
      (b.transcript (b.unrefused ops)).2.finish = (b.transcript ops).2.finish ∧
      ∀ op, b.attempt op = b.apply op := by
  rw [transcript_unrefused]
  exact ⟨rfl, rfl, attempt_eq_apply b⟩

/-- An operand that does not fit and a label that is bound twice are refused. -/
theorem windingOps_leave_no_trace :
    windingOps.length = 20 ∧ (unrefused {} windingOps).length = 18 ∧
      (transcript {} (unrefused {} windingOps)).2.finish.toOption.map CompiledUnit.code =
        some windingUnit.code ∧
      attempt {} (.push "x") = apply {} (.push "x") := by
  have traceless := refused_operations_leave_no_trace {} windingOps
  refine ⟨rfl, by decide +kernel, ?_, traceless.2.2 _⟩
  rw [traceless.2.1]
  decide +kernel

end CommandVM.Builder
