import CommandVM.Proofs.Builder.Finish
import CommandVM.Proofs.Listing.Operations

/-!
# Units and the operations they were built by

A finished unit decodes to the instructions that were emitted, in order and at the offsets that were
told, with each jump leading to where its label was bound. The assembler drives a builder by the same
operations, so the tables of what it assembles are as sound.
-/

namespace CommandVM

namespace Builder

open CommandVM.Listing (Listable)

variable {b b' : Builder} {past : List Step} {s : Step} {pair : Nat × Instruction}
  {u : CompiledUnit}

/-! ### Instructions and steps -/

namespace Step

/-- The step emits an instruction. -/
def emits (s : Step) : Bool :=
  match s.op, s.answer with
  | .emit _ _, .ok _ | .jump _ _, .ok _ | .push _, .ok _ => true
  | _, _ => false

/-- The instruction stands at the offset that the step told. It has the operands of an `emit`; a
jump leads to the place of the step that bound its label, and a push names a literal with its
text, as long as 32 bits number the literals. -/
def Realizes (past : List Step) (u : CompiledUnit) (s : Step) (pair : Nat × Instruction) : Prop :=
  s.answer = .ok (some pair.1) ∧
    match s.op with
    | .emit opcode operands => pair.2 = ⟨opcode, operands⟩
    | .jump opcode label => (∃ t ∈ past, t.Binds label) ∧
        ∀ t ∈ past, t.Binds label → pair.2 = ⟨opcode, [(t.before.offset : Int) - pair.1]⟩
    | .push text => u.literals.length ≤ UInt32.size →
        ∃ index v, u.literals[index]? = some v ∧ v.str = text ∧ pair.2 = pushOf index
    | _ => False

end Step

theorem emits_eq (s : Step) : s.emits = s.draft?.isSome := by
  obtain ⟨b, op⟩ := s
  cases op with
  | emit opcode operands =>
    simp only [Step.emits, Step.draft?, Step.answer, apply]
    cases b.emit opcode operands <;> rfl
  | jump opcode label =>
    simp only [Step.emits, Step.draft?, Step.answer, apply]
    cases b.jump opcode label <;> rfl
  | push text =>
    simp only [Step.emits, Step.draft?, Step.answer, apply]
    cases b.push text <;> rfl
  | _ => rfl

/-- The literal that a push names has its text in all later builders. -/
theorem push_literal {text : String} {n : Nat} (emitted : b.push text = .ok (n, b'))
    {literals : List Value} (later : b'.literals <+: literals)
    (few : literals.length ≤ UInt32.size) :
    ∃ v, literals[(b.literal text).1]? = some v ∧ v.str = text := by
  rw [push_eq] at emitted
  have grown := (grows_emit emitted).literals.trans later
  obtain ⟨v, found, same⟩ := literal_found b text (Nat.le_trans grown.length_le few)
  obtain ⟨more, joined⟩ := grown
  have inside := (List.getElem?_eq_some_iff.mp found).1
  exact ⟨v, by rw [← joined, List.getElem?_append_left inside, found], same⟩

theorem Step.Fills.realizes (records : Records past b) (small : b.offset < UInt32.size)
    (literals : u.literals = b.literals) (member : s ∈ past) (fills : s.Fills b pair) :
    s.Realizes past u pair := by
  obtain ⟨draft, drafted, offset, filled⟩ := fills
  unfold Step.draft? at drafted
  split at drafted
  · next opcode operands o isEmit answered =>
    cases drafted
    have none : s.fixup? = none := by rw [Step.fixup?, isEmit]
    refine ⟨by rw [answered, offset], ?_⟩
    rw [isEmit]
    rcases filled with ⟨_, same⟩ | ⟨fixup, target, found, _⟩
    · exact same
    · rw [none] at found
      cases found
  · next opcode label o isJump answered =>
    cases drafted
    have fixup : s.fixup? = some { offset := o, label, kind := distanceKind opcode } := by
      rw [Step.fixup?, isJump, answered]
    refine ⟨by rw [answered, offset], ?_⟩
    rw [isJump]
    rcases filled with ⟨none, _⟩ | ⟨_, target, found, resolved, same⟩
    · rw [fixup] at none
      cases none
    · rw [fixup] at found
      cases found
      have lands := (resolve_eq_ok records small resolved).1
      obtain ⟨_, binder, only⟩ := records.bound label _ lands
      refine ⟨binder, ?_⟩
      intro t inside binds
      rw [same, only t inside binds]
  · next text o isPush answered =>
    cases drafted
    have none : s.fixup? = none := by rw [Step.fixup?, isPush]
    refine ⟨by rw [answered, offset], ?_⟩
    rw [isPush]
    rcases filled with ⟨_, same⟩ | ⟨fixup, target, found, _⟩
    · have later := records.literals s member
      rw [← literals] at later
      cases emitted : s.before.push text with
      | error e =>
        simp only [Step.answer, isPush, apply, emitted, telling, reduceCtorEq] at answered
      | ok made =>
        simp only [Step.after, isPush, apply, emitted, telling] at later
        intro few
        obtain ⟨v, present, text_same⟩ := push_literal emitted later few
        exact ⟨_, v, present, text_same, same⟩
    · rw [none] at found
      cases found
  · cases drafted

theorem Filled.realizes {instructions : List (Nat × Instruction)} (records : Records past b)
    (small : b.offset < UInt32.size) (literals : u.literals = b.literals)
    (filled : Filled b past 0 instructions) :
    List.Forall₂ (Step.Realizes past u) (past.filter Step.emits) instructions := by
  have same : past.filter Step.emits = past.filter fun s => s.draft?.isSome :=
    List.filter_congr fun s _ => emits_eq s
  rw [same]
  refine List.forall₂_iff_get.mpr ⟨filled.fills.length_eq, ?_⟩
  intro k here there
  have member : (past.filter fun s => s.draft?.isSome).get ⟨k, here⟩ ∈ past :=
    (List.mem_filter.mp (List.get_mem _ _)).1
  exact (filled.fills.get here there).realizes records small literals member

/-! ### Builders that operations lead to -/

/-- Some operations lead from the empty builder to this one. -/
def Reached (b : Builder) : Prop := ∃ ops, run {} ops = b

theorem run_append (b : Builder) (ops more : List Op) :
    b.run (ops ++ more) = (b.run ops).run more := by
  induction ops generalizing b with
  | nil => rfl
  | cons op ops ih => exact ih _

theorem Reached.apply (reached : Reached b) (op : Op) : Reached (b.apply op).2 := by
  obtain ⟨ops, rfl⟩ := reached
  exact ⟨ops ++ [op], run_append _ _ _⟩

end Builder

/-- What is assembled is what some operations build. -/
theorem Listing.assemble_reached {text : String} {u : CompiledUnit}
    (assembled : assemble text = .ok u) : ∃ ops, (Builder.run {} ops).finish = .ok u := by
  obtain ⟨_, ⟨ops, rfl⟩, finished⟩ := assemble_keeps (P := Builder.Reached)
    (fun _ op _ reached => reached.apply op) ⟨[], rfl⟩
    (fun _ _ depth reached => reached.apply (.setMaxStack depth)) assembled
  exact ⟨ops, finished⟩

/-- A unit that some operations build decodes to the instructions that they emitted, and its tables
refer to these; so do the tables of every unit that is assembled. A label or a range that does not
exist is as good as one that is never bound. -/
theorem built_units_realize_their_histories :
    (∀ ops u, (Builder.run {} ops).finish = .ok u → u.code.length < UInt32.size →
      ∃ instructions, Instruction.decodeAll u.code = .ok instructions ∧
        List.Forall₂ (Builder.Step.Realizes (Builder.history {} ops) u)
          ((Builder.history {} ops).filter Builder.Step.emits) instructions ∧
        Builder.Tabled u instructions ∧
        (u.ranges.length ≤ UInt32.size → Listing.Listable u instructions)) ∧
    ∀ text u, Listing.assemble text = .ok u → u.code.length < UInt32.size →
      ∃ instructions, Instruction.decodeAll u.code = .ok instructions ∧
        Builder.Tabled u instructions ∧
        (u.ranges.length ≤ UInt32.size → Listing.Listable u instructions) := by
  constructor
  · intro ops u finished small
    have records : Builder.Records (Builder.history {} ops) (Builder.run {} ops) :=
      Builder.records_empty.run ops
    obtain ⟨instructions, decodes, filled, short, tabled⟩ :=
      Builder.finish_spec records finished small
    have literals := (Builder.finish_eq_ok finished).2.1
    exact ⟨instructions, decodes, filled.realizes records short literals, tabled,
      tabled.listable decodes small⟩
  · intro text u assembled small
    obtain ⟨ops, finished⟩ := Listing.assemble_reached assembled
    obtain ⟨instructions, decodes, _, _, tabled⟩ :=
      Builder.finish_spec (Builder.records_empty.run ops) finished small
    exact ⟨instructions, decodes, tabled, tabled.listable decodes small⟩

/-- A loop with a short jump out and a long jump back, an operand that does not fit, a label that is
bound twice, a literal that is found again, a range that is added after the loop inside it is closed,
and a command that ends before it starts. -/
def windingOps : List Builder.Op :=
  [.addLiteral (.int 7), .newLabel, .newLabel, .emit .push1 [256], .beginRange .catch, .bind 0,
    .push "7", .jump .jumpTrue1 1, .beginRange .loop, .push "x", .jump .jump4 0, .endRange 1,
    .setBreak 1 1, .bind 1, .bind 1, .addRange .loop 0 1, .addCommand 1 0 3 4, .push "x",
    .emit .done [], .endRange 0]

def windingUnit : CompiledUnit where
  code := [0x01, 0, 0x29, 9, 0x01, 1, 0x28, 0xfa, 0xff, 0xff, 0xff, 0x01, 1, 0x00]
  literals := [.int 7, .text "x"]
  ranges := [
    { kind := .catch, level := 0, start := 0, size := 14, breakTarget := none,
      continueTarget := none, catchTarget := none },
    { kind := .loop, level := 1, start := 4, size := 7, breakTarget := some 11,
      continueTarget := none, catchTarget := none },
    { kind := .loop, level := 1, start := 0, size := 11, breakTarget := none,
      continueTarget := none, catchTarget := none }]
  maxStack := 2
  commands := [⟨11, 0, 3, 4⟩]

def windingText : String := ".range loop top out break=out\ntop: JUMP1 out\nout: DONE"

theorem windingUnit_realizes :
    ((Builder.run {} windingOps).finish = .ok windingUnit ∧
      ∃ instructions, Instruction.decodeAll windingUnit.code = .ok instructions ∧
        List.Forall₂ (Builder.Step.Realizes (Builder.history {} windingOps) windingUnit)
          ((Builder.history {} windingOps).filter Builder.Step.emits) instructions ∧
        Builder.Tabled windingUnit instructions ∧ Listing.Listable windingUnit instructions) ∧
    ∃ u, Listing.assemble windingText = .ok u ∧ u.code = [0x27, 2, 0x00] ∧
      ∃ instructions, Instruction.decodeAll u.code = .ok instructions ∧
        Builder.Tabled u instructions := by
  constructor
  · have finished : (Builder.run {} windingOps).finish = .ok windingUnit := by rfl
    obtain ⟨instructions, decodes, realized, tabled, listable⟩ :=
      built_units_realize_their_histories.1 windingOps windingUnit finished (by decide)
    exact ⟨finished, instructions, decodes, realized, tabled, listable (by decide)⟩
  · have code : (Listing.assemble windingText).toOption.map CompiledUnit.code =
        some [0x27, 2, 0x00] := by
      decide +kernel
    cases assembled : Listing.assemble windingText with
    | error e =>
      rw [assembled] at code
      cases code
    | ok u =>
      rw [assembled] at code
      have exactly : u.code = [0x27, 2, 0x00] := Option.some.inj code
      obtain ⟨instructions, decodes, tabled, _⟩ :=
        built_units_realize_their_histories.2 windingText u assembled (by rw [exactly]; decide)
      exact ⟨u, rfl, exactly, instructions, decodes, tabled⟩

end CommandVM
