import CommandVM.Builder.History
import CommandVM.Proofs.InstructionCodec
import CommandVM.Proofs.Listing.Code

/-!
# What a history leaves in a builder

The code of a builder is that of the instructions that its history emitted, where jumps to labels
still have no distance, and one fixup stands for each of these jumps. A label is bound where an
instruction starts or the code ends, by one step of the history.
-/

namespace CommandVM.Builder

open CommandVM.Instruction (codeOf codeOf_append Consecutive)

/-- The instruction that pushes a literal. -/
def pushOf (index : Nat) : Instruction :=
  if index < 256 then ⟨.push1, [index]⟩ else ⟨.push4, [index]⟩

/-- The operation sets the maximum stack depth. -/
def Op.setsLimit : Op → Bool
  | .setMaxStack _ => true
  | _ => false

namespace Step

/-- The instruction that a step emits, at the offset that it tells; a jump to a label has no
distance yet. -/
def draft? (s : Step) : Option (Nat × Instruction) :=
  match s.op, s.answer with
  | .emit opcode operands, .ok (some offset) => some (offset, ⟨opcode, operands⟩)
  | .jump opcode _, .ok (some offset) => some (offset, ⟨opcode, [0]⟩)
  | .push text, .ok (some offset) => some (offset, pushOf (s.before.literal text).1)
  | _, _ => none

/-- The fixup of a step that emits a jump to a label. -/
def fixup? (s : Step) : Option Fixup :=
  match s.op, s.answer with
  | .jump opcode label, .ok (some offset) => some { offset, label, kind := distanceKind opcode }
  | _, _ => none

/-- The step gives an offset to a label that had none. -/
def Binds (s : Step) (label : Nat) : Prop :=
  s.before.labelOffset? label = none ∧ (s.after.labelOffset? label).isSome = true

end Step

/-- The drafts of a history. -/
def drafts (past : List Step) : List (Nat × Instruction) := past.filterMap Step.draft?

theorem drafts_append (past more : List Step) : drafts (past ++ more) = drafts past ++ drafts more :=
  List.filterMap_append

theorem drafts_singleton (s : Step) : drafts [s] = s.draft?.toList := by
  unfold drafts
  cases found : s.draft? with
  | none => rw [List.filterMap_cons_none found, List.filterMap_nil]; rfl
  | some pair => rw [List.filterMap_cons_some found, List.filterMap_nil]; rfl

/-! ### One step -/

/-- All that an operation does to code, fixups, label offsets and literals. -/
structure Grows (draft : Option (Nat × Instruction)) (fixup : Option Fixup) (b b' : Builder) :
    Prop where
  code : b'.code = b.code ++ codeOf draft.toList
  fixups : b'.fixups = b.fixups ++ fixup.toList
  placed : ∀ pair ∈ draft, pair.1 = b.offset ∧ pair.2.Fits
  labels : ∀ label, b'.labelOffset? label = b.labelOffset? label ∨
    b.labelOffset? label = none ∧ b'.labelOffset? label = some b.offset
  literals : b.literals <+: b'.literals

variable {b b' : Builder} {opcode : Opcode} {operands : List Int} {label n : Nat}

theorem grows_quiet (code : b'.code = b.code) (fixups : b'.fixups = b.fixups)
    (labels : ∀ label, b'.labelOffset? label = b.labelOffset? label)
    (literals : b.literals <+: b'.literals) : Grows none none b b' where
  code := by
    rw [code]
    exact (List.append_nil _).symm
  fixups := by
    rw [fixups]
    exact (List.append_nil _).symm
  placed := by simp
  labels := fun label => .inl (labels label)
  literals := literals

theorem grows_refl (b : Builder) : Grows none none b b :=
  grows_quiet rfl rfl (fun _ => rfl) List.prefix_rfl

/-- A label that is not bound is placed, and some fields that do not matter are changed. -/
theorem grows_place (free : b.labelOffset? label = none)
    (code : b'.code = b.code) (fixups : b'.fixups = b.fixups)
    (labels : b'.labels = (b.place label).labels) (literals : b'.literals = b.literals) :
    Grows none none b b' where
  code := by
    rw [code]
    exact (List.append_nil _).symm
  fixups := by
    rw [fixups]
    exact (List.append_nil _).symm
  placed := by simp
  labels := by
    intro k
    have same : b'.labelOffset? k = (b.place label).labelOffset? k := by
      unfold labelOffset?
      rw [labels]
    rw [same]
    by_cases known : label < b.labels.length
    · rw [labelOffset?_place known]
      by_cases here : k = label
      · subst here
        exact .inr ⟨free, if_pos rfl⟩
      · exact .inl (if_neg here)
    · left
      unfold labelOffset? place
      rw [List.getElem?_modify]
      by_cases here : label = k
      · subst here
        rw [List.getElem?_eq_none (Nat.le_of_not_lt known)]
        rfl
      · simp [here]
  literals := literals ▸ List.prefix_rfl

theorem labelOffset?_newLabel (b : Builder) (label : Nat) :
    b.newLabel.2.labelOffset? label = b.labelOffset? label := by
  unfold newLabel labelOffset?
  by_cases old : label < b.labels.length
  · rw [List.getElem?_append_left old]
  · rw [List.getElem?_append_right (Nat.le_of_not_lt old),
      List.getElem?_eq_none (Nat.le_of_not_lt old)]
    cases label - b.labels.length <;> rfl

/-- Opening a region places a fresh label. -/
theorem grows_open (b : Builder) (code : b'.code = b.code) (fixups : b'.fixups = b.fixups)
    (labels : b'.labels = (b.newLabel.2.newLabel.2.place b.labels.length).labels)
    (literals : b'.literals = b.literals) : Grows none none b b' := by
  have fresh : b.newLabel.2.newLabel.2.labelOffset? b.labels.length = none := by
    rw [labelOffset?_newLabel, labelOffset?_newLabel]
    unfold labelOffset?
    rw [List.getElem?_eq_none (Nat.le_refl _)]
    rfl
  have placed : Grows none none b.newLabel.2.newLabel.2 b' :=
    grows_place fresh code fixups labels literals
  refine ⟨placed.code, placed.fixups, placed.placed, ?_, placed.literals⟩
  intro label
  have known := placed.labels label
  rwa [labelOffset?_newLabel, labelOffset?_newLabel] at known

theorem close_eq_ok {region : Nat} {stop : Option Nat} (closed : b.close region stop = .ok b') :
    ∃ label, b.labelOffset? label = none ∧ b' = b.place label := by
  unfold close at closed
  split at closed
  · cases closed
  · next label =>
    split at closed
    · cases closed
    · next free =>
      cases closed
      exact ⟨label, by simpa using free, rfl⟩

theorem emit_eq_ok (emitted : b.emit opcode operands = .ok (n, b')) :
    n = b.offset ∧ Instruction.Fits ⟨opcode, operands⟩ ∧
      b' = { b with code := b.code ++ Instruction.encode ⟨opcode, operands⟩ }.track
        ⟨opcode, operands⟩ := by
  unfold emit at emitted
  dsimp only at emitted
  split at emitted
  · cases emitted
  · next count =>
    split at emitted
    · cases emitted
    · next none =>
      cases emitted
      refine ⟨rfl, ⟨not_not.mp count, ?_⟩, rfl⟩
      intro pair member
      have fits := List.find?_eq_none.mp none pair member
      simpa using fits

theorem grows_emit (emitted : b.emit opcode operands = .ok (n, b')) :
    Grows (some (n, ⟨opcode, operands⟩)) none b b' := by
  obtain ⟨rfl, fits, rfl⟩ := emit_eq_ok emitted
  refine ⟨?_, (List.append_nil _).symm, ?_, fun _ => .inl rfl, List.prefix_rfl⟩
  · show b.code ++ _ = b.code ++ codeOf [_]
    rw [Instruction.codeOf_cons]
    exact congrArg _ (List.append_nil _).symm
  · rintro pair ⟨⟩
    exact ⟨rfl, fits⟩

theorem grows_jump (emitted : b.jump opcode label = .ok (n, b')) :
    opcode.isJump = true ∧
      Grows (some (n, ⟨opcode, [0]⟩)) (some { offset := n, label, kind := distanceKind opcode })
        b b' := by
  unfold jump at emitted
  split at emitted
  · cases emitted
  · next jumps =>
    refine ⟨by simpa using jumps, ?_⟩
    split at emitted
    · cases emitted
    · next offset between made =>
      cases emitted
      have grown := grows_emit made
      refine ⟨grown.code, ?_, grown.placed, ?_, grown.literals⟩
      · show between.fixups ++ _ = _
        rw [grown.fixups, Option.toList_none, List.append_nil, Option.toList_some]
      · intro k
        rw [labelOffset?_seed]
        exact grown.labels k

theorem literal_eq (b : Builder) (text : String) :
    ∃ more, (b.literal text).2 = { b with literals := b.literals ++ more } := by
  unfold literal
  split
  · exact ⟨[], by rw [List.append_nil]⟩
  · exact ⟨[.text text], rfl⟩

theorem localSlot_eq (b : Builder) (name : String) :
    ∃ more, (b.localSlot name).2 = { b with locals := b.locals ++ more } := by
  unfold localSlot
  split
  · exact ⟨[], by rw [List.append_nil]⟩
  · exact ⟨[name], rfl⟩

theorem narrow_of_lt {index : Nat} (small : index < UInt32.size) : narrow index = index :=
  Nat.mod_eq_of_lt small

/-- The literal that a text is given has that text, as long as 32 bits number the literals. -/
theorem literal_found (b : Builder) (text : String)
    (few : (b.literal text).2.literals.length ≤ UInt32.size) :
    ∃ v, (b.literal text).2.literals[(b.literal text).1]? = some v ∧ v.str = text := by
  unfold literal at few ⊢
  cases found : b.literals.findIdx? fun v => v.str == text with
  | some i =>
    obtain ⟨inside, same, _⟩ := List.findIdx?_eq_some_iff_getElem.mp found
    rw [found] at few
    have small : i < UInt32.size := Nat.lt_of_lt_of_le inside few
    refine ⟨b.literals[i], ?_, by simpa using same⟩
    show b.literals[narrow i]? = _
    rw [narrow_of_lt small, List.getElem?_eq_getElem inside]
  | none =>
    rw [found] at few
    have small : b.literals.length + 1 ≤ UInt32.size := by
      simpa [addLiteral] using few
    refine ⟨.text text, ?_, rfl⟩
    show (b.literals ++ [.text text])[narrow b.literals.length]? = _
    rw [narrow_of_lt small, List.getElem?_concat_length]

theorem push_eq (b : Builder) (text : String) :
    b.push text = (b.literal text).2.emit (pushOf (b.literal text).1).opcode
      (pushOf (b.literal text).1).operands := by
  unfold push pushOf
  dsimp only
  split <;> rfl

theorem grows_push {text : String} (emitted : b.push text = .ok (n, b')) :
    Grows (some (n, pushOf (b.literal text).1)) none b b' := by
  obtain ⟨more, interned⟩ := literal_eq b text
  rw [push_eq] at emitted
  have grown := grows_emit emitted
  rw [interned] at grown
  exact ⟨grown.code, grown.fixups, grown.placed, grown.labels,
    (List.prefix_append _ _).trans grown.literals⟩

theorem Step.grows (s : Step) : Grows s.draft? s.fixup? s.before s.after := by
  obtain ⟨b, op⟩ := s
  cases op with
  | setSource | setMaxStack | addLocal | addForeach | addRange | addCommand =>
    exact grows_quiet rfl rfl (fun _ => rfl) List.prefix_rfl
  | addLiteral => exact grows_quiet rfl rfl (fun _ => rfl) (List.prefix_append _ _)
  | literal text =>
    obtain ⟨more, interned⟩ := literal_eq b text
    show Grows none none b (b.literal text).2
    rw [interned]
    exact grows_quiet rfl rfl (fun _ => rfl) (List.prefix_append _ _)
  | localSlot name =>
    obtain ⟨more, interned⟩ := localSlot_eq b name
    show Grows none none b (b.localSlot name).2
    rw [interned]
    exact grows_quiet rfl rfl (fun _ => rfl) List.prefix_rfl
  | newLabel => exact grows_quiet rfl rfl (labelOffset?_newLabel b) List.prefix_rfl
  | setBreak range label | setContinue range label | setCatch range label =>
    exact grows_quiet rfl rfl (labelOffset?_seed _ label) List.prefix_rfl
  | beginRange | beginCommand => exact grows_open b rfl rfl rfl rfl
  | bind label =>
    show Grows none none b (b.silent (b.bind label)).2
    unfold Builder.bind
    split
    · exact grows_refl b
    · next free => exact grows_place (by simpa using free) rfl rfl rfl rfl
  | endRange range =>
    show Grows none none b (b.silent (b.endRange range)).2
    cases closed : b.endRange range with
    | error e => exact grows_refl b
    | ok b' =>
      obtain ⟨label, free, rfl⟩ := close_eq_ok closed
      exact grows_place free rfl rfl rfl rfl
  | endCommand command =>
    show Grows none none b (b.silent (b.endCommand command)).2
    cases closed : b.endCommand command with
    | error e => exact grows_refl b
    | ok b' =>
      obtain ⟨label, free, rfl⟩ := close_eq_ok closed
      exact grows_place free rfl rfl rfl rfl
  | emit opcode operands =>
    cases emitted : b.emit opcode operands with
    | error e =>
      simp only [draft?, fixup?, answer, after, apply, emitted, telling]
      exact grows_refl b
    | ok made =>
      simp only [draft?, fixup?, answer, after, apply, emitted, telling]
      exact grows_emit emitted
  | jump opcode label =>
    cases emitted : b.jump opcode label with
    | error e =>
      simp only [draft?, fixup?, answer, after, apply, emitted, telling]
      exact grows_refl b
    | ok made =>
      simp only [draft?, fixup?, answer, after, apply, emitted, telling]
      exact (grows_jump emitted).2
  | push text =>
    cases emitted : b.push text with
    | error e =>
      simp only [draft?, fixup?, answer, after, apply, emitted, telling]
      exact grows_refl b
    | ok made =>
      simp only [draft?, fixup?, answer, after, apply, emitted, telling]
      exact grows_push emitted

/-! ### Whole histories -/

/-- The offsets of the drafts of a history, and the end of the code. -/
def edges (past : List Step) (b : Builder) : List Nat := (drafts past).map Prod.fst ++ [b.offset]

/-- What a history tells about the builder that it leads to. -/
structure Records (past : List Step) (b : Builder) : Prop where
  consecutive : Consecutive 0 (drafts past)
  fit : ∀ pair ∈ drafts past, pair.2.Fits
  code : b.code = codeOf (drafts past)
  fixups : b.fixups = past.filterMap Step.fixup?
  unbound : ∀ label, b.labelOffset? label = none → ∀ s ∈ past, ¬ s.Binds label
  bound : ∀ label o, b.labelOffset? label = some o → o ∈ edges past b ∧
    (∃ s ∈ past, s.Binds label) ∧ ∀ s ∈ past, s.Binds label → s.before.offset = o
  literals : ∀ s ∈ past, s.after.literals <+: b.literals

theorem records_empty : Records [] {} where
  consecutive := trivial
  fit := by simp [drafts]
  code := rfl
  fixups := rfl
  unbound := by simp
  bound := by simp [labelOffset?]
  literals := by simp

theorem consecutive_append {offset : Nat} {first rest : List (Nat × Instruction)}
    (fit : ∀ pair ∈ first, pair.2.Fits) (before : Consecutive offset first)
    (behind : Consecutive (offset + (codeOf first).length) rest) :
    Consecutive offset (first ++ rest) := by
  induction first generalizing offset with
  | nil => exact behind
  | cons pair first ih =>
    obtain ⟨o, i⟩ := pair
    obtain ⟨rfl, before⟩ := before
    have length := i.length_encode (fit (o, i) List.mem_cons_self).1
    rw [Instruction.codeOf_cons, List.length_append, length, ← Nat.add_assoc] at behind
    exact ⟨rfl, ih (fun pair member => fit pair (List.mem_cons_of_mem _ member)) before behind⟩

variable {past : List Step} {s : Step}

/-- An edge stays one when more is emitted: the end of the code is where the next instruction
starts. -/
theorem edges_step {o : Nat} (edge : o ∈ edges past s.before) : o ∈ edges (past ++ [s]) s.after := by
  have grown := s.grows
  unfold edges at edge ⊢
  rw [drafts_append, drafts_singleton, List.map_append]
  rcases List.mem_append.mp edge with start | last
  · exact List.mem_append_left _ (List.mem_append_left _ start)
  · rw [List.mem_singleton.mp last]
    cases found : s.draft? with
    | none =>
      have same : s.after.offset = s.before.offset := by
        rw [Builder.offset, grown.code, found]
        exact congrArg List.length (List.append_nil _)
      rw [same]
      exact List.mem_append_right _ List.mem_cons_self
    | some pair =>
      have here := (grown.placed pair found).1
      rw [← here]
      exact List.mem_append_left _ (List.mem_append_right _ List.mem_cons_self)

theorem Records.step (records : Records past s.before) : Records (past ++ [s]) s.after := by
  have grown := s.grows
  have placed : ∀ pair ∈ drafts [s], pair.1 = s.before.offset ∧ pair.2.Fits := by
    intro pair member
    rw [drafts_singleton, Option.mem_toList] at member
    exact grown.placed pair member
  refine ⟨?_, ?_, ?_, ?_, ?_, ?_, ?_⟩
  · rw [drafts_append]
    refine consecutive_append records.fit records.consecutive ?_
    rw [drafts_singleton]
    cases found : s.draft? with
    | none => trivial
    | some pair =>
      refine ⟨?_, trivial⟩
      rw [(grown.placed pair found).1, Nat.zero_add, ← records.code]
      rfl
  · intro pair member
    rw [drafts_append] at member
    rcases List.mem_append.mp member with old | new
    · exact records.fit pair old
    · exact (placed pair new).2
  · rw [drafts_append, drafts_singleton, codeOf_append, ← records.code, grown.code]
  · rw [grown.fixups, records.fixups, List.filterMap_append]
    cases found : s.fixup? with
    | none => rw [List.filterMap_cons_none found, List.filterMap_nil]; rfl
    | some fixup => rw [List.filterMap_cons_some found, List.filterMap_nil]; rfl
  · intro label free t member binds
    have before : s.before.labelOffset? label = none := by
      rcases grown.labels label with same | ⟨none, _⟩
      · rw [← same, free]
      · exact none
    rcases List.mem_append.mp member with old | new
    · exact records.unbound label before t old binds
    · obtain rfl := List.mem_singleton.mp new
      rw [Step.Binds, free] at binds
      cases binds.2
  · intro label o found
    rcases grown.labels label with same | ⟨none, now⟩
    · rw [same] at found
      obtain ⟨edge, ⟨t, member, binds⟩, only⟩ := records.bound label o found
      refine ⟨edges_step edge, ⟨t, List.mem_append_left _ member, binds⟩, ?_⟩
      intro t member binds
      rcases List.mem_append.mp member with old | new
      · exact only t old binds
      · obtain rfl := List.mem_singleton.mp new
        rw [Step.Binds, found] at binds
        cases binds.1
    · rw [now] at found
      cases found
      refine ⟨edges_step (List.mem_append_right _ List.mem_cons_self),
        ⟨s, List.mem_append_right _ List.mem_cons_self, none, by rw [now]; rfl⟩, ?_⟩
      intro t member binds
      rcases List.mem_append.mp member with old | new
      · exact absurd binds (records.unbound label none t old)
      · rw [List.mem_singleton.mp new]
  · intro t member
    rcases List.mem_append.mp member with old | new
    · exact (records.literals t old).trans grown.literals
    · obtain rfl := List.mem_singleton.mp new
      exact List.prefix_rfl

theorem Records.run {b : Builder} (records : Records past b) (ops : List Op) :
    Records (past ++ history b ops) (b.run ops) := by
  induction ops generalizing past b with
  | nil =>
    rw [history, List.append_nil]
    exact records
  | cons op ops ih =>
    have stepped : Records (past ++ [⟨b, op⟩]) (b.apply op).2 := Records.step (s := ⟨b, op⟩) records
    have whole := ih stepped
    rwa [List.append_assoc, List.singleton_append] at whole

end CommandVM.Builder
