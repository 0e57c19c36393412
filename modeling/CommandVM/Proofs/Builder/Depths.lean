import CommandVM.Proofs.Builder.History

/-!
# The depths that a builder follows

A builder follows one depth from instruction to instruction. It notes a depth for each label that is
referred to, and does not go below it where the label is bound. So a depth that holds at some step
still holds where the next instruction is emitted.
-/

namespace CommandVM.Builder

variable {b b' : Builder} {ops : List Op} {s t e : Step} {sets : Bool}
  {draft : Option (Nat × Instruction)} {label d o n : Nat}

/-! ### One step -/

/-- The depth that is noted for a label. -/
def labelDepth? (b : Builder) (label : Nat) : Option Nat := b.labels[label]?.bind Label.depth

/-- The greatest depth covers the current one and those of the labels. -/
structure Tracked (b : Builder) : Prop where
  depth : b.depth ≤ b.maxDepth
  labels : ∀ label d, b.labelDepth? label = some d → d ≤ b.maxDepth

/-- All that an operation does to depths and to the limit. -/
structure Follows (sets : Bool) (draft : Option (Nat × Instruction)) (b b' : Builder) : Prop where
  maxOverride : sets = false → b'.maxOverride = b.maxOverride
  maxDepth : b.maxDepth ≤ b'.maxDepth
  noted : ∀ label d, b.labelDepth? label = some d → ∃ d', b'.labelDepth? label = some d' ∧ d ≤ d'
  quiet : draft = none → b.reachable = true → b'.reachable = true ∧ b.depth ≤ b'.depth
  emitted : ∀ pair ∈ draft, b'.depth = b.depth - pair.2.pops + pair.2.pushes ∧
    b'.reachable = (b.reachable && !pair.2.opcode.isTerminal)
  tracked : b.Tracked → b'.Tracked

theorem labelDepth?_place (b : Builder) (label k : Nat) :
    (b.place label).labelDepth? k = b.labelDepth? k := by
  unfold labelDepth? place
  rw [List.getElem?_modify]
  cases b.labels[k]? with
  | none => rfl
  | some l => by_cases here : label = k <;> simp [here]

theorem labelDepth?_newLabel (b : Builder) (k : Nat) :
    b.newLabel.2.labelDepth? k = b.labelDepth? k := by
  unfold labelDepth? newLabel
  by_cases old : k < b.labels.length
  · rw [List.getElem?_append_left old]
  · rw [List.getElem?_append_right (Nat.le_of_not_lt old),
      List.getElem?_eq_none (Nat.le_of_not_lt old)]
    cases k - b.labels.length <;> rfl

theorem labelDepth?_seed (b : Builder) (label k : Nat) :
    (b.seed label).labelDepth? k = if k = label ∧ k < b.labels.length then
      some (max ((b.labelDepth? k).getD 0) b.depth) else b.labelDepth? k := by
  unfold labelDepth? seed
  rw [List.getElem?_modify]
  by_cases known : k < b.labels.length
  · rw [List.getElem?_eq_getElem known]
    by_cases here : label = k
    · simp [here, known]
    · simp [here, Ne.symm here]
  · rw [List.getElem?_eq_none (Nat.le_of_not_lt known)]
    simp [known]

theorem follows_quiet (maxOverride : sets = false → b'.maxOverride = b.maxOverride)
    (depth : b'.depth = b.depth) (reachable : b'.reachable = b.reachable)
    (maxDepth : b'.maxDepth = b.maxDepth)
    (labels : ∀ label, b'.labelDepth? label = b.labelDepth? label) : Follows sets none b b' where
  maxOverride := maxOverride
  maxDepth := Nat.le_of_eq maxDepth.symm
  noted label d known := ⟨d, (labels label).trans known, Nat.le_refl d⟩
  quiet _ reached := ⟨reachable.trans reached, Nat.le_of_eq depth.symm⟩
  emitted := by simp
  tracked tracked := by
    refine ⟨by rw [depth, maxDepth]; exact tracked.depth, ?_⟩
    intro label d known
    rw [labels] at known
    rw [maxDepth]
    exact tracked.labels label d known

theorem follows_refl (b : Builder) : Follows sets none b b :=
  follows_quiet (fun _ => rfl) rfl rfl rfl fun _ => rfl

/-- A label is noted after what else an operation does. -/
theorem follows_seed (b' : Builder) (follows : Follows sets draft b b') (label : Nat) :
    Follows sets draft b (b'.seed label) where
  maxOverride := follows.maxOverride
  maxDepth := follows.maxDepth
  noted k d known := by
    obtain ⟨d', between, more⟩ := follows.noted k d known
    rw [labelDepth?_seed]
    split
    · refine ⟨_, rfl, ?_⟩
      rw [between, Option.getD_some]
      omega
    · exact ⟨d', between, more⟩
  quiet := follows.quiet
  emitted := follows.emitted
  tracked tracked := by
    have between := follows.tracked tracked
    refine ⟨between.depth, ?_⟩
    intro k d known
    rw [labelDepth?_seed] at known
    split at known
    · have depth := between.depth
      obtain rfl := Option.some.inj known
      refine Nat.max_le.mpr ⟨?_, depth⟩
      cases noted : b'.labelDepth? k with
      | none => exact Nat.zero_le _
      | some d' => exact between.labels k d' noted
    · exact between.labels k d known

theorem follows_place (b : Builder) (label : Nat) : Follows sets none b (b.place label) :=
  follows_quiet (fun _ => rfl) rfl rfl rfl (labelDepth?_place b label)

/-- Opening a region makes two labels and places one of them. -/
theorem follows_open (labels : b'.labels = (b.newLabel.2.newLabel.2.place b.labels.length).labels)
    (maxOverride : b'.maxOverride = b.maxOverride) (depth : b'.depth = b.depth)
    (reachable : b'.reachable = b.reachable) (maxDepth : b'.maxDepth = b.maxDepth) :
    Follows sets none b b' := by
  refine follows_quiet (fun _ => maxOverride) depth reachable maxDepth ?_
  intro k
  have known : b'.labelDepth? k =
      (b.newLabel.2.newLabel.2.place b.labels.length).labelDepth? k := by
    unfold labelDepth?
    rw [labels]
  rw [known, labelDepth?_place, labelDepth?_newLabel, labelDepth?_newLabel]

theorem bound_eq (bound : b.bind label = .ok b') :
    b' = { b.place label with
      depth := (b.labelDepth? label).elim b.depth fun d => if b.reachable then max b.depth d else d
      reachable := true } := by
  unfold Builder.bind at bound
  split at bound
  · cases bound
  · cases bound
    unfold labelDepth?
    cases b.labels[label]?.bind Label.depth <;> rfl

theorem le_depth_of_bind (bound : b.bind label = .ok b') (noted : b.labelDepth? label = some d) :
    d ≤ b'.depth := by
  rw [bound_eq bound, noted]
  dsimp only [Option.elim_some]
  split
  · exact Nat.le_max_right _ _
  · exact Nat.le_refl d

/-- Where control comes from above, binding a label does not lower the depth. -/
theorem follows_bind (bound : b.bind label = .ok b') : Follows sets none b b' := by
  have same : ∀ k, b'.labelDepth? k = b.labelDepth? k := by
    intro k
    rw [bound_eq bound]
    exact labelDepth?_place b label k
  refine ⟨fun _ => ?_, ?_, fun k d known => ⟨d, (same k).trans known, Nat.le_refl d⟩, ?_, by simp,
    ?_⟩
  · rw [bound_eq bound]
    rfl
  · rw [bound_eq bound]
    exact Nat.le_refl _
  · intro _ reached
    rw [bound_eq bound, reached]
    refine ⟨rfl, ?_⟩
    cases b.labelDepth? label with
    | none => exact Nat.le_refl _
    | some d => exact Nat.le_max_left _ _
  · intro tracked
    refine ⟨?_, fun k d known => ?_⟩
    · rw [bound_eq bound]
      cases noted : b.labelDepth? label with
      | none => exact tracked.depth
      | some d =>
        have covered := tracked.labels label d noted
        show (if b.reachable then max b.depth d else d) ≤ b.maxDepth
        split
        · exact Nat.max_le.mpr ⟨tracked.depth, covered⟩
        · exact covered
    · rw [same] at known
      rw [bound_eq bound]
      exact tracked.labels k d known

theorem follows_emit {opcode : Opcode} {operands : List Int}
    (emitted : b.emit opcode operands = .ok (n, b')) :
    Follows sets (some (n, ⟨opcode, operands⟩)) b b' := by
  obtain ⟨rfl, _, rfl⟩ := emit_eq_ok emitted
  refine ⟨fun _ => rfl, Nat.le_max_left _ _, fun label d known => ⟨d, known, Nat.le_refl d⟩, nofun,
    ?_, ?_⟩
  · rintro pair ⟨⟩
    exact ⟨rfl, rfl⟩
  · intro tracked
    exact ⟨Nat.le_max_right _ _, fun label d known =>
      Nat.le_trans (tracked.labels label d known) (Nat.le_max_left _ _)⟩

/-- A jump to a label is emitted, then the label is noted. -/
theorem jump_eq_ok {opcode : Opcode} (jumped : b.jump opcode label = .ok (n, b')) :
    ∃ between fixup, b.emit opcode [0] = .ok (n, between) ∧
      b' = { between with fixups := between.fixups ++ [fixup] }.seed label := by
  unfold jump at jumped
  split at jumped
  · cases jumped
  · split at jumped
    · cases jumped
    · rename_i between made
      cases jumped
      exact ⟨between, _, made, rfl⟩

theorem follows_jump {opcode : Opcode} (jumped : b.jump opcode label = .ok (n, b')) :
    Follows sets (some (n, ⟨opcode, [0]⟩)) b b' := by
  obtain ⟨between, fixup, made, rfl⟩ := jump_eq_ok jumped
  have follows : Follows sets _ b between := follows_emit made
  refine follows_seed { between with fixups := _ } ?_ label
  exact ⟨follows.maxOverride, follows.maxDepth, follows.noted, follows.quiet, follows.emitted,
    fun tracked => ⟨(follows.tracked tracked).depth, (follows.tracked tracked).labels⟩⟩

theorem follows_push {text : String} (emitted : b.push text = .ok (n, b')) :
    Follows sets (some (n, pushOf (b.literal text).1)) b b' := by
  obtain ⟨more, interned⟩ := literal_eq b text
  rw [push_eq] at emitted
  have follows : Follows sets _ _ b' := follows_emit emitted
  rw [interned] at follows
  exact ⟨follows.maxOverride, follows.maxDepth, follows.noted, follows.quiet, follows.emitted,
    fun tracked => follows.tracked ⟨tracked.depth, tracked.labels⟩⟩

theorem Step.follows (s : Step) : Follows s.op.setsLimit s.draft? s.before s.after := by
  obtain ⟨b, op⟩ := s
  cases op with
  | setMaxStack => exact follows_quiet nofun rfl rfl rfl fun _ => rfl
  | setSource | addLocal | addForeach | addRange | addCommand | addLiteral =>
    exact follows_quiet (fun _ => rfl) rfl rfl rfl fun _ => rfl
  | literal text =>
    obtain ⟨more, interned⟩ := literal_eq b text
    show Follows false none b (b.literal text).2
    rw [interned]
    exact follows_quiet (fun _ => rfl) rfl rfl rfl fun _ => rfl
  | localSlot name =>
    obtain ⟨more, interned⟩ := localSlot_eq b name
    show Follows false none b (b.localSlot name).2
    rw [interned]
    exact follows_quiet (fun _ => rfl) rfl rfl rfl fun _ => rfl
  | newLabel => exact follows_quiet (fun _ => rfl) rfl rfl rfl (labelDepth?_newLabel b)
  | setBreak range label | setContinue range label | setCatch range label =>
    refine follows_seed { b with ranges := _ } ?_ label
    exact follows_quiet (fun _ => rfl) rfl rfl rfl fun _ => rfl
  | beginRange | beginCommand => exact follows_open rfl rfl rfl rfl rfl
  | bind label =>
    show Follows false none b (b.silent (b.bind label)).2
    cases bound : b.bind label with
    | error e => exact follows_refl b
    | ok b' => exact follows_bind bound
  | endRange range =>
    show Follows false none b (b.silent (b.endRange range)).2
    cases closed : b.endRange range with
    | error e => exact follows_refl b
    | ok b' =>
      obtain ⟨label, _, rfl⟩ := close_eq_ok closed
      exact follows_place b label
  | endCommand command =>
    show Follows false none b (b.silent (b.endCommand command)).2
    cases closed : b.endCommand command with
    | error e => exact follows_refl b
    | ok b' =>
      obtain ⟨label, _, rfl⟩ := close_eq_ok closed
      exact follows_place b label
  | emit opcode operands =>
    cases emitted : b.emit opcode operands with
    | error e =>
      simp only [draft?, answer, after, apply, emitted, telling]
      exact follows_refl b
    | ok made =>
      simp only [draft?, answer, after, apply, emitted, telling]
      exact follows_emit emitted
  | jump opcode label =>
    cases jumped : b.jump opcode label with
    | error e =>
      simp only [draft?, answer, after, apply, jumped, telling]
      exact follows_refl b
    | ok made =>
      simp only [draft?, answer, after, apply, jumped, telling]
      exact follows_jump jumped
  | push text =>
    cases emitted : b.push text with
    | error e =>
      simp only [draft?, answer, after, apply, emitted, telling]
      exact follows_refl b
    | ok made =>
      simp only [draft?, answer, after, apply, emitted, telling]
      exact follows_push emitted

/-! ### References -/

namespace Step

/-- The step refers to a label that exists: it emits a jump there or makes it the target of a
range. -/
def RefersTo (s : Step) (label : Nat) : Prop :=
  label < s.before.labels.length ∧
    ((∃ opcode, s.op = .jump opcode label ∧ s.draft?.isSome = true) ∨
      ∃ range, s.op = .setBreak range label ∨ s.op = .setContinue range label ∨
        s.op = .setCatch range label)

/-- The step binds a label. -/
def BindsLabel (s : Step) (label : Nat) : Prop := s.op = .bind label ∧ s.answer = .ok none

end Step

theorem noted_seed (known : label < b.labels.length) :
    ∃ d, (b.seed label).labelDepth? label = some d ∧ b.depth ≤ d := by
  rw [labelDepth?_seed, if_pos ⟨rfl, known⟩]
  exact ⟨_, rfl, Nat.le_max_right _ _⟩

/-- A label that a step refers to is noted with the depth that the step leaves. -/
theorem Step.RefersTo.noted (refers : s.RefersTo label) :
    ∃ d, s.after.labelDepth? label = some d ∧ s.after.depth ≤ d := by
  obtain ⟨b, op⟩ := s
  obtain ⟨known, ⟨opcode, rfl, emits⟩ | ⟨range, rfl | rfl | rfl⟩⟩ := refers
  · cases jumped : b.jump opcode label with
    | error e => simp [Step.draft?, Step.answer, apply, jumped, telling] at emits
    | ok made =>
      obtain ⟨between, fixup, emitted, seeded⟩ := jump_eq_ok jumped
      obtain ⟨_, _, rfl⟩ := emit_eq_ok emitted
      simp only [Step.after, apply, jumped, telling, seeded]
      exact noted_seed known
  all_goals exact noted_seed known

/-- A label that is bound leaves a reachable place with at least the depth that was noted for it. -/
theorem Step.BindsLabel.ready (binds : s.BindsLabel label)
    (noted : s.before.labelDepth? label = some d) :
    s.draft? = none ∧ s.after.reachable = true ∧ d ≤ s.after.depth := by
  obtain ⟨b, op⟩ := s
  obtain ⟨rfl, answered⟩ := binds
  refine ⟨rfl, ?_⟩
  cases bound : b.bind label with
  | error e => simp only [Step.answer, apply, bound, silent, reduceCtorEq] at answered
  | ok b' =>
    simp only [Step.after, apply, bound, silent]
    refine ⟨?_, le_depth_of_bind bound noted⟩
    rw [bound_eq bound]

/-! ### Whole histories -/

theorem offset_of_silent (silent : s.draft? = none) : s.after.offset = s.before.offset := by
  rw [Builder.offset, s.grows.code, silent]
  exact congrArg List.length (List.append_nil _)

theorem offset_of_draft {i : Instruction} (drafted : s.draft? = some (o, i)) :
    s.before.offset = o ∧ s.after.offset = o + i.size := by
  have grown := s.grows
  obtain ⟨place, fits⟩ := grown.placed (o, i) drafted
  refine ⟨place.symm, ?_⟩
  have code : s.after.code = s.before.code ++ (i.encode ++ []) := by
    rw [grown.code, drafted]
    rfl
  rw [Builder.offset, code, List.append_nil, List.length_append, i.length_encode fits.1]
  exact congrArg (· + i.size) place.symm

theorem offset_le (s : Step) : s.before.offset ≤ s.after.offset := by
  cases drafted : s.draft? with
  | none => exact Nat.le_of_eq (offset_of_silent drafted).symm
  | some pair =>
    obtain ⟨before, after⟩ := offset_of_draft drafted
    omega

/-- What every step keeps holds before each step of a history, and after the last one. -/
theorem history_keeps {P : Builder → Prop} (keeps : ∀ s : Step, P s.before → P s.after)
    (holds : P b) : P (b.run ops) ∧ ∀ e ∈ history b ops, P e.before := by
  induction ops generalizing b with
  | nil => exact ⟨holds, by simp [history]⟩
  | cons op ops ih =>
    obtain ⟨last, rest⟩ := ih (keeps ⟨b, op⟩ holds)
    refine ⟨last, ?_⟩
    intro e member
    rcases List.mem_cons.mp member with rfl | later
    · exact holds
    · exact rest e later

/-- The steps before and after a step of a history are histories themselves. -/
theorem history_split {first last : List Step} (split : history b ops = first ++ t :: last) :
    (∃ fore, first = history b fore ∧ t.before = b.run fore) ∧
      ∃ more, last = history t.after more ∧ b.run ops = t.after.run more := by
  induction first generalizing b ops with
  | nil =>
    cases ops with
    | nil => cases split
    | cons op ops =>
      cases split
      exact ⟨⟨[], rfl, rfl⟩, ops, rfl, rfl⟩
  | cons f first ih =>
    cases ops with
    | nil => cases split
    | cons op ops =>
      obtain ⟨rfl, rest⟩ := List.cons.inj split
      obtain ⟨⟨fore, before, leads⟩, after⟩ := ih rest
      exact ⟨⟨op :: fore, congrArg _ before, leads⟩, after⟩

theorem run_of_mem_history (member : e ∈ history b ops) :
    ∃ more, b.run ops = e.after.run more := by
  obtain ⟨first, last, split⟩ := List.append_of_mem member
  obtain ⟨_, more, _, leads⟩ := history_split split
  exact ⟨more, leads⟩

theorem offset_le_run (b : Builder) (ops : List Op) : b.offset ≤ (b.run ops).offset :=
  (history_keeps (P := fun b' => b.offset ≤ b'.offset)
    (fun s before => Nat.le_trans before (offset_le s)) (Nat.le_refl _)).1

theorem tracked_empty : ({} : Builder).Tracked := ⟨Nat.le_refl 0, by simp [labelDepth?]⟩

/-- The greatest depth at the end covers the depths on both sides of each step. -/
theorem depth_le_of_mem_history (tracked : b.Tracked) (member : e ∈ history b ops) :
    e.before.depth ≤ (b.run ops).maxDepth ∧ e.after.depth ≤ (b.run ops).maxDepth := by
  have before : e.before.Tracked :=
    (history_keeps (P := Tracked) (fun s => s.follows.tracked) tracked).2 e member
  obtain ⟨more, leads⟩ := run_of_mem_history member
  have later : e.after.maxDepth ≤ (b.run ops).maxDepth := by
    rw [leads]
    exact (history_keeps (P := fun b' => e.after.maxDepth ≤ b'.maxDepth)
      (fun s before => Nat.le_trans before s.follows.maxDepth) (Nat.le_refl _)).1
  have now := e.follows.maxDepth
  have depth := before.depth
  have left := (e.follows.tracked before).depth
  omega

/-- The limit stays unset when no operation sets it. -/
theorem maxOverride_run (free : ∀ op ∈ ops, op.setsLimit = false) (b : Builder) :
    (b.run ops).maxOverride = b.maxOverride := by
  induction ops generalizing b with
  | nil => rfl
  | cons op ops ih =>
    obtain ⟨first, rest⟩ := List.forall_mem_cons.mp free
    exact (ih rest _).trans ((Step.follows ⟨b, op⟩).maxOverride first)

/-- Control may come here, with a depth that the builder does not underestimate. -/
def Ready (d : Nat) (b : Builder) : Prop := b.reachable = true ∧ d ≤ b.depth

theorem Ready.mono (ready : b.Ready d) (less : n ≤ d) : b.Ready n :=
  ⟨ready.1, Nat.le_trans less ready.2⟩

/-- A builder stays ready until the next instruction is emitted. -/
theorem Ready.until_emission (ready : b.Ready d) (member : e ∈ history b ops)
    (here : e.before.offset = b.offset) : e.before.Ready d := by
  induction ops generalizing b with
  | nil => cases member
  | cons op ops ih =>
    rcases List.mem_cons.mp member with rfl | later
    · exact ready
    · -- Offsets only grow, so this step has not emitted anything.
      have further : (b.apply op).2.offset ≤ e.before.offset :=
        (history_keeps (P := fun b' => (b.apply op).2.offset ≤ b'.offset)
          (fun s before => Nat.le_trans before (offset_le s)) (Nat.le_refl _)).2 e later
      have before : b.offset ≤ (b.apply op).2.offset := offset_le ⟨b, op⟩
      refine ih ?_ later (by omega)
      cases drafted : Step.draft? ⟨b, op⟩ with
      | none =>
        obtain ⟨reachable, more⟩ := (Step.follows ⟨b, op⟩).quiet drafted ready.1
        exact ⟨reachable, Nat.le_trans ready.2 more⟩
      | some pair =>
        obtain ⟨start, stop⟩ := offset_of_draft drafted
        have positive := pair.2.size_pos
        have start : b.offset = pair.1 := start
        have stop : (b.apply op).2.offset = pair.1 + pair.2.size := stop
        omega

/-- Where a step leaves a builder ready, it is ready for the instruction that is emitted there. -/
theorem Ready.at_emission {first last : List Step} (split : history b ops = first ++ t :: last)
    (ready : t.after.Ready d) (member : e ∈ history b ops) {i : Instruction}
    (drafted : e.draft? = some (t.after.offset, i)) : e.before.Ready d := by
  obtain ⟨here, behind⟩ := offset_of_draft drafted
  have positive := i.size_pos
  have moves := offset_le t
  obtain ⟨⟨fore, before, start⟩, more, after, _⟩ := history_split split
  rw [split] at member
  rcases List.mem_append.mp member with earlier | rest
  · -- What is emitted before `t` ends where `t` starts, or above.
    rw [before] at earlier
    obtain ⟨between, leads⟩ := run_of_mem_history earlier
    have passed := offset_le_run e.after between
    rw [← leads, ← start] at passed
    omega
  · rcases List.mem_cons.mp rest with rfl | later
    · omega
    · rw [after] at later
      exact ready.until_emission later here

/-- A step refers to a label with at least the depth, before the label is bound at the target. -/
def Announced (past : List Step) (depth target : Nat) : Prop :=
  ∃ first s middle t last label, past = first ++ s :: (middle ++ t :: last) ∧ s.RefersTo label ∧
    depth ≤ s.after.depth ∧ t.BindsLabel label ∧ t.before.offset = target

theorem Announced.ready (announced : Announced (history b ops) d o) (member : e ∈ history b ops)
    {i : Instruction} (drafted : e.draft? = some (o, i)) : e.before.Ready d := by
  obtain ⟨first, s, middle, t, last, label, split, refers, enough, binds, rfl⟩ := announced
  obtain ⟨n, noted, depth⟩ := refers.noted
  obtain ⟨_, more, after, _⟩ := history_split split
  have later : t ∈ history s.after more := by
    rw [← after]
    exact List.mem_append_right _ List.mem_cons_self
  -- The note of `s` is still there, or a greater one, when the label is bound.
  obtain ⟨n', found, kept⟩ : ∃ n', t.before.labelDepth? label = some n' ∧ n ≤ n' := by
    refine (history_keeps (P := fun b' => ∃ n', b'.labelDepth? label = some n' ∧ n ≤ n')
      ?_ ⟨n, noted, Nat.le_refl n⟩).2 t later
    rintro s ⟨n', before, kept⟩
    obtain ⟨n'', now, grown⟩ := s.follows.noted label n' before
    exact ⟨n'', now, Nat.le_trans kept grown⟩
  obtain ⟨silent, reachable, bound⟩ := binds.ready found
  rw [← offset_of_silent silent] at drafted
  have split : history b ops = (first ++ s :: middle) ++ t :: last := by
    rw [split, List.append_assoc, List.cons_append]
  exact Ready.at_emission split ⟨reachable, by omega⟩ member drafted

end CommandVM.Builder
