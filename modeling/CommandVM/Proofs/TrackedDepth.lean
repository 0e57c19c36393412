import CommandVM.Proofs.BuiltUnit
import CommandVM.Proofs.Builder.Depths
import CommandVM.Proofs.Verifier.Limit

/-!
# Where the followed depth suffices

A builder emits code in one pass, so it cannot foresee the depth at a place that control comes to
only from below. The limit that it computes covers each instruction that control reaches from above,
or through a label that was referred to with enough depth before it was bound.
-/

namespace CommandVM.Builder

open CommandVM.Verifier

variable {b : Builder} {ops : List Op} {past : List Step} {s : Step} {u : CompiledUnit} {l : Layout}
  {i j : Instruction} {o d depth target : Nat}

/-! ### Foreseen places -/

/-- Control may go from the instruction that a step emits to another one than the next. The depth is
the builder's: after a jump, and before an instruction that starts a loop or opens a handler. -/
inductive Leads (u : CompiledUnit) (o : Nat) (i : Instruction) (s : Step) : Nat → Nat → Prop
  | jump {target : Int} (jumps : i.jumpTarget? o = some target) :
    Leads u o i s target.toNat s.after.depth
  | loop {r : ExceptionRange} {target : UInt32} (member : r ∈ u.ranges) (kind : r.kind = .loop)
    (start : r.start.toNat = o)
    (has : r.breakTarget = some target ∨ r.continueTarget = some target) :
    Leads u o i s target.toNat s.before.depth
  | handler {r : ExceptionRange} {target : UInt32} (catches : i.opcode = .beginCatch4)
    (found : u.ranges[i.index]? = some r) (has : r.catchTarget = some target) :
    Leads u o i s target.toNat s.before.depth

/-- The builder can foresee the depth at an offset: at the start, behind an instruction whose depth
it foresees, and at a target of such an instruction that was announced. -/
inductive Foreseen (u : CompiledUnit) (l : Layout) (past : List Step) : Nat → Prop
  | start : Foreseen u l past 0
  | next {o : Nat} {i : Instruction} (foreseen : Foreseen u l past o)
    (here : l.instruction? o = some i) (goesOn : i.opcode.isTerminal = false) :
    Foreseen u l past (o + i.size)
  | target {o target depth : Nat} {i j : Instruction} {s : Step} (foreseen : Foreseen u l past o)
    (here : l.instruction? o = some i) (member : s ∈ past) (drafted : s.draft? = some (o, j))
    (leads : Leads u o i s target depth) (announced : Announced past depth target) :
    Foreseen u l past target

/-! ### Instructions and their drafts -/

/-- The instructions differ at most in their distance. -/
structure SameEffect (i j : Instruction) : Prop where
  opcode : i.opcode = j.opcode
  pops : i.pops = j.pops
  pushes : i.pushes = j.pushes

theorem sameEffect_of_isJump {opcode : Opcode} (jumps : opcode.isJump = true) (xs ys : List Int) :
    SameEffect ⟨opcode, xs⟩ ⟨opcode, ys⟩ := by
  unfold Opcode.isJump at jumps
  split at jumps
  case h_7 => cases jumps
  all_goals exact ⟨rfl, rfl, rfl⟩

theorem Step.Fills.sameEffect {pair : Nat × Instruction} (fills : s.Fills b pair) :
    ∃ j, s.draft? = some (pair.1, j) ∧ SameEffect pair.2 j := by
  obtain ⟨⟨place, j⟩, drafted, offset, filled⟩ := fills
  refine ⟨j, by rw [drafted, offset], ?_⟩
  rcases filled with ⟨_, same⟩ | ⟨fixup, target, found, _, same⟩
  · rw [same]
    exact ⟨rfl, rfl, rfl⟩
  · obtain ⟨opcode, present, jumps, _⟩ := draft?_of_fixup? found
    rw [drafted] at present
    obtain ⟨_, rfl⟩ := Prod.mk.inj (Option.some.inj present)
    rw [same]
    exact sameEffect_of_isJump jumps _ _

theorem exists_of_forall₂ {α β : Type} {R : α → β → Prop} {xs : List α} {ys : List β}
    (related : List.Forall₂ R xs ys) {x : α} (member : x ∈ xs) : ∃ y ∈ ys, R x y := by
  induction related with
  | nil => cases member
  | cons here _ ih =>
    rcases List.mem_cons.mp member with rfl | later
    · exact ⟨_, List.mem_cons_self, here⟩
    · obtain ⟨y, inside, there⟩ := ih later
      exact ⟨y, List.mem_cons_of_mem _ inside, there⟩

theorem Filled.draft_of_instruction (filled : Filled b past 0 l.instructions)
    (here : l.instruction? o = some i) :
    ∃ s ∈ past, ∃ j, s.draft? = some (o, j) ∧ SameEffect i j := by
  have flipped : List.Forall₂ (flip (Step.Fills b)) l.instructions
      (past.filter fun s => s.draft?.isSome) := List.Forall₂.flip filled.fills
  obtain ⟨s, listed, fills⟩ := exists_of_forall₂ flipped (mem_of_lookup here)
  exact ⟨s, (List.mem_filter.mp listed).1, Step.Fills.sameEffect fills⟩

theorem Filled.sameEffect (found : layout u = .ok l) (filled : Filled b past 0 l.instructions)
    (here : l.instruction? o = some i) (member : s ∈ past) (drafted : s.draft? = some (o, j)) :
    SameEffect i j := by
  have listed : s ∈ past.filter fun s => s.draft?.isSome :=
    List.mem_filter.mpr ⟨member, by rw [drafted]; rfl⟩
  obtain ⟨⟨place, k⟩, inside, fills⟩ := exists_of_forall₂ filled.fills listed
  obtain ⟨j', again, effect⟩ := fills.sameEffect
  rw [drafted] at again
  cases again
  obtain rfl := Option.some.inj (here.symm.trans (instruction?_of_mem found inside))
  exact effect

/-! ### What is foreseen is covered -/

/-- A builder that is ready for an instruction does not underestimate the depth after it. -/
theorem Ready.depthAfter_le (ready : s.before.Ready d) (drafted : s.draft? = some (o, j))
    (same : SameEffect i j) : depthAfter i d ≤ s.after.depth := by
  rw [(s.follows.emitted (o, j) drafted).1, depthAfter, same.pops, same.pushes]
  have enough := ready.2
  dsimp only
  omega

theorem Leads.below (leads : Leads u o i s target depth) {D : Nat → Option Nat}
    (passes : Passes u D o i d) (ready : s.before.Ready d)
    (after : depthAfter i d ≤ s.after.depth) : ∃ d', D target = some d' ∧ d' ≤ depth := by
  cases leads with
  | jump jumps =>
    refine ⟨_, passes.jump ?_ _ jumps, after⟩
    intro done
    simp [Instruction.jumpTarget?, done, Opcode.isJump] at jumps
  | loop member kind start has => exact ⟨d, passes.loop _ member kind start _ has, ready.2⟩
  | handler catches found has => exact ⟨d, passes.handler catches _ _ found has, ready.2⟩

/-- Where an instruction is emitted at a foreseen offset, the builder has at least the depth that
the walk notes there. -/
theorem Foreseen.ready (h : Unlimited u l) (filled : Filled b (history {} ops) 0 l.instructions)
    (foreseen : Foreseen u l (history {} ops) o) : ∃ d, (walk u l).depth? o = some d ∧
      ∀ e ∈ history {} ops, ∀ j, e.draft? = some (o, j) → e.before.Ready d := by
  induction foreseen with
  | start =>
    refine ⟨0, walk_zero h.toLaidOut, fun e member j drafted => ?_⟩
    have ready : ({} : Builder).Ready 0 := ⟨rfl, Nat.le_refl 0⟩
    exact ready.until_emission member (offset_of_draft drafted).1
  | @next o i _ here goesOn ih =>
    obtain ⟨d, reached, ready⟩ := ih
    obtain ⟨_, found, passes, _⟩ := walk_passes h.toLaidOut h.walk reached
    obtain rfl := Option.some.inj (here.symm.trans found)
    obtain ⟨s, member, j, drafted, same⟩ := filled.draft_of_instruction here
    have before := ready s member j drafted
    -- The step that emits the instruction leaves the builder ready for the next one.
    have after : s.after.Ready (depthAfter i d) := by
      refine ⟨?_, before.depthAfter_le drafted same⟩
      rw [(s.follows.emitted _ drafted).2, before.1, ← same.opcode, goesOn]
      rfl
    obtain ⟨first, last, split⟩ := List.append_of_mem member
    refine ⟨_, passes.next goesOn, fun e inside j' emitted => ?_⟩
    apply after.at_emission split inside
    rw [(offset_of_draft drafted).2, Instruction.size, ← same.opcode]
    exact emitted
  | target _ here member drafted leads announced ih =>
    obtain ⟨d, reached, ready⟩ := ih
    obtain ⟨i, found, passes, _⟩ := walk_passes h.toLaidOut h.walk reached
    obtain rfl := Option.some.inj (here.symm.trans found)
    have before := ready _ member _ drafted
    have same := filled.sameEffect h.layout here member drafted
    -- The walk enters the target with no more than the depth that was announced.
    obtain ⟨d', lands, below⟩ := leads.below passes before (before.depthAfter_le drafted same)
    exact ⟨d', lands, fun e inside j' emitted => (announced.ready inside emitted).mono below⟩

theorem Foreseen.covers (h : Unlimited u l)
    (filled : Filled b (history {} ops) 0 l.instructions)
    (limit : u.maxStack.toNat = (run {} ops).maxDepth)
    (foreseen : Foreseen u l (history {} ops) o) : LimitCovers u l o := by
  intro i d here reached
  obtain ⟨d', known, ready⟩ := foreseen.ready h filled
  rw [h.assigned_eq, known] at reached
  obtain rfl := Option.some.inj reached
  obtain ⟨s, member, j, drafted, same⟩ := filled.draft_of_instruction here
  have before := ready s member j drafted
  obtain ⟨low, high⟩ := depth_le_of_mem_history tracked_empty member
  rw [limit]
  exact ⟨Nat.le_trans before.2 low, fun _ =>
    Nat.le_trans (before.depthAfter_le drafted same) high⟩

/-! ### The limit of a finished unit -/

theorem maxStack_of_finish (finished : b.finish = .ok u) :
    u.maxStack = b.maxOverride.getD (UInt32.ofNat b.maxDepth) := by
  obtain ⟨code, _, finished⟩ := Container.bind_eq_ok finished
  obtain ⟨ranges, _, finished⟩ := Container.bind_eq_ok finished
  obtain ⟨commands, _, finished⟩ := Container.bind_eq_ok finished
  cases finished
  rfl

/-- The limit that was computed is the greatest depth, as a number of 32 bits. -/
theorem maxStack_of_unset (free : ∀ op ∈ ops, op.setsLimit = false)
    (finished : (run {} ops).finish = .ok u) :
    u.maxStack = UInt32.ofNat (run {} ops).maxDepth := by
  rw [maxStack_of_finish finished, maxOverride_run free]
  rfl

/-- The operations foresee the depth at an offset, and the greatest depth has 32 bits. -/
def Foresees (ops : List Op) (u : CompiledUnit) (l : Layout) (o : Nat) : Prop :=
  (run {} ops).maxDepth < UInt32.size ∧ Foreseen u l (history {} ops) o

theorem Foresees.covers (free : ∀ op ∈ ops, op.setsLimit = false)
    (finished : (run {} ops).finish = .ok u) (h : Unlimited u l) (foresees : Foresees ops u l o) :
    LimitCovers u l o := by
  have records : Records (history {} ops) (run {} ops) := records_empty.run ops
  obtain ⟨instructions, _, decodes, filled⟩ := filled_of_finish records finished
  rw [(layout_eq h.layout).2.1] at decodes
  cases decodes
  refine foresees.2.covers h filled ?_
  rw [maxStack_of_unset free finished, UInt32.toNat_ofNat_of_lt' foresees.1]

/-- What the computed limit covers: the instructions that were foreseen, and just in accepted units
the others as well. -/
def LimitReaches (ops : List Op) (u : CompiledUnit) (l : Layout) : Prop :=
  (∀ o, Foresees ops u l o → LimitCovers u l o) ∧
    (errors u = [] ↔ ∀ o, ¬ Foresees ops u l o → LimitCovers u l o)

theorem limitReaches_of_finish (free : ∀ op ∈ ops, op.setsLimit = false)
    (finished : (run {} ops).finish = .ok u) (only : ∀ e ∈ errors u, e.isLimit = true) :
    ∃ l, layout u = .ok l ∧ LimitReaches ops u l := by
  obtain ⟨l, h⟩ := unlimited_of_errors only
  refine ⟨l, h.layout, fun o foresees => foresees.covers free finished h, ?_⟩
  rw [h.errors_eq_nil_iff]
  constructor
  · intro covers o _
    exact covers o
  · intro rest o
    by_cases foresees : Foresees ops u l o
    · exact foresees.covers free finished h
    · exact rest o foresees

/-- Operations that do not set the limit lead from the empty builder to this one. -/
def ReachedUnset (b : Builder) : Prop := ∃ ops, (∀ op ∈ ops, op.setsLimit = false) ∧ run {} ops = b

theorem ReachedUnset.apply (reached : ReachedUnset b) {op : Op} (free : op.setsLimit = false) :
    ReachedUnset (b.apply op).2 := by
  obtain ⟨ops, unset, rfl⟩ := reached
  refine ⟨ops ++ [op], ?_, run_append _ _ _⟩
  intro op' member
  rcases List.mem_append.mp member with before | last
  · exact unset op' before
  · rw [List.mem_singleton.mp last]
    exact free

/-- A listing without the directive for it is assembled by operations that do not set the limit. -/
theorem assembled_unset {text : String}
    (free : (Text.lines text.toList).any Listing.limitsStack = false)
    (assembled : Listing.assemble text = .ok u) :
    ∃ ops, (∀ op ∈ ops, op.setsLimit = false) ∧ (run {} ops).finish = .ok u := by
  have limits : (Text.lines text.toList).any Listing.limitsStack = true →
      ∀ b depth, ReachedUnset b → ReachedUnset (b.setMaxStack depth) := by
    rw [free]
    nofun
  obtain ⟨_, ⟨ops, unset, rfl⟩, finished⟩ := Listing.assemble_keeps (P := ReachedUnset)
    (fun _ _ other reached => reached.apply other) ⟨[], by simp, rfl⟩ limits assembled
  exact ⟨ops, unset, finished⟩

/-- Where a unit has no error but for its limit, and the limit was left to the builder, the limit
covers all instructions whose depth the builder could foresee. So it suffices exactly when it covers
the others too. A unit that is assembled without a limit is one of these. -/
theorem computed_limit_covers_foreseen (u : CompiledUnit)
    (only : ∀ e ∈ errors u, e.isLimit = true) :
    (∀ ops, (∀ op ∈ ops, Op.setsLimit op = false) → (run {} ops).finish = .ok u →
      ∃ l, layout u = .ok l ∧ LimitReaches ops u l) ∧
    ∀ text, (Text.lines text.toList).any Listing.limitsStack = false →
      Listing.assemble text = .ok u →
      ∃ ops l, (∀ op ∈ ops, op.setsLimit = false) ∧ (run {} ops).finish = .ok u ∧
        layout u = .ok l ∧ LimitReaches ops u l := by
  constructor
  · intro ops free finished
    exact limitReaches_of_finish free finished only
  · intro text free assembled
    obtain ⟨ops, unset, finished⟩ := assembled_unset free assembled
    obtain ⟨l, found, reaches⟩ := limitReaches_of_finish unset finished only
    exact ⟨ops, l, unset, finished, found, reaches⟩

/-- Names the target of a loop two values before the loop starts. -/
def namedEarlyOps : List Op :=
  [.newLabel, .newLabel, .addRange .loop 0 1, .setBreak 0 1, .push "1", .push "2", .bind 0,
    .emit .breakLoop [], .bind 1, .push "3", .emit .pop [], .emit .pop [], .emit .done []]

/-- Jumps back, with three values, to a label that is defined behind a jump. -/
def fromBelowText : String :=
  "JUMP1 a\nb: PUSH1 \"x\"\nPOP\nPOP\nPOP\nDONE\na: PUSH1 \"1\"\nPUSH1 \"2\"\nPUSH1 \"3\"\nJUMP1 b"

theorem fromBelowText_errors : (Text.lines fromBelowText.toList).any Listing.limitsStack = false ∧
    (Listing.assemble fromBelowText).toOption.map errors = some [.maxDepthTooSmall 3 4] := by
  decide +kernel

/-- The computed limit is too small for a target that was named with less depth than its loop starts
with, and for a place that is reached from below only. -/
theorem fromBelow_limit_too_small :
    (∀ op ∈ namedEarlyOps, op.setsLimit = false) ∧
      (run {} namedEarlyOps).finish.toOption.map errors = some [.maxDepthTooSmall 2 3] ∧
      (Text.lines fromBelowText.toList).any Listing.limitsStack = false ∧
      (Listing.assemble fromBelowText).toOption.map errors = some [.maxDepthTooSmall 3 4] :=
  ⟨by decide, by decide +kernel, fromBelowText_errors⟩

/-- Leaves a loop by a jump and by `BREAK`, both to a label that is bound behind the loop. -/
def leavingOps : List Op :=
  [.newLabel, .beginRange .loop, .setBreak 0 0, .push "1", .jump .jumpTrue1 0,
    .emit .breakLoop [], .endRange 0, .bind 0, .push "x", .emit .done []]

def leavingUnit : CompiledUnit where
  code := [0x01, 0, 0x29, 3, 0x46, 0x01, 1, 0x00]
  literals := [.text "1", .text "x"]
  ranges := [{ kind := .loop, level := 0, start := 0, size := 5, breakTarget := some 5,
               continueTarget := none, catchTarget := none }]
  maxStack := 1

theorem leavingUnit_announced : Announced (history {} leavingOps) 0 5 :=
  ⟨history {} (leavingOps.take 2), ⟨run {} (leavingOps.take 2), .setBreak 0 0⟩,
    history (run {} (leavingOps.take 3)) ((leavingOps.take 7).drop 3),
    ⟨run {} (leavingOps.take 7), .bind 0⟩, history (run {} (leavingOps.take 8)) (leavingOps.drop 8),
    0, rfl, ⟨by decide, .inr ⟨0, .inl rfl⟩⟩, Nat.zero_le _, ⟨rfl, rfl⟩, rfl⟩

/-- The end of the loop is foreseen; in the listing above some place is not. -/
theorem leavingOps_limit_reaches :
    ((run {} leavingOps).finish = .ok leavingUnit ∧ errors leavingUnit = [] ∧
      ∃ l, layout leavingUnit = .ok l ∧ LimitReaches leavingOps leavingUnit l ∧
        Foresees leavingOps leavingUnit l 5) ∧
    ∃ u, Listing.assemble fromBelowText = .ok u ∧ errors u = [.maxDepthTooSmall 3 4] ∧
      ∃ ops l, layout u = .ok l ∧ LimitReaches ops u l ∧ ∃ o, ¬ Foresees ops u l o := by
  constructor
  · have finished : (run {} leavingOps).finish = .ok leavingUnit := by rfl
    have clean : errors leavingUnit = [] := by decide
    obtain ⟨l, found, reaches⟩ := (computed_limit_covers_foreseen leavingUnit
      (by rw [clean]; nofun)).1 leavingOps (by decide) finished
    refine ⟨finished, clean, l, found, reaches, by decide, ?_⟩
    cases found
    have leads : Leads leavingUnit 0 ⟨.push1, [0]⟩ ⟨run {} (leavingOps.take 3), .push "1"⟩
        (5 : UInt32).toNat 0 := .loop List.mem_cons_self rfl rfl (.inl rfl)
    exact .target (s := ⟨run {} (leavingOps.take 3), .push "1"⟩) .start rfl
      (List.getElem_mem (n := 3) (by decide)) rfl leads leavingUnit_announced
  · obtain ⟨free, wrong⟩ := fromBelowText_errors
    cases assembled : Listing.assemble fromBelowText with
    | error e =>
      rw [assembled] at wrong
      cases wrong
    | ok u =>
      rw [assembled] at wrong
      have wrong : errors u = [.maxDepthTooSmall 3 4] := Option.some.inj wrong
      obtain ⟨ops, l, _, _, found, reaches⟩ := (computed_limit_covers_foreseen u
        (by rw [wrong]; decide)).2 fromBelowText free assembled
      refine ⟨u, rfl, wrong, ops, l, found, reaches, ?_⟩
      apply Classical.not_forall.mp
      intro all
      have clean := reaches.2.mpr fun o unforeseen => absurd (all o) unforeseen
      rw [wrong] at clean
      cases clean

end CommandVM.Builder
