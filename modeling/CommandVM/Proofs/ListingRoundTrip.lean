import CommandVM.Proofs.ContainerRoundTrip
import CommandVM.Proofs.Listing.Code
import CommandVM.Proofs.ValueViews

/-!
# Assembling a disassembled unit

A unit whose code decodes, whose tables refer to starts of instructions or to the end of the code,
and whose ranges carry the levels of their nesting is found again in its canonical listing.
-/

namespace CommandVM

/-! ### Resolving labels -/

namespace Builder

open CommandVM.Listing
open CommandVM.Container (ok_bind)
open CommandVM.Instruction (codeOf codeOf_cons)

/-- Each label is bound to the offset that it stands for. -/
def Resolves (names : List String) (b : Builder) : Prop :=
  ∀ label o, Marks names label o →
    b.resolve label = .ok (UInt32.ofNat o) ∧ (UInt32.ofNat o).toNat = o

variable {names : List String} {b : Builder}

theorem resolve_toNat (resolves : Resolves names b) {label : Nat} {w : UInt32}
    (marks : Marks names label w.toNat) : b.resolve label = .ok w := by
  rw [(resolves label _ marks).1, UInt32.ofNat_toNat]

theorem resolveTarget_of_rel (resolves : Resolves names b) {target : Option Nat}
    {given : Option UInt32}
    (marks : Option.Rel (fun label o => Marks names label o.toNat) target given) :
    b.resolveTarget target = .ok given := by
  cases marks with
  | none => rfl
  | some here =>
    rw [resolveTarget, resolve_toNat resolves here]
    rfl

/-- A range before its level is known. -/
def unlevelled (r : ExceptionRange) : ExceptionRange := { r with level := 0 }

theorem resolveRange_of_marks (resolves : Resolves names b) {p : PendingRange} {r : ExceptionRange}
    (marks : MarksRange names p r) (fits : r.start.toNat + r.size.toNat < UInt32.size) :
    b.resolveRange p = .ok (unlevelled r) := by
  obtain ⟨stop, exact_stop⟩ := resolves _ _ marks.stop
  have size : UInt32.ofNat (r.stop - r.start.toNat) = r.size := by
    rw [ExceptionRange.stop_eq fits, Nat.add_sub_cancel_left, UInt32.ofNat_toNat]
  unfold resolveRange
  rw [resolve_toNat resolves marks.start, stop, resolveTarget_of_rel resolves marks.breakTarget,
    resolveTarget_of_rel resolves marks.continueTarget,
    resolveTarget_of_rel resolves marks.catchTarget]
  simp only [ok_bind, exact_stop, size, marks.kind]
  rfl

theorem resolveCommand_of_marks (resolves : Resolves names b) {p : PendingCommand}
    {c : CommandLocation} (marks : MarksCommand names p c)
    (fits : c.codeStart.toNat + c.codeSize.toNat < UInt32.size) : b.resolveCommand p = .ok c := by
  obtain ⟨stop, exact_stop⟩ := resolves _ _ marks.stop
  have size : UInt32.ofNat (commandStop c - c.codeStart.toNat) = c.codeSize := by
    rw [commandStop_eq fits, Nat.add_sub_cancel_left, UInt32.ofNat_toNat]
  unfold resolveCommand
  rw [resolve_toNat resolves marks.start, stop]
  simp only [ok_bind, exact_stop, size, marks.sourceStart, marks.sourceSize]
  rfl

theorem mapM_of_forall₂ {ε α β : Type} {f : α → Except ε β} {xs : List α} {ys : List β}
    (each : List.Forall₂ (fun x y => f x = .ok y) xs ys) : xs.mapM f = .ok ys := by
  induction each with
  | nil => rfl
  | cons here _ ih =>
    rw [List.mapM_cons, here, ih]
    rfl

/-! ### Levels -/

theorem withLevels_unlevelled {earlier rest : List ExceptionRange}
    (levels : ∀ k r, rest[k]? = some r →
      r.level.toNat = ((earlier ++ rest.take k).filter (·.encloses r)).length) :
    withLevels (earlier.map unlevelled) (rest.map unlevelled) = rest := by
  induction rest generalizing earlier with
  | nil => rfl
  | cons r rest ih =>
    have here := levels 0 r rfl
    rw [List.take_zero, List.append_nil] at here
    -- Whether a range encloses another does not depend on their levels.
    have level : levelAmong (earlier.map unlevelled) (unlevelled r) = r.level.toNat := by
      rw [here, levelAmong, List.filter_map, List.length_map]
      rfl
    have others : ∀ k s, rest[k]? = some s →
        s.level.toNat = (((earlier ++ [r]) ++ rest.take k).filter (·.encloses s)).length := by
      intro k s found
      have there := levels (k + 1) s found
      rwa [List.take_succ_cons, ← List.singleton_append, ← List.append_assoc] at there
    have later := ih others
    rw [List.map_append] at later
    rw [List.map_cons, withLevels, level, UInt32.ofNat_toNat]
    show _ :: withLevels (earlier.map unlevelled ++ [r].map unlevelled) _ = _
    rw [later]
    rfl

/-! ### Distances -/

theorem encode_of_isJump {i : Instruction} (fits : i.Fits) (jumps : i.opcode.isJump = true) :
    (distanceKind i.opcode).fits (i.operand 0) = true ∧
      i.encode = i.opcode.byte :: Instruction.encodeOperand (distanceKind i.opcode) (i.operand 0) := by
  obtain ⟨count, fit⟩ := fits
  rw [operands_of_isJump jumps] at count fit
  obtain ⟨value, only⟩ := List.length_eq_one_iff.mp count
  have first : i.operand 0 = value := by
    rw [Instruction.operand, only]
    rfl
  rw [only] at fit
  refine ⟨?_, ?_⟩
  · rw [first]
    exact fit (distanceKind i.opcode, value) List.mem_cons_self
  · rw [Instruction.encode, operands_of_isJump jumps, only, first]
    simp only [Instruction.encodeOperands, List.append_nil]

theorem patch_operand {before after old new : List UInt8} (byte : UInt8)
    (size : old.length = new.length) :
    patch (before ++ (byte :: old ++ after)) (before.length + 1) new =
      before ++ (byte :: new ++ after) := by
  unfold patch
  have start : (before ++ (byte :: old ++ after)).take (before.length + 1) = before ++ [byte] := by
    rw [List.take_append, List.take_of_length_le (by omega)]
    simp
  have rest : (before ++ (byte :: old ++ after)).drop (before.length + 1 + new.length) = after := by
    rw [List.drop_append]
    simp [← size, Nat.add_assoc, Nat.add_comm 1]
  rw [start, rest]
  simp

theorem applyFixup_of_marks {boundaries : List Nat} (resolves : Resolves names b)
    {i : Instruction} {target : Nat} {fixup : Fixup} {before after : List UInt8} (fits : i.Fits)
    (found : shownTarget? boundaries before.length i = some target)
    (marks : MarksJump names fixup ⟨before.length, i.opcode, target⟩) :
    b.applyFixup (before ++ ((draft (shownTarget? boundaries) (before.length, i)).encode ++ after))
      fixup = .ok (before ++ (i.encode ++ after)) := by
  obtain ⟨jumps, _, lands⟩ := isJump_of_shownTarget? found
  obtain ⟨bound_there, exact_target⟩ := resolves _ _ marks.label
  obtain ⟨in_range, encoded⟩ := encode_of_isJump fits jumps
  have distance : ((UInt32.ofNat target).toNat : Int) - before.length = i.operand 0 := by
    rw [exact_target]
    show (target : Int) - before.length = i.operand 0
    omega
  have drafted : (draft (shownTarget? boundaries) (before.length, i)).encode =
      i.opcode.byte :: Instruction.encodeOperand (distanceKind i.opcode) 0 := by
    rw [draft, found]
    exact (encode_of_isJump (fits_zero jumps) jumps).2
  unfold applyFixup
  rw [bound_there, ok_bind]
  simp only [marks.offset, distance, marks.kind, in_range, if_true]
  rw [drafted, encoded, patch_operand]
  · rfl
  · rw [Instruction.length_encodeOperand, Instruction.length_encodeOperand]

theorem foldlM_applyFixup {boundaries : List Nat} (resolves : Resolves names b)
    {rest : List (Nat × Instruction)} {before : List UInt8} {fixups : List Fixup}
    (consecutive : Instruction.Consecutive before.length rest)
    (fit : ∀ pair ∈ rest, pair.2.Fits)
    (marks : List.Forall₂ (MarksJump names) fixups
      (rest.filterMap (shownJump? (shownTarget? boundaries)))) :
    fixups.foldlM b.applyFixup
        (before ++ rest.flatMap fun pair => (draft (shownTarget? boundaries) pair).encode) =
      .ok (before ++ codeOf rest) := by
  -- Fixups come in the order of their jumps, so the code before the next jump is final.
  induction rest generalizing before fixups with
  | nil =>
    cases marks
    rfl
  | cons pair rest ih =>
    obtain ⟨o, i⟩ := pair
    obtain ⟨rfl, consecutive⟩ := consecutive
    have fits : i.Fits := fit _ List.mem_cons_self
    have fit_rest : ∀ pair ∈ rest, pair.2.Fits := fun pair member =>
      fit pair (List.mem_cons_of_mem _ member)
    have next : Instruction.Consecutive (before ++ i.encode).length rest := by
      rwa [List.length_append, Instruction.length_encode _ fits.1]
    have code : before ++ codeOf ((before.length, i) :: rest) =
        before ++ i.encode ++ codeOf rest := by
      rw [codeOf_cons, List.append_assoc]
    rw [code, List.flatMap_cons]
    cases found : shownTarget? boundaries before.length i with
    | none =>
      rw [List.filterMap_cons, shownJump?, found] at marks
      have same : draft (shownTarget? boundaries) (before.length, i) = i := by
        rw [draft, found]
      rw [same, ← List.append_assoc]
      exact ih next fit_rest marks
    | some target =>
      rw [List.filterMap_cons, shownJump?, found] at marks
      cases marks with
      | cons here others =>
        rw [List.foldlM_cons, applyFixup_of_marks resolves fits found here, ok_bind,
          ← List.append_assoc]
        exact ih next fit_rest others

end Builder

namespace Listing

open CommandVM.Container (ok_bind strs_map_text)

/-! ### Units with a canonical listing -/

/-- The offsets of the instructions and the end of the code. -/
def boundaries (u : CompiledUnit) (instructions : List (Nat × Instruction)) : List Nat :=
  instructions.map Prod.fst ++ [u.code.length]

/-- The code decodes to the instructions, the tables refer to boundaries, and each level is the
number of earlier ranges around the range. -/
structure Listable (u : CompiledUnit) (instructions : List (Nat × Instruction)) : Prop where
  small : u.code.length < UInt32.size
  decodes : Instruction.decodeAll u.code = .ok instructions
  ranges : ∀ r ∈ u.ranges, r.start.toNat ∈ boundaries u instructions ∧
    r.start.toNat + r.size.toNat ∈ boundaries u instructions ∧
    (∀ o ∈ r.breakTarget, o.toNat ∈ boundaries u instructions) ∧
    (∀ o ∈ r.continueTarget, o.toNat ∈ boundaries u instructions) ∧
    ∀ o ∈ r.catchTarget, o.toNat ∈ boundaries u instructions
  commands : ∀ c ∈ u.commands, c.codeStart.toNat ∈ boundaries u instructions ∧
    c.codeStart.toNat + c.codeSize.toNat ∈ boundaries u instructions
  levels : ∀ k r, u.ranges[k]? = some r →
    r.level.toNat = ((u.ranges.take k).filter (·.encloses r)).length

/-- The offsets that the listing has labels for. -/
def referenced (u : CompiledUnit) (instructions : List (Nat × Instruction)) : List Nat :=
  tableOffsets u ++
    instructions.filterMap fun (offset, i) => shownTarget? (boundaries u instructions) offset i

namespace Listable

variable {u : CompiledUnit} {instructions : List (Nat × Instruction)}

theorem lt_length (listable : Listable u instructions) :
    ∀ pair ∈ instructions, pair.1 < u.code.length := by
  intro pair member
  obtain ⟨consecutive, fit, code⟩ := Instruction.decodeAll_eq_ok listable.decodes
  have inside := Instruction.lt_of_consecutive consecutive fit member
  rwa [code, Nat.zero_add] at inside

theorem lt_size (listable : Listable u instructions) :
    ∀ o ∈ boundaries u instructions, o < UInt32.size := by
  intro o member
  have small := listable.small
  rcases List.mem_append.mp member with start | last
  · obtain ⟨pair, inside, rfl⟩ := List.mem_map.mp start
    have := listable.lt_length pair inside
    omega
  · rw [List.mem_singleton.mp last]
    exact small

theorem range_fits (listable : Listable u instructions) {r : ExceptionRange}
    (member : r ∈ u.ranges) : r.start.toNat + r.size.toNat < UInt32.size :=
  listable.lt_size _ (listable.ranges r member).2.1

theorem command_fits (listable : Listable u instructions) {c : CommandLocation}
    (member : c ∈ u.commands) : c.codeStart.toNat + c.codeSize.toNat < UInt32.size :=
  listable.lt_size _ (listable.commands c member).2

theorem tableOffsets_boundaries (listable : Listable u instructions) :
    ∀ o ∈ tableOffsets u, o ∈ boundaries u instructions := by
  intro o member
  rcases List.mem_append.mp member with of_range | of_command
  · obtain ⟨r, inside, here⟩ := List.mem_flatMap.mp of_range
    obtain ⟨start, stop, leave, again, handler⟩ := listable.ranges r inside
    rcases List.mem_cons.mp here with rfl | here
    · exact start
    · rcases List.mem_cons.mp here with rfl | here
      · rw [ExceptionRange.stop_eq (listable.range_fits inside)]
        exact stop
      · obtain ⟨t, target, rfl⟩ := List.mem_map.mp here
        rw [rangeTargets_eq, List.mem_append, List.mem_append] at target
        rcases target with (given | given) | given
        · obtain ⟨o, present, rfl⟩ := mem_target.mp given
          exact leave o present
        · obtain ⟨o, present, rfl⟩ := mem_target.mp given
          exact again o present
        · obtain ⟨o, present, rfl⟩ := mem_target.mp given
          exact handler o present
  · obtain ⟨c, inside, here⟩ := List.mem_flatMap.mp of_command
    obtain ⟨start, stop⟩ := listable.commands c inside
    rcases List.mem_cons.mp here with rfl | here
    · exact start
    · rw [List.mem_singleton.mp here, commandStop_eq (listable.command_fits inside)]
      exact stop

theorem referenced_boundaries (listable : Listable u instructions) :
    ∀ o ∈ referenced u instructions, o ∈ boundaries u instructions := by
  intro o member
  rcases List.mem_append.mp member with table | jump
  · exact listable.tableOffsets_boundaries o table
  · obtain ⟨pair, _, found⟩ := List.mem_filterMap.mp jump
    exact (isJump_of_shownTarget? found).2.1

/-! ### Finishing -/

theorem finish_of_holds (listable : Listable u instructions) {a : Assembly}
    (held : a.Holds (shownTarget? (boundaries u instructions)) (referenced u instructions)
      (boundaries u instructions) { tablePart u with instructions }) :
    ∃ v, finish a = .ok v ∧ v.Same u := by
  obtain ⟨consecutive, fit, code⟩ := Instruction.decodeAll_eq_ok listable.decodes
  have bound := listable.referenced_boundaries
  have resolves : a.builder.Resolves a.names := by
    intro label o marks
    obtain ⟨used, found⟩ := held.labelled.resolve marks bound
    exact ⟨found, UInt32.toNat_ofNat_of_lt' (listable.lt_size o (bound o used))⟩
  have described := held.describes
  have patched : a.builder.fixups.foldlM a.builder.applyFixup a.builder.code = .ok u.code := by
    have start : Instruction.Consecutive ([] : List UInt8).length instructions := consecutive
    have filled := Builder.foldlM_applyFixup resolves start fit described.fixups
    rw [described.code]
    rw [List.nil_append, List.nil_append, code] at filled
    exact filled
  have ranges : a.builder.ranges.mapM a.builder.resolveRange =
      .ok (u.ranges.map Builder.unlevelled) := by
    apply Builder.mapM_of_forall₂
    rw [List.forall₂_map_right_iff]
    refine List.forall₂_iff_zip.mpr ⟨described.ranges.length_eq, fun paired => ?_⟩
    exact Builder.resolveRange_of_marks resolves
      ((List.forall₂_iff_zip.mp described.ranges).2 paired)
      (listable.range_fits (List.of_mem_zip paired).2)
  have commands : a.builder.commands.mapM a.builder.resolveCommand = .ok u.commands := by
    apply Builder.mapM_of_forall₂
    refine List.forall₂_iff_zip.mpr ⟨described.commands.length_eq, fun paired => ?_⟩
    exact Builder.resolveCommand_of_marks resolves
      ((List.forall₂_iff_zip.mp described.commands).2 paired)
      (listable.command_fits (List.of_mem_zip paired).2)
  have levels : Builder.withLevels [] (u.ranges.map Builder.unlevelled) = u.ranges := by
    have nested : ∀ (k : Nat) (r : ExceptionRange), u.ranges[k]? = some r →
        r.level.toNat = ((([] : List ExceptionRange) ++ u.ranges.take k).filter (·.encloses r)).length :=
      listable.levels
    exact Builder.withLevels_unlevelled nested
  refine ⟨{ u with literals := a.builder.literals }, ?_, rfl, ?_, rfl, rfl, rfl, rfl, rfl, rfl⟩
  · rw [Listing.finish, held.labelled.firstUndefined bound]
    have finished : a.builder.finish = .ok { u with literals := a.builder.literals } := by
      unfold Builder.finish
      rw [patched, ok_bind, ranges, ok_bind, commands, ok_bind, levels, described.maxStack,
        described.locals, described.foreachInfos, described.source]
      rfl
    rw [finished]
  · show Value.strs a.builder.literals = Value.strs u.literals
    rw [described.literals, strs_map_text]
    exact Value.strs_eq_map.symm

/-! ### Reading the listing -/

theorem takes_listing (listable : Listable u instructions) :
    Takes (tableLines u ++
        (instructions.flatMap fun (o, i) => labelLine (referenced u instructions) o ++
          [instructionLine (boundaries u instructions) o i]) ++
        labelLine (referenced u instructions) u.code.length)
      (Assembly.Holds (shownTarget? (boundaries u instructions)) (referenced u instructions) [] {})
      (Assembly.Holds (shownTarget? (boundaries u instructions)) (referenced u instructions)
        (boundaries u instructions) { tablePart u with instructions }) := by
  obtain ⟨consecutive, fit, code⟩ := Instruction.decodeAll_eq_ok listable.decodes
  have shown : ∀ pair ∈ instructions, ∀ t,
      shownTarget? (boundaries u instructions) pair.1 pair.2 = some t →
      t ∈ referenced u instructions := fun pair member t found =>
    List.mem_append_right _ (List.mem_filterMap.mpr ⟨pair, member, found⟩)
  have fresh : u.code.length ∉ instructions.map Prod.fst := by
    intro member
    obtain ⟨pair, inside, same⟩ := List.mem_map.mp member
    have := listable.lt_length pair inside
    omega
  have all_fit : ∀ pair ∈ ([] : List (Nat × Instruction)) ++ instructions, pair.2.Fits := fit
  refine (Takes.append (takes_tableLines fun o member => List.mem_append_left _ member)
    (takes_code (tablePart u) shown all_fit (by simp) consecutive)).append ?_
  refine (takes_labelLine fresh).weaken fun a held => ⟨held, ?_⟩
  rw [held.offset all_fit]
  exact congrArg List.length code

end Listable

/-- A unit with a canonical listing is found again in it. -/
theorem assemble_disassemble {u : CompiledUnit} {instructions : List (Nat × Instruction)}
    (listable : Listable u instructions) :
    ∃ text v, disassemble u = .ok text ∧ assemble text = .ok v ∧ v.Same u := by
  obtain ⟨a, held, assembled⟩ := listable.takes_listing.assemble Assembly.holds_empty
  obtain ⟨v, finished, same⟩ := listable.finish_of_holds held
  refine ⟨_, v, ?_, assembled.trans finished, same⟩
  unfold disassemble
  rw [listable.decodes]
  rfl

/-- A unit with equal literals, locals, ranges and commands, texts that need escapes, a jump to the
end of the code, one back to its start and one into itself, and foreach loops over nothing. -/
def knottedUnit : CompiledUnit where
  code := [0x01, 0, 0x27, 1, 0x28, 0xfc, 0xff, 0xff, 0xff, 0x27, 3, 0x00]
  literals := [.list [.text "a b", .text ""], .text "\"é\n\\;\u2028\x07", .text "\"é\n\\;\u2028\x07"]
  ranges := [
    { kind := .catch, level := 0, start := 0, size := 12, breakTarget := none,
      continueTarget := none, catchTarget := some 11 },
    { kind := .loop, level := 1, start := 2, size := 7, breakTarget := some 12,
      continueTarget := some 0, catchTarget := none },
    { kind := .loop, level := 2, start := 2, size := 7, breakTarget := some 12,
      continueTarget := some 0, catchTarget := none }]
  maxStack := 7
  locals := ["x", "x", ""]
  foreachInfos := [
    { counterSlot := 1, lists := [⟨0, []⟩, ⟨2, [1, 0, 1]⟩] }, { counterSlot := 0, lists := [] }]
  commands := [⟨0, 12, 0, 4⟩, ⟨0, 12, 0, 4⟩, ⟨12, 0, 9, 9⟩]
  source := some "set x\r\n\t"

def knottedCode : List (Nat × Instruction) :=
  [(0, ⟨.push1, [0]⟩), (2, ⟨.jump1, [1]⟩), (4, ⟨.jump4, [-4]⟩), (9, ⟨.jump1, [3]⟩), (11, ⟨.done, []⟩)]

theorem knottedUnit_listable : Listable knottedUnit knottedCode where
  small := by decide
  decodes := by rfl
  ranges := by
    intro r member
    simp only [knottedUnit, List.mem_cons, List.not_mem_nil, or_false] at member
    rcases member with rfl | rfl | rfl
    all_goals
      refine ⟨by decide, by decide, ?_, ?_, ?_⟩ <;> intro o given <;> cases given <;> decide
  commands := by decide
  levels := by
    intro k r found
    match k with
    | 0 | 1 | 2 =>
      cases found
      decide
    | k + 3 => cases found

theorem knottedUnit_round_trip :
    Listable knottedUnit knottedCode ∧ ∃ text v, disassemble knottedUnit = .ok text ∧
      assemble text = .ok v ∧ v.Same knottedUnit :=
  ⟨knottedUnit_listable, assemble_disassemble knottedUnit_listable⟩

end Listing

end CommandVM
