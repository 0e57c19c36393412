import CommandVM.Proofs.Builder.History
import CommandVM.Proofs.ListingRoundTrip

/-!
# Finishing a builder

When a builder finishes, each jump to a label gets its distance where its draft stands and no other
byte changes. Bounds and targets of the tables become offsets of labels, which lie where instructions
start or the code ends.
-/

namespace CommandVM

namespace Builder

open CommandVM.Container (bind_eq_ok)
open CommandVM.Instruction (codeOf codeOf_cons Consecutive)
open CommandVM.Listing (operands_of_isJump fits_zero boundaries Listable)

variable {b : Builder} {past steps : List Step} {s : Step} {fixup : Fixup} {opcode : Opcode}
  {code before after : List UInt8} {u : CompiledUnit}

/-! ### Distances -/

theorem fits_distance (jumps : opcode.isJump = true) {distance : Int}
    (fits : (distanceKind opcode).fits distance = true) : Instruction.Fits ⟨opcode, [distance]⟩ := by
  have kinds := operands_of_isJump jumps
  refine ⟨by rw [kinds]; rfl, ?_⟩
  rw [kinds]
  intro pair member
  rw [List.mem_singleton.mp member]
  exact fits

theorem draft?_of_fixup? (found : s.fixup? = some fixup) :
    ∃ opcode, s.draft? = some (fixup.offset, ⟨opcode, [0]⟩) ∧ opcode.isJump = true ∧
      fixup.kind = distanceKind opcode := by
  obtain ⟨b, op⟩ := s
  unfold Step.fixup? at found
  split at found
  · next opcode label offset jumped answered =>
    cases found
    obtain rfl : op = .jump opcode label := jumped
    refine ⟨opcode, by rw [Step.draft?, answered], ?_, rfl⟩
    cases emitted : b.jump opcode label with
    | error e =>
      simp only [Step.answer, apply, emitted, telling, reduceCtorEq] at answered
    | ok made => exact (grows_jump emitted).1
  · cases found

theorem applyFixup_eq_ok (jumps : opcode.isJump = true) (place : fixup.offset = before.length)
    (kind : fixup.kind = distanceKind opcode)
    (applied : b.applyFixup (before ++ (Instruction.encode ⟨opcode, [0]⟩ ++ after)) fixup =
      .ok code) :
    ∃ target, b.resolve fixup.label = .ok target ∧
      Instruction.Fits ⟨opcode, [(target.toNat : Int) - before.length]⟩ ∧
      code = before ++
        (Instruction.encode ⟨opcode, [(target.toNat : Int) - before.length]⟩ ++ after) := by
  obtain ⟨target, resolved, applied⟩ := bind_eq_ok applied
  dsimp only at applied
  split at applied
  · next fits =>
    cases applied
    rw [place, kind] at fits
    have filled := fits_distance jumps fits
    refine ⟨target, resolved, filled, ?_⟩
    have old := (encode_of_isJump (fits_zero jumps) jumps).2
    have new := (encode_of_isJump filled jumps).2
    rw [place, kind, old, new]
    apply patch_operand
    rw [Instruction.length_encodeOperand, Instruction.length_encodeOperand]
  · cases applied

/-- The instruction in the finished code is the one that the step drafted, with the distance to its
label if it is a jump to one. -/
def Step.Fills (b : Builder) (s : Step) (pair : Nat × Instruction) : Prop :=
  ∃ draft, s.draft? = some draft ∧ pair.1 = draft.1 ∧
    (s.fixup? = none ∧ pair.2 = draft.2 ∨ ∃ fixup target, s.fixup? = some fixup ∧
      b.resolve fixup.label = .ok target ∧
      pair.2 = ⟨draft.2.opcode, [(target.toNat : Int) - pair.1]⟩)

/-- Finished instructions stand where their drafts stood. -/
structure Filled (b : Builder) (steps : List Step) (offset : Nat)
    (pairs : List (Nat × Instruction)) : Prop where
  fills : List.Forall₂ (Step.Fills b) (steps.filter fun s => s.draft?.isSome) pairs
  consecutive : Consecutive offset pairs
  fit : ∀ pair ∈ pairs, pair.2.Fits
  offsets : pairs.map Prod.fst = (drafts steps).map Prod.fst
  length : (codeOf pairs).length = (codeOf (drafts steps)).length

theorem Filled.cons {pair draft : Nat × Instruction} {pairs : List (Nat × Instruction)}
    (filled : Filled b steps (pair.1 + pair.2.size) pairs) (drafted : s.draft? = some draft)
    (fills : s.Fills b pair) (fits : pair.2.Fits) (drafted_fits : draft.2.Fits)
    (offset : pair.1 = draft.1) (same : pair.2.opcode = draft.2.opcode) :
    Filled b (s :: steps) pair.1 (pair :: pairs) := by
  have kept : (s :: steps).filter (fun s => s.draft?.isSome) =
      s :: steps.filter fun s => s.draft?.isSome :=
    List.filter_cons_of_pos (by rw [drafted]; rfl)
  have listed : drafts (s :: steps) = draft :: drafts steps := List.filterMap_cons_some drafted
  refine ⟨?_, ⟨rfl, filled.consecutive⟩, ?_, ?_, ?_⟩
  · rw [kept]
    exact .cons fills filled.fills
  · intro other member
    rcases List.mem_cons.mp member with rfl | later
    · exact fits
    · exact filled.fit other later
  · rw [listed, List.map_cons, List.map_cons, filled.offsets, offset]
  · rw [listed, codeOf_cons, codeOf_cons, List.length_append, List.length_append, filled.length,
      Instruction.length_encode _ fits.1, Instruction.length_encode _ drafted_fits.1,
      Instruction.size, Instruction.size, same]

theorem filled_skip {offset : Nat} {pairs : List (Nat × Instruction)}
    (filled : Filled b steps offset pairs) (silent : s.draft? = none) :
    Filled b (s :: steps) offset pairs := by
  have skipped : (s :: steps).filter (fun s => s.draft?.isSome) =
      steps.filter fun s => s.draft?.isSome :=
    List.filter_cons_of_neg (by rw [silent]; decide)
  have listed : drafts (s :: steps) = drafts steps := List.filterMap_cons_none silent
  exact ⟨skipped ▸ filled.fills, filled.consecutive, filled.fit, listed ▸ filled.offsets,
    listed ▸ filled.length⟩

/-- Fixups come in the order of their jumps, so the code before the next jump is final. -/
theorem fixups_fill (consecutive : Consecutive before.length (drafts steps))
    (fit : ∀ pair ∈ drafts steps, pair.2.Fits)
    (applied : (steps.filterMap Step.fixup?).foldlM b.applyFixup
      (before ++ codeOf (drafts steps)) = .ok code) :
    ∃ pairs, code = before ++ codeOf pairs ∧ Filled b steps before.length pairs := by
  induction steps generalizing before with
  | nil =>
    cases applied
    exact ⟨[], rfl, .nil, trivial, by simp, rfl, rfl⟩
  | cons s steps ih =>
    cases drafted : s.draft? with
    | none =>
      have none : s.fixup? = none := by
        cases found : s.fixup? with
        | none => rfl
        | some fixup =>
          obtain ⟨opcode, present, _⟩ := draft?_of_fixup? found
          rw [drafted] at present
          cases present
      have listed : drafts (s :: steps) = drafts steps := List.filterMap_cons_none drafted
      rw [listed] at consecutive fit applied
      rw [List.filterMap_cons_none none] at applied
      obtain ⟨pairs, same, filled⟩ := ih consecutive fit applied
      exact ⟨pairs, same, filled_skip filled drafted⟩
    | some draft =>
      have listed : drafts (s :: steps) = draft :: drafts steps := List.filterMap_cons_some drafted
      rw [listed] at consecutive fit applied
      obtain ⟨offset, i⟩ := draft
      obtain ⟨rfl, consecutive⟩ := consecutive
      have drafted_fits : i.Fits := fit (before.length, i) List.mem_cons_self
      have fit_rest : ∀ pair ∈ drafts steps, pair.2.Fits := fun pair member =>
        fit pair (List.mem_cons_of_mem _ member)
      rw [codeOf_cons] at applied
      -- Once the first instruction is final, it joins the code before the rest.
      have advance (final : Instruction) (fits : final.Fits) (same : final.opcode = i.opcode)
          (fills : s.Fills b (before.length, final))
          (rest : (steps.filterMap Step.fixup?).foldlM b.applyFixup
            (before ++ (final.encode ++ codeOf (drafts steps))) = .ok code) :
          ∃ pairs, code = before ++ codeOf pairs ∧ Filled b (s :: steps) before.length pairs := by
        have length : (before ++ final.encode).length = before.length + final.size := by
          rw [List.length_append, Instruction.length_encode _ fits.1]
        have size : final.size = i.size := by rw [Instruction.size, Instruction.size, same]
        rw [← List.append_assoc] at rest
        rw [← size, ← length] at consecutive
        obtain ⟨pairs, joined, filled⟩ := ih consecutive fit_rest rest
        rw [length] at filled
        refine ⟨(before.length, final) :: pairs, by rw [joined, codeOf_cons, List.append_assoc],
          filled.cons drafted fills fits drafted_fits rfl same⟩
      cases found : s.fixup? with
      | none =>
        rw [List.filterMap_cons_none found] at applied
        exact advance i drafted_fits rfl ⟨_, drafted, rfl, .inl ⟨found, rfl⟩⟩ applied
      | some fixup =>
        rw [List.filterMap_cons_some found, List.foldlM_cons] at applied
        obtain ⟨next, first, applied⟩ := bind_eq_ok applied
        obtain ⟨opcode, present, jumps, kind⟩ := draft?_of_fixup? found
        rw [drafted] at present
        obtain ⟨place, rfl⟩ := Prod.mk.inj (Option.some.inj present)
        obtain ⟨target, resolved, fits, rfl⟩ := applyFixup_eq_ok jumps place.symm kind first
        exact advance _ fits rfl
          ⟨_, drafted, rfl, .inr ⟨fixup, target, found, resolved, rfl⟩⟩ applied

/-! ### Tables -/

theorem le_of_mem_edges (records : Records past b) {o : Nat} (edge : o ∈ edges past b) :
    o ≤ b.offset := by
  rcases List.mem_append.mp edge with start | last
  · obtain ⟨pair, member, rfl⟩ := List.mem_map.mp start
    have inside := Instruction.lt_of_consecutive records.consecutive records.fit member
    rw [← records.code] at inside
    have whole : b.offset = b.code.length := rfl
    omega
  · exact Nat.le_of_eq (List.mem_singleton.mp last)

theorem resolve_eq_ok (records : Records past b) (small : b.offset < UInt32.size) {label : Nat}
    {w : UInt32} (resolved : b.resolve label = .ok w) :
    b.labelOffset? label = some w.toNat ∧ w.toNat ∈ edges past b := by
  unfold resolve at resolved
  split at resolved
  · next o found =>
    cases resolved
    have edge := (records.bound label o found).1
    have inside := le_of_mem_edges records edge
    rw [UInt32.toNat_ofNat_of_lt' (Nat.lt_of_le_of_lt inside small)]
    exact ⟨found, edge⟩
  · cases resolved

theorem resolveTarget_eq_ok (records : Records past b) (small : b.offset < UInt32.size)
    {label : Option Nat} {target : Option UInt32} (resolved : b.resolveTarget label = .ok target) :
    ∀ o ∈ target, o.toNat ∈ edges past b := by
  cases label with
  | none =>
    cases resolved
    simp
  | some label =>
    cases found : b.resolve label with
    | error e =>
      rw [resolveTarget, found] at resolved
      cases resolved
    | ok w =>
      rw [resolveTarget, found] at resolved
      cases resolved
      rintro o ⟨⟩
      exact (resolve_eq_ok records small found).2

/-- A region that is closed before it starts is empty. -/
theorem region_stop {start stop : UInt32} {known : List Nat} (starts : start.toNat ∈ known)
    (stops : stop.toNat ∈ known) :
    start.toNat + (UInt32.ofNat (stop.toNat - start.toNat)).toNat ∈ known := by
  rw [UInt32.toNat_ofNat_of_lt' (Nat.lt_of_le_of_lt (Nat.sub_le _ _) stop.toNat_lt)]
  by_cases inverted : stop.toNat ≤ start.toNat
  · rwa [Nat.sub_eq_zero_of_le inverted]
  · rwa [Nat.add_sub_cancel' (by omega)]

theorem resolveRange_eq_ok (records : Records past b) (small : b.offset < UInt32.size)
    {p : PendingRange} {r : ExceptionRange} (resolved : b.resolveRange p = .ok r) :
    r.start.toNat ∈ edges past b ∧ r.start.toNat + r.size.toNat ∈ edges past b ∧
      (∀ o ∈ r.breakTarget, o.toNat ∈ edges past b) ∧
      (∀ o ∈ r.continueTarget, o.toNat ∈ edges past b) ∧
      ∀ o ∈ r.catchTarget, o.toNat ∈ edges past b := by
  obtain ⟨start, starts, resolved⟩ := bind_eq_ok resolved
  obtain ⟨stop, stops, resolved⟩ := bind_eq_ok resolved
  obtain ⟨leave, leaves, resolved⟩ := bind_eq_ok resolved
  obtain ⟨again, agains, resolved⟩ := bind_eq_ok resolved
  obtain ⟨handler, handlers, resolved⟩ := bind_eq_ok resolved
  cases resolved
  have first := (resolve_eq_ok records small starts).2
  exact ⟨first, region_stop first (resolve_eq_ok records small stops).2,
    resolveTarget_eq_ok records small leaves, resolveTarget_eq_ok records small agains,
    resolveTarget_eq_ok records small handlers⟩

theorem resolveCommand_eq_ok (records : Records past b) (small : b.offset < UInt32.size)
    {p : PendingCommand} {c : CommandLocation} (resolved : b.resolveCommand p = .ok c) :
    c.codeStart.toNat ∈ edges past b ∧ c.codeStart.toNat + c.codeSize.toNat ∈ edges past b := by
  obtain ⟨start, starts, resolved⟩ := bind_eq_ok resolved
  obtain ⟨stop, stops, resolved⟩ := bind_eq_ok resolved
  cases resolved
  have first := (resolve_eq_ok records small starts).2
  exact ⟨first, region_stop first (resolve_eq_ok records small stops).2⟩

theorem exists_of_mem_mapM {ε α β : Type} {f : α → Except ε β} {xs : List α} {ys : List β} {y : β}
    (mapped : xs.mapM f = .ok ys) (member : y ∈ ys) : ∃ x ∈ xs, f x = .ok y := by
  induction xs generalizing ys with
  | nil =>
    cases mapped
    cases member
  | cons x xs ih =>
    rw [List.mapM_cons] at mapped
    obtain ⟨first, here, mapped⟩ := bind_eq_ok mapped
    obtain ⟨others, there, mapped⟩ := bind_eq_ok mapped
    cases mapped
    rcases List.mem_cons.mp member with rfl | later
    · exact ⟨x, List.mem_cons_self, here⟩
    · obtain ⟨other, inside, found⟩ := ih there later
      exact ⟨other, List.mem_cons_of_mem _ inside, found⟩

/-! ### Levels -/

theorem map_unlevelled_withLevels (earlier rest : List ExceptionRange) :
    (withLevels earlier rest).map unlevelled = rest.map unlevelled := by
  induction rest generalizing earlier with
  | nil => rfl
  | cons r rest ih =>
    rw [withLevels, List.map_cons, List.map_cons, ih]
    rfl

theorem levelAmong_unlevelled (earlier : List ExceptionRange) (r : ExceptionRange) :
    levelAmong (earlier.map unlevelled) (unlevelled r) = levelAmong earlier r := by
  rw [levelAmong, List.filter_map, List.length_map]
  rfl

theorem getElem?_withLevels {earlier rest : List ExceptionRange} {k : Nat} {r : ExceptionRange}
    (found : (withLevels earlier rest)[k]? = some r) :
    ∃ given, rest[k]? = some given ∧
      r = { given with level := UInt32.ofNat (levelAmong (earlier ++ rest.take k) given) } := by
  induction rest generalizing earlier k with
  | nil => cases found
  | cons given rest ih =>
    cases k with
    | zero =>
      cases found
      exact ⟨given, rfl, by rw [List.take_zero, List.append_nil]⟩
    | succ k =>
      obtain ⟨other, there, rfl⟩ := ih found
      refine ⟨other, there, ?_⟩
      rw [List.take_succ_cons, List.append_assoc, List.singleton_append]

/-- Levels do not depend on the levels of the ranges before. -/
theorem level_withLevels {rest : List ExceptionRange} {k : Nat} {r : ExceptionRange}
    (found : (withLevels [] rest)[k]? = some r) :
    r.level = UInt32.ofNat (levelAmong ((withLevels [] rest).take k) r) := by
  obtain ⟨given, _, rfl⟩ := getElem?_withLevels found
  have same : levelAmong ((withLevels [] rest).take k)
      { given with level := UInt32.ofNat (levelAmong ([] ++ rest.take k) given) } =
      levelAmong (rest.take k) given := by
    rw [← levelAmong_unlevelled, List.map_take, map_unlevelled_withLevels, ← List.map_take]
    exact levelAmong_unlevelled _ given
  rw [same]
  rfl

/-! ### Finished units -/

/-- The tables of a unit refer to starts of its instructions or to the end of its code, and each
level is the number of earlier ranges around the range, as a number of 32 bits. -/
structure Tabled (u : CompiledUnit) (instructions : List (Nat × Instruction)) : Prop where
  ranges : ∀ r ∈ u.ranges, r.start.toNat ∈ boundaries u instructions ∧
    r.start.toNat + r.size.toNat ∈ boundaries u instructions ∧
    (∀ o ∈ r.breakTarget, o.toNat ∈ boundaries u instructions) ∧
    (∀ o ∈ r.continueTarget, o.toNat ∈ boundaries u instructions) ∧
    ∀ o ∈ r.catchTarget, o.toNat ∈ boundaries u instructions
  commands : ∀ c ∈ u.commands, c.codeStart.toNat ∈ boundaries u instructions ∧
    c.codeStart.toNat + c.codeSize.toNat ∈ boundaries u instructions
  levels : ∀ k r, u.ranges[k]? = some r →
    r.level = UInt32.ofNat ((u.ranges.take k).filter (·.encloses r)).length

theorem Tabled.listable {instructions : List (Nat × Instruction)} (tabled : Tabled u instructions)
    (decodes : Instruction.decodeAll u.code = .ok instructions)
    (small : u.code.length < UInt32.size) (few : u.ranges.length ≤ UInt32.size) :
    Listable u instructions where
  small := small
  decodes := decodes
  ranges := tabled.ranges
  commands := tabled.commands
  levels := by
    intro k r found
    have inside := (List.getElem?_eq_some_iff.mp found).1
    have count := List.length_filter_le (·.encloses r) (u.ranges.take k)
    rw [List.length_take] at count
    rw [tabled.levels k r found, UInt32.toNat_ofNat_of_lt' (by omega)]

theorem finish_eq_ok (finished : b.finish = .ok u) :
    b.fixups.foldlM b.applyFixup b.code = .ok u.code ∧ u.literals = b.literals ∧
      (∃ given, b.ranges.mapM b.resolveRange = .ok given ∧ u.ranges = withLevels [] given) ∧
      b.commands.mapM b.resolveCommand = .ok u.commands := by
  obtain ⟨code, filled, finished⟩ := bind_eq_ok finished
  obtain ⟨ranges, resolved, finished⟩ := bind_eq_ok finished
  obtain ⟨commands, located, finished⟩ := bind_eq_ok finished
  cases finished
  exact ⟨filled, rfl, ⟨ranges, resolved, rfl⟩, located⟩

theorem tabled_of_finish (records : Records past b) (small : b.offset < UInt32.size)
    (finished : b.finish = .ok u) {instructions : List (Nat × Instruction)}
    (same : edges past b = boundaries u instructions) : Tabled u instructions := by
  obtain ⟨_, _, ⟨given, resolved, ranges⟩, located⟩ := finish_eq_ok finished
  refine ⟨?_, ?_, ?_⟩
  · intro r member
    obtain ⟨k, found⟩ := List.mem_iff_getElem?.mp member
    rw [ranges] at found
    obtain ⟨plain, here, rfl⟩ := getElem?_withLevels found
    obtain ⟨p, _, pending⟩ := exists_of_mem_mapM resolved (List.mem_of_getElem? here)
    have sound := resolveRange_eq_ok records small pending
    rw [← same]
    exact sound
  · intro c member
    obtain ⟨p, _, pending⟩ := exists_of_mem_mapM located member
    rw [← same]
    exact resolveCommand_eq_ok records small pending
  · intro k r found
    rw [ranges] at found ⊢
    exact level_withLevels found

/-- The finished code is that of the drafts with their distances. -/
theorem filled_of_finish (records : Records past b) (finished : b.finish = .ok u) :
    ∃ instructions, u.code = codeOf instructions ∧
      Instruction.decodeAll u.code = .ok instructions ∧ Filled b past 0 instructions := by
  obtain ⟨applied, _⟩ := finish_eq_ok finished
  rw [records.fixups, records.code] at applied
  have start : Consecutive ([] : List UInt8).length (drafts past) := records.consecutive
  obtain ⟨instructions, code, filled⟩ := fixups_fill start records.fit applied
  rw [List.nil_append] at code
  refine ⟨instructions, code, ?_, filled⟩
  rw [code]
  exact Instruction.decodeAll_codeOf filled.consecutive filled.fit

/-- The finished code holds the drafts with their distances, and the tables refer to them. -/
theorem finish_spec (records : Records past b) (finished : b.finish = .ok u)
    (small : u.code.length < UInt32.size) :
    ∃ instructions, Instruction.decodeAll u.code = .ok instructions ∧
      Filled b past 0 instructions ∧ b.offset < UInt32.size ∧ Tabled u instructions := by
  obtain ⟨instructions, code, decodes, filled⟩ := filled_of_finish records finished
  have length : u.code.length = b.offset := by
    rw [code, filled.length, ← records.code]
    rfl
  have same : edges past b = boundaries u instructions := by
    rw [edges, boundaries, filled.offsets, length]
  rw [length] at small
  exact ⟨instructions, decodes, filled, small, tabled_of_finish records small finished same⟩

end Builder

end CommandVM
