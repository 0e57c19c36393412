import CommandVM.Proofs.Boundaries

/-!
# Accepted units

What the first two passes establish of a unit without errors: operands name entries of the tables,
jumps and the targets of ranges land on instructions, and control cannot run off the end of the
code.
-/

namespace CommandVM.Verifier

variable {u : CompiledUnit} {l : Layout} {o : Nat} {i : Instruction} {r : ExceptionRange}
  {target : UInt32}

/-- The unit has a layout, and the passes over code and tables find no error. -/
structure LaidOut (u : CompiledUnit) (l : Layout) : Prop where
  layout : layout u = .ok l
  code : layoutErrors u l = []
  tables : tableErrors u l = []

/-- The unit has a layout, and no pass finds an error. -/
structure Accepted (u : CompiledUnit) (l : Layout) : Prop extends LaidOut u l where
  depths : depthErrors u l = []

theorem jumpsLand_of_layoutErrors (clean : layoutErrors u l = []) : jumpsLand l = true := by
  simp only [layoutErrors, List.append_eq_nil_iff, List.flatMap_eq_nil_iff] at clean
  simp only [jumpsLand, List.all_eq_true]
  rintro ⟨offset, i⟩ member
  simp [(clean.1.1 (offset, i) member).2]

theorem accepted_of_accepts (accepted : accepts u = true) : ∃ l, Accepted u l := by
  simp only [accepts, errors, List.isEmpty_iff] at accepted
  split at accepted
  · cases accepted
  · rename_i l found
    simp only [List.append_eq_nil_iff] at accepted
    obtain ⟨⟨code, tables⟩, depths⟩ := accepted
    rw [if_pos (jumpsLand_of_layoutErrors code)] at depths
    exact ⟨l, ⟨found, code, tables⟩, depths⟩

theorem rangeErrors_eq_nil (clean : tableErrors u l = []) {index : Nat}
    (found : u.ranges[index]? = some r) : rangeErrors l (u.ranges.take index) index r = [] := by
  simp only [tableErrors, List.append_eq_nil_iff, List.flatMap_eq_nil_iff] at clean
  exact clean.1 (r, index) (List.mk_mem_zipIdx_iff_getElem?.mpr found)

namespace LaidOut

/-! ### Operands and jumps -/

theorem operands (h : LaidOut u l) (here : l.instruction? o = some i) :
    operandErrors u o i = [] := by
  have clean := h.code
  simp only [layoutErrors, List.append_eq_nil_iff, List.flatMap_eq_nil_iff] at clean
  exact (clean.1.1 (o, i) (mem_of_lookup here)).1

theorem jump_lands (h : LaidOut u l) (here : l.instruction? o = some i) {distance : Int}
    (jump : i.jumpTarget? o = some distance) :
    0 ≤ distance ∧ l.isBoundary distance.toNat = true := by
  have clean := h.code
  simp only [layoutErrors, List.append_eq_nil_iff, List.flatMap_eq_nil_iff] at clean
  have lands := (clean.1.1 (o, i) (mem_of_lookup here)).2
  simp only [jumpErrors, jump] at lands
  split at lands
  · rename_i boundary
    simpa [Layout.isTarget] using boundary
  · cases lands

theorem next_lands (h : LaidOut u l) (here : l.instruction? o = some i)
    (goesOn : i.opcode.isTerminal = false) : l.isBoundary (o + i.size) = true := by
  rcases isBoundary_next h.layout here with next | last
  · exact next
  · have clean := h.code
    simp only [layoutErrors, List.append_eq_nil_iff, terminalErrors, last] at clean
    rw [if_neg (by simp [goesOn])] at clean
    cases clean.1.2

theorem foreachSlot_lt (h : LaidOut u l) {info : ForeachInfo} (member : info ∈ u.foreachInfos)
    {slot : UInt32} (named : slot ∈ foreachSlots info) : slot.toNat < u.locals.length := by
  have clean := h.code
  simp only [layoutErrors, List.append_eq_nil_iff, foreachErrors, List.flatMap_eq_nil_iff] at clean
  obtain ⟨index, inside, rfl⟩ := List.getElem_of_mem member
  have slots := clean.2 (u.foreachInfos[index], index)
    (List.mk_mem_zipIdx_iff_getElem?.mpr (by simp [inside]))
  simp only [List.map_eq_nil_iff, List.filter_eq_nil_iff, decide_eq_true_eq] at slots
  exact Nat.lt_of_not_le (slots slot named)

/-! ### Ranges -/

theorem targetErrors_eq_nil_iff {range : Nat} {which : Target} {target : Option UInt32} :
    targetErrors l range which target = [] ↔
      ∀ t, target = some t → l.isBoundary t.toNat = true := by
  cases target with
  | none => simp [targetErrors]
  | some t => simp [targetErrors]

theorem break_lands (h : LaidOut u l) (member : r ∈ u.ranges) (has : r.breakTarget = some target) :
    l.isBoundary target.toNat = true := by
  obtain ⟨index, found⟩ := List.getElem?_of_mem member
  have clean := rangeErrors_eq_nil h.tables found
  simp only [rangeErrors, List.append_eq_nil_iff, targetErrors_eq_nil_iff] at clean
  exact clean.1.1.1.1.2 target has

theorem continue_lands (h : LaidOut u l) (member : r ∈ u.ranges)
    (has : r.continueTarget = some target) : l.isBoundary target.toNat = true := by
  obtain ⟨index, found⟩ := List.getElem?_of_mem member
  have clean := rangeErrors_eq_nil h.tables found
  simp only [rangeErrors, List.append_eq_nil_iff, targetErrors_eq_nil_iff] at clean
  exact clean.1.1.1.2 target has

theorem catch_lands (h : LaidOut u l) (member : r ∈ u.ranges) (has : r.catchTarget = some target) :
    l.isBoundary target.toNat = true := by
  obtain ⟨index, found⟩ := List.getElem?_of_mem member
  have clean := rangeErrors_eq_nil h.tables found
  simp only [rangeErrors, List.append_eq_nil_iff, targetErrors_eq_nil_iff] at clean
  exact clean.1.1.2 target has

end LaidOut

end CommandVM.Verifier
