import CommandVM.Verifier

/-!
# Instruction boundaries

`decodeAll` lists instructions at the offsets where `decodeAt` finds them. Each instruction but the
last is followed by another one, so control that only moves between listed offsets never has to
decode anything else.
-/

namespace CommandVM

namespace Instruction

variable {fuel offset o : Nat} {i : Instruction} {bytes code : List UInt8}
  {instructions : List (Nat × Instruction)}

theorem decodeFrom_mem (decoded : decodeFrom fuel offset bytes = .ok instructions)
    (member : (o, i) ∈ instructions) :
    offset ≤ o ∧ decodeHead o (bytes.drop (o - offset)) = .ok i := by
  fun_induction decodeFrom fuel offset bytes generalizing instructions with
  | case1 | case2 =>
    cases decoded
    cases member
  | case3 | case4 => cases decoded
  | case5 fuel offset bytes _ first head rest tail ih =>
    cases decoded
    rcases List.mem_cons.mp member with same | later
    · cases same
      simpa using head
    · obtain ⟨above, found⟩ := ih tail later
      refine ⟨by omega, ?_⟩
      rw [List.drop_drop, show first.size + (o - (offset + first.size)) = o - offset by omega]
        at found
      exact found

theorem decodeFrom_head (decoded : decodeFrom fuel offset bytes = .ok ((o, i) :: instructions)) :
    o = offset := by
  fun_induction decodeFrom fuel offset bytes with
  | case1 | case2 | case3 | case4 => cases decoded
  | case5 =>
    cases decoded
    rfl

theorem decodeFrom_next (decoded : decodeFrom fuel offset bytes = .ok instructions)
    (member : (o, i) ∈ instructions) :
    (∃ j, (o + i.size, j) ∈ instructions) ∨ instructions.getLast? = some (o, i) := by
  fun_induction decodeFrom fuel offset bytes generalizing instructions with
  | case1 | case2 =>
    cases decoded
    cases member
  | case3 | case4 => cases decoded
  | case5 fuel offset bytes _ first head rest tail ih =>
    cases decoded
    rcases List.mem_cons.mp member with same | later
    · cases same
      cases rest with
      | nil => exact Or.inr rfl
      | cons second rest =>
        obtain ⟨o, j⟩ := second
        obtain rfl := decodeFrom_head tail
        exact Or.inl ⟨j, List.mem_cons_of_mem _ List.mem_cons_self⟩
    · rcases ih tail later with ⟨j, found⟩ | last
      · exact Or.inl ⟨j, List.mem_cons_of_mem _ found⟩
      · exact Or.inr (by rw [List.getLast?_cons, last]; rfl)

theorem decodeAll_mem (decoded : decodeAll code = .ok instructions)
    (member : (o, i) ∈ instructions) :
    decodeAt code o = .ok i := by
  simpa [decodeAt] using (decodeFrom_mem decoded member).2

theorem decodeAll_first (decoded : decodeAll code = .ok instructions) (present : code ≠ []) :
    ∃ i, (0, i) ∈ instructions := by
  obtain ⟨byte, bytes, rfl⟩ := List.exists_cons_of_ne_nil present
  cases instructions with
  | nil =>
    simp only [decodeAll, List.length_cons, decodeFrom] at decoded
    split at decoded
    · cases decoded
    · split at decoded <;> cases decoded
  | cons first rest =>
    obtain ⟨o, i⟩ := first
    obtain rfl := decodeFrom_head decoded
    exact ⟨i, List.mem_cons_self⟩

theorem lt_length_of_decodeAt (decoded : decodeAt code o = .ok i) : o < code.length := by
  apply Nat.lt_of_not_le
  intro outside
  rw [decodeAt, List.drop_eq_nil_of_le outside] at decoded
  cases decoded

end Instruction

/-! ### Layouts -/

namespace Verifier

variable {u : CompiledUnit} {l : Layout} {o : Nat} {i : Instruction}

theorem layout_eq (found : layout u = .ok l) :
    u.code ≠ [] ∧ Instruction.decodeAll u.code = .ok l.instructions ∧ l.size = u.code.length := by
  unfold layout at found
  split at found
  · cases found
  · split at found
    · cases found
    · rename_i present _ instructions decoded
      cases found
      exact ⟨by simpa using present, decoded, rfl⟩

theorem mem_of_lookup {β : Type} {pairs : List (Nat × β)} {key : Nat} {value : β}
    (found : pairs.lookup key = some value) : (key, value) ∈ pairs := by
  obtain ⟨before, after, rfl, _⟩ := List.lookup_eq_some_iff.mp found
  exact List.mem_append_right _ List.mem_cons_self

theorem lookup_isSome_of_mem {β : Type} {pairs : List (Nat × β)} {key : Nat} {value : β}
    (member : (key, value) ∈ pairs) : (pairs.lookup key).isSome = true :=
  List.lookup_isSome_iff.mpr ⟨_, member, beq_self_eq_true key⟩

/-- The layout finds at an offset what the machine decodes there. -/
theorem decodeAt_of_instruction? (found : layout u = .ok l) (here : l.instruction? o = some i) :
    Instruction.decodeAt u.code o = .ok i :=
  Instruction.decodeAll_mem (layout_eq found).2.1 (mem_of_lookup here)

theorem isBoundary_iff : l.isBoundary o = true ↔ ∃ i, l.instruction? o = some i :=
  Option.isSome_iff_exists

theorem instruction?_of_mem (found : layout u = .ok l) (member : (o, i) ∈ l.instructions) :
    l.instruction? o = some i := by
  obtain ⟨j, here⟩ := Option.isSome_iff_exists.mp (lookup_isSome_of_mem member)
  have decoded := Instruction.decodeAll_mem (layout_eq found).2.1 member
  rw [decodeAt_of_instruction? found here] at decoded
  cases decoded
  exact here

theorem isBoundary_zero (found : layout u = .ok l) : l.isBoundary 0 = true := by
  obtain ⟨present, decoded, _⟩ := layout_eq found
  obtain ⟨i, first⟩ := Instruction.decodeAll_first decoded present
  exact lookup_isSome_of_mem first

theorem isBoundary_next (found : layout u = .ok l) (here : l.instruction? o = some i) :
    l.isBoundary (o + i.size) = true ∨ l.instructions.getLast? = some (o, i) := by
  rcases Instruction.decodeFrom_next (layout_eq found).2.1 (mem_of_lookup here) with
    ⟨j, next⟩ | last
  · exact Or.inl (lookup_isSome_of_mem next)
  · exact Or.inr last

theorem lt_length_of_isBoundary (found : layout u = .ok l) (boundary : l.isBoundary o = true) :
    o < u.code.length := by
  obtain ⟨i, here⟩ := isBoundary_iff.mp boundary
  exact Instruction.lt_length_of_decodeAt (decodeAt_of_instruction? found here)

end Verifier

end CommandVM
