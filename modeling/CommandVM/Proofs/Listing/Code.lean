import CommandVM.Proofs.InstructionCodec
import CommandVM.Proofs.Listing.Progress
import CommandVM.Proofs.Listing.Tables
import Mathlib.Data.List.Nodup

/-!
# Code lines read back

The line of an instruction emits that instruction, save that the distance of a jump to a label is
left open; a label line binds the label of the offset that it stands at.
-/

namespace CommandVM

/-! ### Mnemonics -/

namespace Opcode

theorem mem_all (op : Opcode) : op ∈ all := by
  cases op <;> decide

/-- The text as a number in base 128. -/
def rank (cs : List Char) : Nat := cs.foldl (fun n c => n * 128 + c.toNat) 0

-- Numbers are compared much faster than the texts themselves.
theorem nodup_rank : (all.map fun op => rank op.mnemonic.toList).Nodup := by
  decide +kernel

theorem mnemonic_injective {op other : Opcode} (same : op.mnemonic = other.mnemonic) :
    op = other := by
  apply List.inj_on_of_nodup_map nodup_rank (mem_all op) (mem_all other)
  rw [same]

/-- A text without small letters, blanks or signs that does not start with a digit. -/
def isMnemonic : List Char → Bool
  | [] => false
  | c :: cs => !Text.isDigit 10 c && (c :: cs).all fun d =>
    d.toLower.toUpper == d && 47 < d.toNat && d.toNat < 96 && d != ':' && d != ';'

theorem isMnemonic_mnemonic (op : Opcode) : isMnemonic op.mnemonic.toList = true := by
  have all_of_them : ∀ op ∈ all, isMnemonic op.mnemonic.toList = true := by decide +kernel
  exact all_of_them op (mem_all op)

theorem mem_mnemonic {op : Opcode} {c : Char} (member : c ∈ op.mnemonic.toList) :
    c.toLower.toUpper = c ∧ 47 < c.toNat ∧ c.toNat < 96 ∧ c ≠ ':' ∧ c ≠ ';' := by
  have checked := isMnemonic_mnemonic op
  cases written : op.mnemonic.toList with
  | nil =>
    rw [written] at member
    cases member
  | cons d ds =>
    rw [written] at checked member
    simp only [isMnemonic, Bool.and_eq_true, List.all_eq_true, decide_eq_true_eq, beq_iff_eq,
      bne_iff_ne] at checked
    obtain ⟨⟨⟨⟨upper, low⟩, high⟩, colon⟩, semicolon⟩ := checked.2 c member
    exact ⟨upper, low, high, colon, semicolon⟩

theorem mnemonic_of_toLower {op other : Opcode}
    (same : other.mnemonic.toLower = op.mnemonic.toLower) : other.mnemonic = op.mnemonic := by
  have raised : ∀ op : Opcode,
      (op.mnemonic.toLower.toList).map Char.toUpper = op.mnemonic.toList := by
    intro op
    show ((op.mnemonic.map Char.toLower).toList).map Char.toUpper = _
    rw [String.toList_map, List.map_map]
    conv => rhs; rw [← List.map_id op.mnemonic.toList]
    apply List.map_congr_left
    intro c member
    exact (mem_mnemonic member).1
  apply String.toList_inj.mp
  rw [← raised, ← raised, same]

theorem ofMnemonic?_mnemonic (op : Opcode) : ofMnemonic? op.mnemonic = some op := by
  unfold ofMnemonic?
  cases found : all.find? fun other => other.mnemonic.toLower == op.mnemonic.toLower with
  | none =>
    have missed := List.find?_eq_none.mp found op (mem_all op)
    simp at missed
  | some other =>
    have lower := List.find?_some found
    rw [beq_iff_eq] at lower
    rw [mnemonic_injective (mnemonic_of_toLower lower)]

end Opcode

namespace Listing

open CommandVM.Text
open CommandVM.Instruction (codeOf)

theorem spells_mnemonic (op : Opcode) : Spells op.mnemonic.toList (.word op.mnemonic) := by
  apply spells_word
  have checked := Opcode.isMnemonic_mnemonic op
  have chars : ∀ c ∈ op.mnemonic.toList, isWordChar c = true := by
    intro c member
    obtain ⟨_, low, high, _, semicolon⟩ := Opcode.mem_mnemonic member
    exact isWordChar_of_between (by omega) (by omega) semicolon
  cases written : op.mnemonic.toList with
  | nil => rw [written] at checked; cases checked
  | cons c cs =>
    have low := (Opcode.mem_mnemonic (written ▸ List.mem_cons_self : c ∈ op.mnemonic.toList)).2.1
    rw [written] at checked chars
    simp only [Opcode.isMnemonic, Bool.and_eq_true, Bool.not_eq_true'] at checked
    have minus : c ≠ '-' := by
      rintro rfl
      exact absurd low (by decide)
    have plus : c ≠ '+' := by
      rintro rfl
      exact absurd low (by decide)
    simp only [isPlainWord, List.all_eq_true.mpr chars, checked.1, Bool.true_and, Bool.not_false,
      Bool.and_eq_true, bne_iff_ne]
    exact ⟨minus, plus⟩

theorem definedLabel?_mnemonic (op : Opcode) : definedLabel? (.word op.mnemonic) = none := by
  unfold definedLabel?
  simp only
  split
  · next name same =>
    have member : ':' ∈ op.mnemonic.toList := by
      rw [← List.mem_reverse, same]
      exact List.mem_cons_self
    exact absurd rfl (Opcode.mem_mnemonic member).2.2.2.1
  · rfl

theorem head?_mnemonic (op : Opcode) : (op.mnemonic.toList.head? == some '.') = false := by
  cases written : op.mnemonic.toList with
  | nil => rfl
  | cons c cs =>
    have low := (Opcode.mem_mnemonic (written ▸ List.mem_cons_self : c ∈ op.mnemonic.toList)).2.1
    rw [List.head?_cons, beq_eq_false_iff_ne]
    rintro same
    cases same
    exact absurd low (by decide)

/-! ### Instructions -/

variable {shown : Nat → Instruction → Option Nat} {referenced bound : List Nat} {part : Part}
  {a : Assembly} {i : Instruction} {o : Nat}

theorem text_eq (i : Instruction) :
    i.text = wordsLine i.opcode.mnemonic (i.operands.map fun value => toString value) := by
  unfold Instruction.text
  generalize i.opcode.mnemonic = start
  generalize i.operands = values
  induction values generalizing start with
  | nil => simp [wordsLine]
  | cons value values ih =>
    rw [List.foldl_cons, ih]
    simp only [wordsLine, List.map_cons, String.join_cons, String.append_assoc]

theorem spells_operand {kind : OperandKind} {value : Int} (fits : kind.fits value = true) :
    Spells (toString value).toList (.number value) := by
  have small : -0x80000000 ≤ value ∧ value ≤ 0xffffffff := by
    cases kind <;> simp only [OperandKind.fits, Bool.and_eq_true, decide_eq_true_eq] at fits <;> omega
  exact spells_integer (by omega) (by omega)

theorem spells_operands (fits : i.Fits) :
    List.Forall₂ (fun w t => Spells w.toList t) (i.operands.map fun value => toString value)
      (i.operands.map Token.number) := by
  obtain ⟨count, fit⟩ := fits
  rw [List.forall₂_map_left_iff, List.forall₂_map_right_iff]
  refine List.forall₂_same.mpr fun value member => ?_
  obtain ⟨k, here⟩ := List.mem_iff_getElem?.mp member
  have inside : k < i.opcode.operands.length := by
    rw [← count]
    exact (List.getElem?_eq_some_iff.mp here).1
  have paired : (i.opcode.operands.zip i.operands)[k]? = some (i.opcode.operands[k], value) := by
    rw [List.getElem?_zip_eq_some]
    exact ⟨List.getElem?_eq_getElem inside, here⟩
  exact spells_operand (fit _ (List.mem_of_getElem? paired))

theorem operands_numbers (op : Opcode) (first : Bool) (values : List Int) (a : Assembly) :
    operands op first (values.map Token.number) a = .ok (values, a) := by
  induction values generalizing first with
  | nil => rfl
  | cons value values ih =>
    rw [List.map_cons, operands]
    simp only [operand, bind, Except.bind, ih]
    rfl

theorem checkArity_of_length {args : List Token} {expected : Nat} (count : args.length = expected)
    (name : String) : checkArity args expected name = .ok () := by
  unfold checkArity
  rw [if_neg (by omega), List.getElem?_eq_none (by omega)]

theorem emit_of_fits (fits : i.Fits) (b : Builder) :
    b.emit i.opcode i.operands = .ok (b.offset, { b with code := b.code ++ i.encode }.track i) := by
  obtain ⟨count, fit⟩ := fits
  unfold Builder.emit
  rw [if_neg (by simp [count])]
  split
  · next kind value found =>
    have bad := List.find?_some found
    have good := fit _ (List.mem_of_find?_eq_some found)
    simp [good] at bad
  · rfl

/-- The assembly at the start of an instruction line, which it notes. -/
def noted (line : Nat) (a : Assembly) : Assembly :=
  { a with lines := a.lines ++ [(a.builder.offset, line)] }

theorem instruction_numbers (line : Nat) (fits : i.Fits) (a : Assembly) :
    instruction line i.opcode.mnemonic (i.operands.map Token.number) a =
      .ok { noted line a with
        builder := { a.builder with code := a.builder.code ++ i.encode }.track i } := by
  unfold instruction
  rw [Opcode.ofMnemonic?_mnemonic]
  simp only [checkArity_of_length (show (i.operands.map Token.number).length = _ by
    rw [List.length_map, fits.1]), bind, Except.bind]
  split
  · next same => cases written : i.operands <;> rw [written] at same <;> cases same
  · next same => cases written : i.operands <;> rw [written] at same <;> cases same
  · simp only [operands_numbers]
    rw [emit_of_fits fits]
    rfl

theorem operands_of_isJump {op : Opcode} (jumps : op.isJump = true) :
    op.operands = [Builder.distanceKind op] := by
  cases op <;> first | rfl | cases jumps

theorem fits_zero {op : Opcode} (jumps : op.isJump = true) :
    Instruction.Fits { opcode := op, operands := [0] } := by
  have kinds := operands_of_isJump jumps
  refine ⟨by rw [kinds]; rfl, ?_⟩
  rw [kinds]
  intro pair member
  rw [List.mem_singleton.mp member]
  cases Builder.distanceKind op <;> rfl

/-- The assembly after a jump to a label, whose distance is left open. -/
def jumped (op : Opcode) (label : Nat) (a : Assembly) : Assembly :=
  let i : Instruction := { opcode := op, operands := [0] }
  let b := { a.builder with code := a.builder.code ++ i.encode }.track i
  let fixup : Fixup := { offset := a.builder.offset, label, kind := Builder.distanceKind op }
  { a with builder := { b with fixups := b.fixups ++ [fixup] }.seed label }

theorem instruction_label {op : Opcode} (jumps : op.isJump = true) {line label : Nat}
    {name : String} {a' : Assembly} (made : (noted line a).label name line = (label, a')) :
    instruction line op.mnemonic [.word name] a = .ok (jumped op label a') := by
  have kinds := operands_of_isJump jumps
  unfold instruction
  rw [Opcode.ofMnemonic?_mnemonic]
  simp only [checkArity_of_length (show [Token.word name].length = op.operands.length by
    rw [kinds]; rfl), bind, Except.bind, jumps]
  change built ((noted line a).label name line).2 (((noted line a).label name line).2.builder.jump op
    ((noted line a).label name line).1) = _
  rw [made]
  unfold Builder.jump
  rw [if_neg (by simp [jumps]), emit_of_fits (fits_zero jumps)]
  rfl

theorem assembleTokens_mnemonic (line : Nat) (op : Opcode) (args : List Token) (a : Assembly) :
    assembleTokens line (.word op.mnemonic :: args) a = instruction line op.mnemonic args a := by
  simp only [assembleTokens, definedLabel?_mnemonic, statement, head?_mnemonic, Bool.false_eq_true,
    if_false]

theorem isJump_of_shownTarget? {boundaries : List Nat} {target : Nat}
    (found : shownTarget? boundaries o i = some target) :
    i.opcode.isJump = true ∧ target ∈ boundaries ∧ (target : Int) = o + i.operand 0 := by
  unfold shownTarget? Instruction.jumpTarget? at found
  by_cases jumps : i.opcode.isJump = true
  · simp only [jumps, if_true] at found
    split at found
    · next inside =>
      rw [Bool.and_eq_true, decide_eq_true_eq, List.contains_iff_mem] at inside
      cases found
      exact ⟨jumps, inside.2, Int.toNat_of_nonneg inside.1⟩
    · cases found
  · simp only [jumps] at found
    cases found

theorem takes_numbers (fits : i.Fits) (hidden : shown o i = none) :
    Takes [i.text]
      (Assembly.Holds shown referenced bound part)
      (Assembly.Holds shown referenced bound
        { part with instructions := part.instructions ++ [(o, i)] }) := by
  rw [text_eq]
  apply takes_line (spellsLine_wordsLine (spells_mnemonic i.opcode) (spells_operands fits))
  intro n a held
  refine ⟨_, (assembleTokens_mnemonic _ _ _ _).trans (instruction_numbers n fits a), ?_, ?_⟩
  · exact held.labelled.congr rfl fun _ => rfl
  · refine { held.describes with code := ?_, fixups := ?_ }
    · show a.builder.code ++ i.encode = _
      rw [held.describes.code, List.flatMap_append, List.flatMap_singleton, draft, hidden]
    · show List.Forall₂ (MarksJump a.names) a.builder.fixups _
      rw [List.filterMap_append, List.filterMap_cons, shownJump?, hidden]
      exact (List.append_nil _).symm ▸ held.describes.fixups

theorem takes_jump {target : Nat} (jumps : i.opcode.isJump = true) (found : shown o i = some target)
    (used : target ∈ referenced) :
    Takes [i.opcode.mnemonic ++ " " ++ offsetLabel target]
      (fun a => a.Holds shown referenced bound part ∧ a.builder.offset = o)
      (Assembly.Holds shown referenced bound
        { part with instructions := part.instructions ++ [(o, i)] }) := by
  have written : i.opcode.mnemonic ++ " " ++ offsetLabel target =
      wordsLine i.opcode.mnemonic [offsetLabel target] := by
    simp only [wordsLine, List.map_cons, List.map_nil, String.join_cons, String.join_nil,
      String.append_empty, String.append_assoc]
  rw [written]
  apply takes_line (spellsLine_wordsLine (spells_mnemonic i.opcode)
    (.cons (spells_offsetLabel target) .nil))
  rintro n a ⟨held, here⟩
  have start : (noted n a).Holds shown referenced bound part :=
    ⟨held.labelled.congr rfl fun _ => rfl, held.describes⟩
  obtain ⟨label, a₁, made, held₁, grown, marks⟩ := start.label used n
  have same : a₁.builder.offset = o :=
    (congrArg (fun b => b.code.length) grown.content).trans here
  refine ⟨_, (assembleTokens_mnemonic _ _ _ _).trans (instruction_label jumps made), ?_, ?_⟩
  · apply held₁.labelled.congr
    · exact List.length_modify _ _ _
    · exact Builder.labelOffset?_seed _ _
  · refine { held₁.describes with code := ?_, fixups := ?_ }
    · show a₁.builder.code ++ Instruction.encode _ = _
      rw [held₁.describes.code, List.flatMap_append, List.flatMap_singleton, draft, found]
    · show List.Forall₂ _ (a₁.builder.fixups ++ [_]) _
      rw [List.filterMap_append, List.filterMap_cons, shownJump?, found]
      exact List.rel_append held₁.describes.fixups (.cons ⟨same, rfl, marks⟩ .nil)

theorem takes_instruction {boundaries : List Nat} (fits : i.Fits)
    (used : ∀ t, shownTarget? boundaries o i = some t → t ∈ referenced) :
    Takes [instructionLine boundaries o i]
      (fun a => a.Holds (shownTarget? boundaries) referenced bound part ∧ a.builder.offset = o)
      (Assembly.Holds (shownTarget? boundaries) referenced bound
        { part with instructions := part.instructions ++ [(o, i)] }) := by
  unfold instructionLine
  cases found : shownTarget? boundaries o i with
  | none => exact (takes_numbers fits found).weaken fun _ start => start.1
  | some target => exact takes_jump (isJump_of_shownTarget? found).1 found (used target found)

/-! ### Labels -/

theorem definedLabel?_offsetLabel (o : Nat) :
    definedLabel? (.word (offsetLabel o ++ ":")) = some (offsetLabel o) := by
  have chars : (offsetLabel o ++ ":").toList.reverse = ':' :: (offsetLabel o).toList.reverse := by
    rw [String.toList_append, List.reverse_append]
    rfl
  unfold definedLabel?
  simp only [chars, List.reverse_reverse, String.ofList_toList]

theorem assembleTokens_label {line : Nat} {t : Token} {name : String} {a' : Assembly}
    (label : definedLabel? t = some name) (nonempty : name ≠ "")
    (defined : a.define name line = .ok a') : assembleTokens line [t] a = .ok a' := by
  simp only [assembleTokens, label, defined, statement]

theorem takes_label (used : o ∈ referenced) (fresh : o ∉ bound) :
    Takes [offsetLabel o ++ ":"]
      (fun a => a.Holds shown referenced bound part ∧ a.builder.offset = o)
      (Assembly.Holds shown referenced (bound ++ [o]) part) := by
  have plain : isPlainWord (offsetLabel o ++ ":").toList = true := by
    rw [offsetLabel, String.append_assoc, String.toList_append]
    apply isPlainWord_append (by decide)
    rw [String.toList_append]
    intro c member
    rcases List.mem_append.mp member with digit | colon
    · exact isWordChar_toString o c digit
    · rw [show c = ':' from List.mem_singleton.mp colon]
      decide
  have spelled := spellsLine_cons (spells_word _ plain) .nil
  rw [spaced_nil, List.append_nil] at spelled
  apply takes_line spelled
  rintro n a ⟨held, here⟩
  obtain ⟨a', defined, labelled, grown⟩ := held.labelled.define_spec used fresh here n
  refine ⟨a', ?_, held.extend grown labelled⟩
  have nonempty : offsetLabel o ≠ "" := by
    intro empty
    have chars := congrArg String.toList empty
    rw [offsetLabel, String.toList_append] at chars
    cases chars
  exact assembleTokens_label (definedLabel?_offsetLabel o) nonempty defined

theorem takes_labelLine (fresh : o ∉ bound) :
    Takes (labelLine referenced o)
      (fun a => a.Holds shown referenced bound part ∧ a.builder.offset = o)
      (Assembly.Holds shown referenced (bound ++ [o]) part) := by
  unfold labelLine
  by_cases used : o ∈ referenced
  · rw [if_pos (by simpa using used)]
    exact takes_label used fresh
  · rw [if_neg (by simpa using used)]
    refine ⟨by simp, fun n a start => ⟨a, rfl, ?_⟩⟩
    exact ⟨start.1.labelled.skip used, start.1.describes⟩

/-! ### Code -/

theorem length_draft {boundaries : List Nat} {pair : Nat × Instruction} (fits : pair.2.Fits) :
    (draft (shownTarget? boundaries) pair).encode.length = pair.2.encode.length := by
  unfold draft
  split
  · next target found =>
    have jumps := (isJump_of_shownTarget? found).1
    rw [Instruction.length_encode _ fits.1, Instruction.length_encode _ (fits_zero jumps).1]
    rfl
  · rfl

theorem Assembly.Holds.offset {boundaries : List Nat}
    (held : a.Holds (shownTarget? boundaries) referenced bound part)
    (fit : ∀ pair ∈ part.instructions, pair.2.Fits) :
    a.builder.offset = (codeOf part.instructions).length := by
  rw [Builder.offset, held.describes.code, codeOf, List.length_flatMap, List.length_flatMap]
  congr 1
  apply List.map_congr_left
  intro pair member
  exact length_draft (fit pair member)

theorem takes_code (part : Part) {boundaries : List Nat} {rest : List (Nat × Instruction)}
    (used : ∀ pair ∈ rest, ∀ t, shownTarget? boundaries pair.1 pair.2 = some t → t ∈ referenced)
    {done : List (Nat × Instruction)} (fit : ∀ pair ∈ done ++ rest, pair.2.Fits)
    (earlier : ∀ pair ∈ done, pair.1 < (codeOf done).length)
    (consecutive : Instruction.Consecutive (codeOf done).length rest) :
    Takes (rest.flatMap fun (o, i) => labelLine referenced o ++ [instructionLine boundaries o i])
      (Assembly.Holds (shownTarget? boundaries) referenced (done.map Prod.fst)
        { part with instructions := done })
      (Assembly.Holds (shownTarget? boundaries) referenced ((done ++ rest).map Prod.fst)
        { part with instructions := done ++ rest }) := by
  -- On the lines to come: the next instruction stands where the code of those done ends.
  induction rest generalizing done with
  | nil =>
    rw [List.append_nil]
    exact takes_nil
  | cons pair rest ih =>
    obtain ⟨o, i⟩ := pair
    obtain ⟨rfl, consecutive⟩ := consecutive
    have fits : i.Fits := fit ((codeOf done).length, i) (by simp)
    have fit_done : ∀ pair ∈ done, pair.2.Fits := fun pair member =>
      fit pair (List.mem_append_left _ member)
    have fresh : (codeOf done).length ∉ done.map Prod.fst := by
      intro member
      obtain ⟨pair, inside, same⟩ := List.mem_map.mp member
      have := earlier pair inside
      omega
    have grown : (codeOf (done ++ [((codeOf done).length, i)])).length =
        (codeOf done).length + i.size := by
      rw [Instruction.codeOf_append, List.length_append, ← Instruction.length_encode _ fits.1]
      exact congrArg _ (congrArg _ (List.append_nil _))
    have positive := i.size_pos
    have label : Takes (labelLine referenced (codeOf done).length)
        (Assembly.Holds (shownTarget? boundaries) referenced (done.map Prod.fst)
          { part with instructions := done })
        (Assembly.Holds (shownTarget? boundaries) referenced
          (done.map Prod.fst ++ [(codeOf done).length]) { part with instructions := done }) :=
      (takes_labelLine fresh).weaken fun a held => ⟨held, held.offset fit_done⟩
    have line : Takes [instructionLine boundaries (codeOf done).length i]
        (Assembly.Holds (shownTarget? boundaries) referenced
          (done.map Prod.fst ++ [(codeOf done).length]) { part with instructions := done })
        (Assembly.Holds (shownTarget? boundaries) referenced
          (done.map Prod.fst ++ [(codeOf done).length])
          { part with instructions := done ++ [((codeOf done).length, i)] }) :=
      (takes_instruction fits (used _ List.mem_cons_self)).weaken
        fun a held => ⟨held, held.offset fit_done⟩
    have fit' : ∀ pair ∈ (done ++ [((codeOf done).length, i)]) ++ rest, pair.2.Fits := by
      simpa using fit
    have earlier' : ∀ pair ∈ done ++ [((codeOf done).length, i)],
        pair.1 < (codeOf (done ++ [((codeOf done).length, i)])).length := by
      intro pair member
      rw [grown]
      rcases List.mem_append.mp member with old | new
      · have := earlier pair old
        omega
      · rw [List.mem_singleton.mp new]
        omega
    have later := ih (fun pair member => used pair (List.mem_cons_of_mem _ member)) fit' earlier'
      (by rwa [grown])
    rw [List.append_assoc, List.singleton_append, List.map_append] at later
    exact (label.append line).append later

end Listing

end CommandVM
