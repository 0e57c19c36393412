import CommandVM.Instruction
import CommandVM.Proofs.Bytes

/-!
# Decoded code is what its instructions encode

Code that decodes is the concatenation of the encodings of its instructions, each of which has the
operands that its opcode asks for, and the instructions stand one after the other.
-/

namespace CommandVM

theorem Opcode.byte_of_ofByte? {byte : UInt8} {op : Opcode} (found : ofByte? byte = some op) :
    op.byte = byte := by
  have dense : ∀ pair ∈ all.zipIdx, pair.1.byte.toNat = pair.2 := by decide
  have here := dense (op, byte.toNat) (List.mk_mem_zipIdx_iff_getElem?.mpr found)
  exact UInt8.toNat_inj.mp here

theorem Opcode.ofByte?_byte (op : Opcode) : ofByte? op.byte = some op := by
  cases op <;> rfl

namespace Instruction

/-- The instructions stand one after the other from an offset on. -/
def Consecutive : Nat → List (Nat × Instruction) → Prop
  | _, [] => True
  | offset, (o, i) :: rest => o = offset ∧ Consecutive (offset + i.size) rest

/-- The bytes of instructions. -/
def codeOf (instructions : List (Nat × Instruction)) : List UInt8 :=
  instructions.flatMap fun pair => pair.2.encode

theorem codeOf_cons (pair : Nat × Instruction) (rest : List (Nat × Instruction)) :
    codeOf (pair :: rest) = pair.2.encode ++ codeOf rest := rfl

theorem codeOf_append (first rest : List (Nat × Instruction)) :
    codeOf (first ++ rest) = codeOf first ++ codeOf rest :=
  List.flatMap_append

variable {kind : OperandKind} {kinds : List OperandKind} {values : List Int} {i : Instruction}
  {bytes code : List UInt8} {offset fuel : Nat} {instructions : List (Nat × Instruction)}

/-! ### Operands -/

theorem length_encodeOperand (kind : OperandKind) (value : Int) :
    (encodeOperand kind value).length = kind.width :=
  Bytes.length_littleEndian _ _

theorem ofLittleEndian_lt_span (size : bytes.length = kind.width) :
    Bytes.ofLittleEndian bytes < kind.span := by
  have bound := Bytes.ofLittleEndian_lt bytes
  rw [size] at bound
  cases kind <;> exact bound

theorem encodeOperand_decodeOperand (size : bytes.length = kind.width) :
    encodeOperand kind (decodeOperand kind bytes) = bytes := by
  have bound := ofLittleEndian_lt_span size
  have small : (Bytes.ofLittleEndian bytes : Int) % kind.span = Bytes.ofLittleEndian bytes :=
    Int.emod_eq_of_lt (by omega) (by omega)
  have back : decodeOperand kind bytes % kind.span = Bytes.ofLittleEndian bytes := by
    unfold decodeOperand
    dsimp only
    split
    · rw [Int.sub_emod_right, small]
    · exact small
  rw [encodeOperand, back, Int.toNat_natCast, ← size, Bytes.littleEndian_ofLittleEndian]

theorem fits_decodeOperand (size : bytes.length = kind.width) :
    kind.fits (decodeOperand kind bytes) = true := by
  have bound := ofLittleEndian_lt_span size
  unfold decodeOperand
  generalize Bytes.ofLittleEndian bytes = value at bound
  simp only [Bool.and_eq_true, decide_eq_true_eq]
  cases kind with
  | u1 | u4 =>
    simp only [OperandKind.span, OperandKind.fits, OperandKind.isSigned, Bool.false_eq_true,
      false_and, if_false, Bool.and_eq_true, decide_eq_true_eq] at bound ⊢
    omega
  | i1 | i4 =>
    simp only [OperandKind.span, OperandKind.fits, OperandKind.isSigned, true_and,
      Bool.and_eq_true, decide_eq_true_eq] at bound ⊢
    split <;> omega

theorem length_encodeOperands (count : values.length = kinds.length) (start : Nat) :
    kinds.foldl (fun size kind => size + kind.width) start =
      start + (encodeOperands kinds values).length := by
  induction kinds generalizing values start with
  | nil => rfl
  | cons kind kinds ih =>
    cases values with
    | nil => cases count
    | cons value values =>
      rw [List.foldl_cons, ih (Nat.succ.inj count), encodeOperands, List.length_append,
        length_encodeOperand]
      omega

theorem length_encode (i : Instruction) (count : i.operands.length = i.opcode.operands.length) :
    i.encode.length = i.size := by
  rw [encode, List.length_cons, size, Opcode.size, length_encodeOperands count, Nat.add_comm]

theorem size_pos (i : Instruction) : 0 < i.size := by
  unfold size
  cases i.opcode <;> decide

/-! ### Instructions -/

theorem decodeOperands?_eq_some (decoded : decodeOperands? kinds bytes = some values) :
    values.length = kinds.length ∧ (∀ pair ∈ kinds.zip values, pair.1.fits pair.2 = true) ∧
      encodeOperands kinds values ++ bytes.drop (encodeOperands kinds values).length = bytes := by
  induction kinds generalizing bytes values with
  | nil =>
    cases decoded
    exact ⟨rfl, by simp, rfl⟩
  | cons kind kinds ih =>
    unfold decodeOperands? at decoded
    split at decoded
    · cases decoded
    · next enough =>
      obtain ⟨rest, tail, rfl⟩ := Option.map_eq_some_iff.mp decoded
      obtain ⟨count, fit, same⟩ := ih tail
      have width : (bytes.take kind.width).length = kind.width := by
        rw [List.length_take]
        omega
      refine ⟨by rw [List.length_cons, List.length_cons, count], ?_, ?_⟩
      · intro pair member
        rcases List.mem_cons.mp member with rfl | later
        · exact fits_decodeOperand width
        · exact fit pair later
      · rw [encodeOperands, encodeOperand_decodeOperand width, List.append_assoc, List.length_append,
          width, ← List.drop_drop, same, List.take_append_drop]

theorem decodeHead_eq_ok (decoded : decodeHead offset bytes = .ok i) :
    i.Fits ∧ i.encode ++ bytes.drop i.size = bytes := by
  unfold decodeHead at decoded
  split at decoded
  · cases decoded
  · split at decoded
    · cases decoded
    · next byte bytes _ opcode found =>
      split at decoded
      · cases decoded
      · next operands read =>
        cases decoded
        obtain ⟨count, fit, same⟩ := decodeOperands?_eq_some read
        refine ⟨⟨count, fit⟩, ?_⟩
        rw [← length_encode _ count, encode, Opcode.byte_of_ofByte? found, List.length_cons,
          List.drop_succ_cons, List.cons_append, same]

/-! ### Code -/

theorem decodeFrom_eq_ok (decoded : decodeFrom fuel offset bytes = .ok instructions)
    (enough : bytes.length ≤ fuel) :
    Consecutive offset instructions ∧ (∀ pair ∈ instructions, pair.2.Fits) ∧
      codeOf instructions = bytes := by
  induction fuel generalizing offset bytes instructions with
  | zero =>
    rw [List.length_eq_zero_iff.mp (Nat.le_zero.mp enough)] at decoded ⊢
    cases decoded
    exact ⟨trivial, by simp, rfl⟩
  | succ fuel ih =>
    cases bytes with
    | nil =>
      cases decoded
      exact ⟨trivial, by simp, rfl⟩
    | cons byte bytes =>
      cases head : decodeHead offset (byte :: bytes) with
      | error => simp only [decodeFrom, head, reduceCtorEq] at decoded
      | ok first =>
        cases tail : decodeFrom fuel (offset + first.size) ((byte :: bytes).drop first.size) with
        | error => simp only [decodeFrom, head, tail, reduceCtorEq] at decoded
        | ok rest =>
          simp only [decodeFrom, head, tail, Except.ok.injEq] at decoded
          subst decoded
          obtain ⟨fits, same⟩ := decodeHead_eq_ok head
          have positive := first.size_pos
          have shorter : ((byte :: bytes).drop first.size).length ≤ fuel := by
            rw [List.length_drop]
            omega
          obtain ⟨consecutive, fit, code⟩ := ih tail shorter
          refine ⟨⟨rfl, consecutive⟩, ?_, ?_⟩
          · intro pair member
            rcases List.mem_cons.mp member with rfl | later
            · exact fits
            · exact fit pair later
          · rw [codeOf_cons, code, same]

theorem decodeAll_eq_ok (decoded : decodeAll code = .ok instructions) :
    Consecutive 0 instructions ∧ (∀ pair ∈ instructions, pair.2.Fits) ∧
      codeOf instructions = code :=
  decodeFrom_eq_ok decoded (Nat.le_refl _)

theorem lt_of_consecutive {pair : Nat × Instruction} (consecutive : Consecutive offset instructions)
    (fit : ∀ pair ∈ instructions, pair.2.Fits) (member : pair ∈ instructions) :
    pair.1 < offset + (codeOf instructions).length := by
  induction instructions generalizing offset with
  | nil => cases member
  | cons first rest ih =>
    obtain ⟨o, i⟩ := first
    obtain ⟨rfl, consecutive⟩ := consecutive
    have positive := i.size_pos
    rw [codeOf_cons, List.length_append, length_encode i (fit _ List.mem_cons_self).1]
    rcases List.mem_cons.mp member with rfl | later
    · show o < o + _
      omega
    · have := ih consecutive (fun pair inside => fit pair (List.mem_cons_of_mem _ inside)) later
      omega

/-! ### Encoded instructions decode -/

theorem decodeOperand_encodeOperand {value : Int} (fits : kind.fits value = true) :
    decodeOperand kind (encodeOperand kind value) = value := by
  have room : Nat.pow 256 kind.width = kind.span := by cases kind <;> rfl
  have positive : (0 : Int) < kind.span := by cases kind <;> decide
  have low := Int.emod_nonneg value (Int.ne_of_gt positive)
  have high := Int.emod_lt_of_pos value positive
  have small : (value % kind.span).toNat < Nat.pow 256 kind.width := by
    rw [room]
    omega
  have bytes := Int.toNat_of_nonneg low
  unfold decodeOperand encodeOperand
  rw [Bytes.ofLittleEndian_littleEndian small]
  generalize (value % kind.span).toNat = n at bytes
  simp only [Bool.and_eq_true, decide_eq_true_eq]
  cases kind with
  | u1 | u4 =>
    simp only [OperandKind.fits, OperandKind.span, OperandKind.isSigned, Bool.false_eq_true,
      false_and, if_false, Bool.and_eq_true, decide_eq_true_eq] at fits bytes ⊢
    omega
  | i1 | i4 =>
    -- A negative value stands in its bytes as the value with the span added.
    simp only [OperandKind.fits, OperandKind.span, OperandKind.isSigned, true_and,
      Bool.and_eq_true, decide_eq_true_eq] at fits bytes ⊢
    split <;> omega

theorem decodeOperands?_encodeOperands (count : values.length = kinds.length)
    (fit : ∀ pair ∈ kinds.zip values, pair.1.fits pair.2 = true) (rest : List UInt8) :
    decodeOperands? kinds (encodeOperands kinds values ++ rest) = some values := by
  induction kinds generalizing values with
  | nil =>
    obtain rfl := List.length_eq_zero_iff.mp count
    rfl
  | cons kind kinds ih =>
    obtain ⟨value, values, rfl⟩ := List.exists_cons_of_length_eq_add_one count
    have here : kind.fits value = true := fit (kind, value) List.mem_cons_self
    have later := ih (Nat.succ.inj count) fun pair member => fit pair (List.mem_cons_of_mem _ member)
    have width := length_encodeOperand kind value
    rw [encodeOperands, List.append_assoc, decodeOperands?, if_neg (by rw [List.length_append]; omega),
      ← width, List.drop_left, List.take_left, later, decodeOperand_encodeOperand here]
    rfl

theorem decodeHead_encode (fits : i.Fits) (offset : Nat) (rest : List UInt8) :
    decodeHead offset (i.encode ++ rest) = .ok i := by
  rw [encode, List.cons_append, decodeHead, Opcode.ofByte?_byte]
  dsimp only
  rw [decodeOperands?_encodeOperands fits.1 fits.2]

theorem decodeFrom_codeOf (consecutive : Consecutive offset instructions)
    (fit : ∀ pair ∈ instructions, pair.2.Fits) (enough : (codeOf instructions).length ≤ fuel) :
    decodeFrom fuel offset (codeOf instructions) = .ok instructions := by
  induction instructions generalizing fuel offset with
  | nil =>
    cases fuel <;> rfl
  | cons pair rest ih =>
    obtain ⟨o, i⟩ := pair
    obtain ⟨rfl, consecutive⟩ := consecutive
    have fits : i.Fits := fit (o, i) List.mem_cons_self
    have length := length_encode i fits.1
    have positive := i.size_pos
    rw [codeOf_cons, List.length_append, length] at enough
    obtain ⟨fuel, rfl⟩ : ∃ k, fuel = k + 1 := ⟨fuel - 1, by omega⟩
    have later : decodeFrom fuel (o + i.size) (codeOf rest) = .ok rest :=
      ih consecutive (fun pair member => fit pair (List.mem_cons_of_mem _ member)) (by omega)
    have head := decodeHead_encode fits o (codeOf rest)
    have dropped : (i.encode ++ codeOf rest).drop i.size = codeOf rest := by
      rw [← length, List.drop_left]
    obtain ⟨byte, bytes, present⟩ : ∃ byte bytes, i.encode ++ codeOf rest = byte :: bytes :=
      ⟨_, _, rfl⟩
    rw [present] at head dropped
    rw [codeOf_cons, present]
    simp only [decodeFrom, head, dropped, later]

theorem decodeAll_codeOf (consecutive : Consecutive 0 instructions)
    (fit : ∀ pair ∈ instructions, pair.2.Fits) :
    decodeAll (codeOf instructions) = .ok instructions :=
  decodeFrom_codeOf consecutive fit (Nat.le_refl _)

/-! ### Streams -/

/-- Instructions with the running sums of their encoded lengths. -/
def laidOut : Nat → List Instruction → List (Nat × Instruction)
  | _, [] => []
  | offset, i :: rest => (offset, i) :: laidOut (offset + i.encode.length) rest

theorem codeOf_laidOut (offset : Nat) (stream : List Instruction) :
    codeOf (laidOut offset stream) = stream.flatMap encode := by
  induction stream generalizing offset with
  | nil => rfl
  | cons i rest ih => rw [laidOut, codeOf_cons, ih, List.flatMap_cons]

theorem map_snd_laidOut (offset : Nat) (stream : List Instruction) :
    (laidOut offset stream).map Prod.snd = stream := by
  induction stream generalizing offset with
  | nil => rfl
  | cons i rest ih => rw [laidOut, List.map_cons, ih]

theorem consecutive_laidOut {stream : List Instruction} (fit : ∀ i ∈ stream, i.Fits)
    (offset : Nat) : Consecutive offset (laidOut offset stream) := by
  induction stream generalizing offset with
  | nil => trivial
  | cons i rest ih =>
    have length := length_encode i (fit i List.mem_cons_self).1
    refine ⟨rfl, ?_⟩
    rw [length]
    exact ih (fun j member => fit j (List.mem_cons_of_mem _ member)) _

theorem eq_laidOut_of_consecutive (consecutive : Consecutive offset instructions)
    (fit : ∀ pair ∈ instructions, pair.2.Fits) :
    instructions = laidOut offset (instructions.map Prod.snd) := by
  induction instructions generalizing offset with
  | nil => rfl
  | cons pair rest ih =>
    obtain ⟨o, i⟩ := pair
    obtain ⟨rfl, consecutive⟩ := consecutive
    have length := length_encode i (fit (o, i) List.mem_cons_self).1
    have later := ih consecutive fun pair member => fit pair (List.mem_cons_of_mem _ member)
    rw [List.map_cons, laidOut, length, ← later]

/-- Instructions that fit are what their code decodes to, each at the sum of the lengths before it;
and code that decodes is the code of its instructions, which fit. -/
theorem instruction_stream_round_trip :
    (∀ stream : List Instruction, (∀ i ∈ stream, i.Fits) →
      decodeAll (stream.flatMap encode) = .ok (laidOut 0 stream)) ∧
    ∀ code instructions, decodeAll code = .ok instructions →
      (instructions.map Prod.snd).flatMap encode = code ∧
        (∀ i ∈ instructions.map Prod.snd, i.Fits) ∧
        instructions = laidOut 0 (instructions.map Prod.snd) := by
  constructor
  · intro stream fit
    have fit_pairs : ∀ pair ∈ laidOut 0 stream, pair.2.Fits := by
      intro pair member
      apply fit
      rw [← map_snd_laidOut 0 stream]
      exact List.mem_map_of_mem member
    rw [← codeOf_laidOut 0]
    exact decodeAll_codeOf (consecutive_laidOut fit 0) fit_pairs
  · intro code instructions decoded
    obtain ⟨consecutive, fit, same⟩ := decodeAll_eq_ok decoded
    have laid := eq_laidOut_of_consecutive consecutive fit
    refine ⟨?_, ?_, laid⟩
    · rw [← codeOf_laidOut 0, ← laid, same]
    · intro i member
      obtain ⟨pair, inside, rfl⟩ := List.mem_map.mp member
      exact fit pair inside

/-- Operands of each kind at an end of their interval, and an instruction with two of them. -/
def extremeStream : List Instruction :=
  [⟨.push1, [255]⟩, ⟨.jump1, [-128]⟩, ⟨.push4, [4294967295]⟩, ⟨.jump4, [-2147483648]⟩,
    ⟨.incrScalar1Imm, [255, -1]⟩, ⟨.done, []⟩]

def extremeCode : List UInt8 :=
  [0x01, 0xff, 0x27, 0x80, 0x02, 0xff, 0xff, 0xff, 0xff, 0x28, 0, 0, 0, 0x80, 0x19, 0xff, 0xff, 0x00]

theorem extremeStream_round_trip :
    (∀ i ∈ extremeStream, i.Fits) ∧
      decodeAll extremeCode =
        .ok [(0, ⟨.push1, [255]⟩), (2, ⟨.jump1, [-128]⟩), (4, ⟨.push4, [4294967295]⟩),
          (9, ⟨.jump4, [-2147483648]⟩), (14, ⟨.incrScalar1Imm, [255, -1]⟩), (17, ⟨.done, []⟩)] ∧
      extremeStream.flatMap encode = extremeCode := by
  have fit : ∀ i ∈ extremeStream, i.Fits := by
    unfold Fits
    decide
  have decoded := instruction_stream_round_trip.1 extremeStream fit
  exact ⟨fit, decoded, (instruction_stream_round_trip.2 extremeCode _ decoded).1⟩

end Instruction

end CommandVM
