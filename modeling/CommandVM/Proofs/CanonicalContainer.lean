import CommandVM.Proofs.ContainerRoundTrip
import CommandVM.Tool

/-!
# The containers of a unit

A reader accepts nothing but what its writer would have written for the value that is read, with two
exceptions. The byte before a source text may be any but zero, and bytes may follow the tables. So
the containers that decode to a unit differ in these two things only, and one of them is the
container that the unit is encoded to.
-/

namespace CommandVM.Container

variable {α : Type} (part : ContainerPart)

/-! ### Writing what was read -/

/-- The bytes that are read are those that are written for the value. -/
def Consumes (get : Reader α) (put : α → List UInt8) : Prop :=
  ∀ bytes value rest, get bytes = .ok (value, rest) → bytes = put value ++ rest

theorem take_consumes (n : Nat) : Consumes (take part n) id := by
  intro bytes taken rest read
  unfold take at read
  split at read
  · cases read
  · cases read
    exact (List.take_append_drop n bytes).symm

theorem getByte_consumes : Consumes (getByte part) fun b => [b] := by
  intro bytes b rest read
  cases bytes with
  | nil => cases read
  | cons first others =>
    cases read
    rfl

theorem getWord_consumes : Consumes (getWord part) putWord := by
  intro bytes w rest read
  obtain ⟨⟨word, bytes⟩, taken, read⟩ := bind_eq_ok read
  cases read
  have four := take_eq_ok part taken
  have small := Bytes.ofLittleEndian_lt word
  have same := Bytes.littleEndian_ofLittleEndian word
  rw [four] at small same
  have number : (UInt32.ofNat (Bytes.ofLittleEndian word)).toNat = Bytes.ofLittleEndian word :=
    toNat_count small
  rw [take_consumes part 4 _ _ _ taken, putWord, number, same]
  rfl

theorem putCount_toNat (w : UInt32) : putCount w.toNat = putWord w := by
  rw [putCount, Nat.mod_eq_of_lt w.toNat_lt, putWord]

theorem getString_consumes : Consumes (getString part) putString := by
  intro bytes s rest read
  obtain ⟨⟨size, bytes⟩, counted, read⟩ := bind_eq_ok read
  obtain ⟨⟨chars, bytes⟩, taken, read⟩ := bind_eq_ok read
  dsimp only at taken read
  split at read
  · next text valid =>
    cases read
    have length := take_eq_ok part taken
    rw [getWord_consumes part _ _ _ counted, take_consumes part _ _ _ _ taken, putString,
      toUTF8_of_fromUTF8? valid, Bytes.toList_eq]
    change _ = putCount chars.length ++ chars ++ _
    rw [length, putCount_toNat, List.append_assoc]
    rfl
  · cases read

theorem getItems_consumes {get : Reader α} {put : α → List UInt8} (each : Consumes get put)
    (n : Nat) : Consumes (getItems get n) (·.flatMap put) := by
  induction n with
  | zero =>
    intro bytes items rest read
    cases read
    rfl
  | succ n ih =>
    intro bytes items rest read
    obtain ⟨⟨item, bytes⟩, first, read⟩ := bind_eq_ok read
    obtain ⟨⟨others, bytes⟩, more, read⟩ := bind_eq_ok read
    cases read
    rw [each _ _ _ first, ih _ _ _ more]
    simp only [List.flatMap_cons, List.append_assoc]

theorem getTable_consumes {get : Reader α} {put : α → List UInt8} (each : Consumes get put) :
    Consumes (getTable part get) (putTable put) := by
  intro bytes items rest read
  obtain ⟨⟨count, bytes⟩, counted, read⟩ := bind_eq_ok read
  obtain ⟨length, _⟩ := getItems_yields (yields_trivially get) _ _ _ _ read
  rw [getWord_consumes part _ _ _ counted, getItems_consumes each _ _ _ _ read, putTable, length,
    putCount_toNat, List.append_assoc]

theorem getTarget_consumes : Consumes getTarget putTarget := by
  intro bytes target rest read
  obtain ⟨⟨word, bytes⟩, found, read⟩ := bind_eq_ok read
  cases read
  rw [getWord_consumes .ranges _ _ _ found, putTarget]
  by_cases none : word = noTarget
  · simp [none]
  · simp [none]

theorem getKind_consumes : Consumes getKind fun kind => [kindByte kind] := by
  intro bytes kind rest read
  obtain ⟨⟨byte, bytes⟩, found, read⟩ := bind_eq_ok read
  rw [getByte_consumes .ranges _ _ _ found]
  dsimp only at read
  split at read
  · next zero =>
    cases read
    rw [eq_of_beq zero]
    rfl
  · split at read
    · next one =>
      cases read
      rw [eq_of_beq one]
      rfl
    · cases read

theorem getRange_consumes : Consumes getRange putRange := by
  intro bytes r rest read
  obtain ⟨⟨kind, bytes⟩, kindRead, read⟩ := bind_eq_ok read
  obtain ⟨⟨level, bytes⟩, levelRead, read⟩ := bind_eq_ok read
  obtain ⟨⟨start, bytes⟩, startRead, read⟩ := bind_eq_ok read
  obtain ⟨⟨size, bytes⟩, sizeRead, read⟩ := bind_eq_ok read
  obtain ⟨⟨breakTarget, bytes⟩, breakRead, read⟩ := bind_eq_ok read
  obtain ⟨⟨continueTarget, bytes⟩, continueRead, read⟩ := bind_eq_ok read
  obtain ⟨⟨catchTarget, bytes⟩, catchRead, read⟩ := bind_eq_ok read
  cases read
  rw [getKind_consumes _ _ _ kindRead, getWord_consumes _ _ _ _ levelRead,
    getWord_consumes _ _ _ _ startRead, getWord_consumes _ _ _ _ sizeRead,
    getTarget_consumes _ _ _ breakRead, getTarget_consumes _ _ _ continueRead,
    getTarget_consumes _ _ _ catchRead]
  simp only [putRange, List.cons_append, List.nil_append, List.append_assoc]

theorem getForeachList_consumes : Consumes getForeachList putForeachList := by
  intro bytes l rest read
  obtain ⟨⟨slot, bytes⟩, slotRead, read⟩ := bind_eq_ok read
  obtain ⟨⟨slots, bytes⟩, slotsRead, read⟩ := bind_eq_ok read
  cases read
  rw [getWord_consumes _ _ _ _ slotRead,
    getTable_consumes _ (getWord_consumes _) _ _ _ slotsRead, putForeachList, List.append_assoc]

theorem getForeach_consumes : Consumes getForeach putForeach := by
  intro bytes f rest read
  obtain ⟨⟨counter, bytes⟩, counterRead, read⟩ := bind_eq_ok read
  obtain ⟨⟨lists, bytes⟩, listsRead, read⟩ := bind_eq_ok read
  cases read
  rw [getWord_consumes _ _ _ _ counterRead,
    getTable_consumes _ getForeachList_consumes _ _ _ listsRead, putForeach, List.append_assoc]

theorem getCommand_consumes : Consumes getCommand putCommand := by
  intro bytes c rest read
  obtain ⟨⟨codeStart, bytes⟩, codeStartRead, read⟩ := bind_eq_ok read
  obtain ⟨⟨codeSize, bytes⟩, codeSizeRead, read⟩ := bind_eq_ok read
  obtain ⟨⟨sourceStart, bytes⟩, sourceStartRead, read⟩ := bind_eq_ok read
  obtain ⟨⟨sourceSize, bytes⟩, sourceSizeRead, read⟩ := bind_eq_ok read
  cases read
  rw [getWord_consumes _ _ _ _ codeStartRead, getWord_consumes _ _ _ _ codeSizeRead,
    getWord_consumes _ _ _ _ sourceStartRead, getWord_consumes _ _ _ _ sourceSizeRead]
  simp only [putCommand, List.append_assoc]

/-! ### What is not told apart -/

/-- The byte that a source text, or its absence, is written with. -/
def sourceFlag : Option String → UInt8
  | none => 0
  | some _ => 1

/-- The flag tells whether there is a source text. -/
def Tells (flag : UInt8) (source : Option String) : Prop := flag = 0 ↔ source = none

instance (flag : UInt8) (source : Option String) : Decidable (Tells flag source) :=
  inferInstanceAs (Decidable (_ ↔ _))

/-- The source text after a flag. -/
def putFlagged (flag : UInt8) (source : Option String) : List UInt8 :=
  flag :: (source.map putString).getD []

/-- A container of a unit with a flag of choice and spare bytes after the tables. -/
def encodeLoosely (digest : List UInt8 → List UInt8) (flag : UInt8) (spare : List UInt8)
    (u : CompiledUnit) : List UInt8 :=
  let body := magic ++ (putFront u ++ (putFlagged flag u.source ++ spare))
  body ++ digest body

theorem putFlagged_sourceFlag (source : Option String) :
    putFlagged (sourceFlag source) source = putSource source := by
  cases source <;> rfl

theorem getSource_putFlagged {flag : UInt8} {source : Option String} (tells : Tells flag source)
    (fits : ∀ text ∈ source, StringFits text) :
    Reads getSource (putFlagged flag source) source := by
  intro rest
  cases source with
  | none =>
    rw [tells.mpr rfl]
    rfl
  | some text =>
    have present : (flag == 0) = false := by
      rw [beq_eq_false_iff_ne]
      intro zero
      cases tells.mp zero
    have read := getString_putString .source (fits text rfl)
    simp only [putFlagged, getSource, Option.map_some, Option.getD_some, List.cons_append,
      getByte_cons, ok_bind, present, read]
    rfl

theorem getSource_consumes {bytes rest : List UInt8} {source : Option String}
    (read : getSource bytes = .ok (source, rest)) :
    ∃ flag, Tells flag source ∧ bytes = putFlagged flag source ++ rest := by
  obtain ⟨⟨flag, bytes⟩, flagRead, read⟩ := bind_eq_ok read
  refine ⟨flag, ?_⟩
  rw [getByte_consumes _ _ _ _ flagRead]
  dsimp only at read
  split at read
  · next zero =>
    cases read
    exact ⟨by simp [Tells, eq_of_beq zero], rfl⟩
  · next present =>
    obtain ⟨⟨text, bytes⟩, found, read⟩ := bind_eq_ok read
    cases read
    refine ⟨by simpa [Tells] using present, ?_⟩
    rw [getString_consumes _ _ _ _ found]
    rfl

theorem getTables_consumes {bytes rest : List UInt8} {u : CompiledUnit}
    (read : getTables bytes = .ok (u, rest)) :
    ∃ flag, Tells flag u.source ∧
      bytes = putFront u ++ (putFlagged flag u.source ++ rest) := by
  obtain ⟨⟨size, bytes⟩, sizeRead, read⟩ := bind_eq_ok read
  obtain ⟨⟨code, bytes⟩, codeTaken, read⟩ := bind_eq_ok read
  obtain ⟨⟨literals, bytes⟩, literalsRead, read⟩ := bind_eq_ok read
  obtain ⟨⟨ranges, bytes⟩, rangesRead, read⟩ := bind_eq_ok read
  obtain ⟨⟨maxStack, bytes⟩, maxStackRead, read⟩ := bind_eq_ok read
  obtain ⟨⟨locals, bytes⟩, localsRead, read⟩ := bind_eq_ok read
  obtain ⟨⟨foreachInfos, bytes⟩, foreachRead, read⟩ := bind_eq_ok read
  obtain ⟨⟨commands, bytes⟩, commandsRead, read⟩ := bind_eq_ok read
  obtain ⟨⟨source, bytes⟩, sourceRead, read⟩ := bind_eq_ok read
  cases read
  obtain ⟨flag, tells, written⟩ := getSource_consumes sourceRead
  refine ⟨flag, tells, ?_⟩
  rw [getWord_consumes _ _ _ _ sizeRead, take_consumes _ _ _ _ _ codeTaken,
    getTable_consumes _ (getString_consumes _) _ _ _ literalsRead,
    getTable_consumes _ getRange_consumes _ _ _ rangesRead,
    getWord_consumes _ _ _ _ maxStackRead,
    getTable_consumes _ (getString_consumes _) _ _ _ localsRead,
    getTable_consumes _ getForeach_consumes _ _ _ foreachRead,
    getTable_consumes _ getCommand_consumes _ _ _ commandsRead, written]
  simp only [putFront, take_eq_ok _ codeTaken, putCount_toNat, strs_map_text, List.append_assoc, id]

/-! ### Whole containers -/

variable {digest : List UInt8 → List UInt8} {u : CompiledUnit}

theorem encodeWith_eq (u : CompiledUnit) :
    encodeWith digest u = encodeLoosely digest (sourceFlag u.source) [] u := by
  rw [encodeLoosely, putFlagged_sourceFlag, List.append_nil]
  rfl

theorem decodeWith_encodeLoosely (sized : ∀ bytes, (digest bytes).length = digestSize)
    (fits : Fits u) {flag : UInt8} (tells : Tells flag u.source) (spare : List UInt8) :
    decodeWith digest (encodeLoosely digest flag spare u) = .ok (plain u) := by
  rw [encodeLoosely, decodeWith_append sized, getTables_putFront fits,
    getSource_putFlagged tells fits.source]
  rfl

/-- The flag and the spare bytes can be told from the container. -/
theorem encodeLoosely_inj (sized : ∀ bytes, (digest bytes).length = digestSize)
    {flag flag' : UInt8} {spare spare' : List UInt8} :
    encodeLoosely digest flag spare u = encodeLoosely digest flag' spare' u ↔
      flag = flag' ∧ spare = spare' := by
  constructor
  · intro same
    have bodies := (List.append_inj' same (by rw [sized, sized])).1
    have sources := List.append_cancel_left (List.append_cancel_left bodies)
    obtain ⟨flags, rests⟩ := List.cons.inj sources
    exact ⟨flags, List.append_cancel_left rests⟩
  · rintro ⟨rfl, rfl⟩
    rfl

theorem encodeWith_eq_iff (sized : ∀ bytes, (digest bytes).length = digestSize) {flag : UInt8}
    {spare : List UInt8} :
    encodeWith digest u = encodeLoosely digest flag spare u ↔
      flag = sourceFlag u.source ∧ spare = [] := by
  rw [encodeWith_eq, encodeLoosely_inj sized, eq_comm, @eq_comm _ [] spare]

theorem hashReport_eq {bytes : List UInt8} (decoded : CompiledUnit.decode bytes = .ok u)
    (input : String) :
    Tool.hashReport input (.ok bytes) =
      Tool.success (Bytes.hex (Blake3.hash u.encode) ++ "  " ++ input) := by
  rw [Tool.hashReport, Tool.unitOfContainer, decoded]
  rfl

/-- The containers that decode to a unit are those with its tables, a flag that tells whether there
is a source, and any spare bytes. They all differ; the unit is encoded to the one with the flag of
the writer and no spare bytes, and it is the digest of this one that `hash` prints. -/
theorem decoded_containers_loose (digest : List UInt8 → List UInt8)
    (sized : ∀ bytes, (digest bytes).length = digestSize) :
    (∀ bytes u, decodeWith digest bytes = .ok u ↔ Fits u ∧ plain u = u ∧
      ∃ flag spare, Tells flag u.source ∧ bytes = encodeLoosely digest flag spare u) ∧
      (∀ u flag spare flag' spare',
        encodeLoosely digest flag spare u = encodeLoosely digest flag' spare' u ↔
          flag = flag' ∧ spare = spare') ∧
      (∀ u flag spare, encodeWith digest u = encodeLoosely digest flag spare u ↔
        flag = sourceFlag u.source ∧ spare = []) ∧
      ∀ input bytes u, CompiledUnit.decode bytes = .ok u →
        Tool.hashReport input (.ok bytes) = Tool.success (Bytes.hex (Blake3.hash
          (encodeLoosely Blake3.hash (sourceFlag u.source) [] u)) ++ "  " ++ input) := by
  refine ⟨fun bytes u => ⟨?_, ?_⟩, fun u _ _ _ _ => encodeLoosely_inj sized,
    fun u _ _ => encodeWith_eq_iff sized, ?_⟩
  · intro decoded
    obtain ⟨tables, spare, rfl, read⟩ := of_decodeWith decoded
    obtain ⟨fits, same⟩ := getTables_yields _ _ _ read
    obtain ⟨flag, tells, rfl⟩ := getTables_consumes read
    exact ⟨fits, same, flag, spare, tells, rfl⟩
  · rintro ⟨fits, same, flag, spare, tells, rfl⟩
    rw [decodeWith_encodeLoosely sized fits tells, same]
  · intro input bytes u decoded
    rw [← encodeWith_eq]
    exact hashReport_eq decoded input

/-- A unit with a source. -/
def noted : CompiledUnit where
  code := [0x01, 0, 0x00]
  literals := [.text "ok"]
  maxStack := 1
  source := some "ok"

theorem noted_fits : Fits noted where
  code := by decide
  literals := by decide
  ranges := by decide
  locals := by decide
  foreachInfos := by decide
  commands := by decide
  source := by decide

theorem noted_containers_loose :
    (∀ bytes, (Blake3.hash bytes).length = digestSize) ∧
      CompiledUnit.decode (encodeLoosely Blake3.hash 7 [1, 2] noted) = .ok noted ∧
      noted.encode ≠ encodeLoosely Blake3.hash 7 [1, 2] noted ∧
      noted.encode = encodeLoosely Blake3.hash 1 [] noted := by
  obtain ⟨decodes, _, canonical, _⟩ := decoded_containers_loose Blake3.hash length_hash
  refine ⟨length_hash, ?_, ?_, (canonical noted 1 []).mpr (by decide)⟩
  · exact (decodes _ noted).mpr ⟨noted_fits, rfl, 7, [1, 2], by decide, rfl⟩
  · exact fun same => absurd ((canonical noted 7 [1, 2]).mp same) (by decide)

/-- A container of the unit with a spare byte, and one with another flag. -/
theorem noted_containers_differ :
    CompiledUnit.decode (encodeLoosely Blake3.hash 1 [0] noted) = .ok noted ∧
      CompiledUnit.decode (encodeLoosely Blake3.hash 2 [] noted) = .ok noted ∧
      encodeLoosely Blake3.hash 1 [0] noted ≠ encodeLoosely Blake3.hash 2 [] noted ∧
      noted.encode ≠ encodeLoosely Blake3.hash 1 [0] noted ∧
      noted.encode ≠ encodeLoosely Blake3.hash 2 [] noted ∧
      Tool.hashReport "spare.qbc" (.ok (encodeLoosely Blake3.hash 1 [0] noted)) ≠
        Tool.success (Bytes.hex (Blake3.hash (encodeLoosely Blake3.hash 1 [0] noted)) ++
          "  spare.qbc") := by
  have spared : CompiledUnit.decode (encodeLoosely Blake3.hash 1 [0] noted) = .ok noted :=
    decodeWith_encodeLoosely length_hash noted_fits (by decide) [0]
  have flagged : CompiledUnit.decode (encodeLoosely Blake3.hash 2 [] noted) = .ok noted :=
    decodeWith_encodeLoosely length_hash noted_fits (by decide) []
  refine ⟨spared, flagged, ?_, ?_, ?_, ?_⟩
  · exact fun same => absurd ((encodeLoosely_inj length_hash).mp same) (by decide)
  · exact fun same => absurd ((encodeWith_eq_iff length_hash).mp same) (by decide)
  · exact fun same => absurd ((encodeWith_eq_iff length_hash).mp same) (by decide)
  · rw [hashReport_eq spared]
    decide +kernel

end CommandVM.Container
