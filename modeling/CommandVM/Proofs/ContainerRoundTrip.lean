import CommandVM.CompiledUnit.Container
import CommandVM.Proofs.Bytes

/-!
# Containers decode to their units

Each reader takes exactly the bytes that its writer put, whatever follows them, as long as every
count fits a word and no target is the word for none. What a reader gives always fits in this sense,
so a decoded unit is encoded and decoded again without loss. The digest may be any function with
32 bytes as its values.
-/

namespace CommandVM.Container

variable {α : Type} (part : ContainerPart)

/-! ### What a container can hold -/

/-- The bytes of a text can be counted. -/
def StringFits (s : String) : Prop := s.toUTF8.size < UInt32.size

instance (s : String) : Decidable (StringFits s) := inferInstanceAs (Decidable (_ < _))

/-- The items of a table can be counted, and each of them fits. -/
def TableFits (fits : α → Prop) (items : List α) : Prop :=
  items.length < UInt32.size ∧ ∀ item ∈ items, fits item

instance (fits : α → Prop) [DecidablePred fits] (items : List α) : Decidable (TableFits fits items) :=
  inferInstanceAs (Decidable (_ ∧ _))

/-- A target is not the word for none. -/
def TargetFits (target : Option UInt32) : Prop := target ≠ some noTarget

instance (target : Option UInt32) : Decidable (TargetFits target) :=
  inferInstanceAs (Decidable (_ ≠ _))

def RangeFits (r : ExceptionRange) : Prop :=
  TargetFits r.breakTarget ∧ TargetFits r.continueTarget ∧ TargetFits r.catchTarget

instance (r : ExceptionRange) : Decidable (RangeFits r) := inferInstanceAs (Decidable (_ ∧ _ ∧ _))

def ForeachFits (f : ForeachInfo) : Prop :=
  TableFits (fun l : ForeachList => TableFits (fun _ => True) l.varSlots) f.lists

instance (f : ForeachInfo) : Decidable (ForeachFits f) := inferInstanceAs (Decidable (TableFits _ _))

/-- Every count and every text of a unit fits, and so does every target. -/
structure Fits (u : CompiledUnit) : Prop where
  code : u.code.length < UInt32.size
  literals : TableFits StringFits (Value.strs u.literals)
  ranges : TableFits RangeFits u.ranges
  locals : TableFits StringFits u.locals
  foreachInfos : TableFits ForeachFits u.foreachInfos
  commands : TableFits (fun _ => True) u.commands
  source : ∀ text ∈ u.source, StringFits text

/-! ### Reading what was written -/

/-- Reading takes `bytes` for `value`, whatever follows them. -/
abbrev Reads (get : Reader α) (bytes : List UInt8) (value : α) : Prop :=
  ∀ rest, get (bytes ++ rest) = .ok (value, rest)

theorem ok_bind {ε β : Type} (a : α) (next : α → Except ε β) : (Except.ok a >>= next) = next a := rfl

theorem take_append {n : Nat} {bytes : List UInt8} (size : bytes.length = n) :
    Reads (take part n) bytes bytes := by
  intro rest
  subst size
  simp [take]

theorem getByte_cons (b : UInt8) (rest : List UInt8) : getByte part (b :: rest) = .ok (b, rest) := rfl

theorem getWord_littleEndian {n : Nat} (fits : n < UInt32.size) :
    Reads (getWord part) (Bytes.littleEndian 4 n) (UInt32.ofNat n) := by
  intro rest
  have word := take_append part (Bytes.length_littleEndian 4 n)
  have four : n < Nat.pow 256 4 := fits
  simp only [getWord, word, ok_bind, Bytes.ofLittleEndian_littleEndian four]
  rfl

theorem getWord_putWord (w : UInt32) : Reads (getWord part) (putWord w) w := by
  have read := getWord_littleEndian part w.toNat_lt
  rwa [UInt32.ofNat_toNat] at read

theorem getWord_putCount {n : Nat} (fits : n < UInt32.size) :
    Reads (getWord part) (putCount n) (UInt32.ofNat n) := by
  rw [putCount, Nat.mod_eq_of_lt fits]
  exact getWord_littleEndian part fits

theorem toNat_count {n : Nat} (fits : n < UInt32.size) : (UInt32.ofNat n).toNat = n :=
  UInt32.toNat_ofNat_of_lt' fits

theorem fromUTF8?_toUTF8 (s : String) : String.fromUTF8? s.toUTF8 = some s := by
  rw [String.fromUTF8?, String.toUTF8_eq_toByteArray, dif_pos s.isValidUTF8]
  rfl

theorem getString_putString {s : String} (fits : StringFits s) :
    Reads (getString part) (putString s) s := by
  intro rest
  have count := getWord_putCount part fits
  have chars := take_append part (Bytes.length_toList s.toUTF8)
  simp only [putString, List.append_assoc, getString, count, ok_bind, toNat_count fits, chars,
    Bytes.toArray_toList, fromUTF8?_toUTF8]
  rfl

theorem getItems_flatMap {get : Reader α} {put : α → List UInt8} {items : List α}
    (reads : ∀ item ∈ items, Reads get (put item) item) :
    Reads (getItems get items.length) (items.flatMap put) items := by
  induction items with
  | nil => exact fun rest => rfl
  | cons item items ih =>
    intro rest
    have first := reads item List.mem_cons_self
    have others := ih fun next member => reads next (List.mem_cons_of_mem _ member)
    simp only [List.flatMap_cons, List.append_assoc, List.length_cons, getItems, first, ok_bind,
      others]
    rfl

theorem getTable_putTable {get : Reader α} {put : α → List UInt8} {fits : α → Prop} {items : List α}
    (table : TableFits fits items) (reads : ∀ item, fits item → Reads get (put item) item) :
    Reads (getTable part get) (putTable put items) items := by
  intro rest
  have count := getWord_putCount part table.1
  have all := getItems_flatMap fun item member => reads item (table.2 item member)
  simp only [putTable, List.append_assoc, getTable, count, ok_bind, toNat_count table.1, all]

theorem getTarget_putTarget {target : Option UInt32} (fits : TargetFits target) :
    Reads getTarget (putTarget target) target := by
  intro rest
  simp only [putTarget, getTarget, getWord_putWord, ok_bind]
  cases target with
  | none => rfl
  | some w =>
    have present : w ≠ noTarget := fun same => fits (by rw [same])
    simp only [Option.getD_some, beq_eq_false_iff_ne.mpr present]
    rfl

theorem getRange_putRange {r : ExceptionRange} (fits : RangeFits r) :
    Reads getRange (putRange r) r := by
  intro rest
  have kind (rest : List UInt8) : getKind (kindByte r.kind :: rest) = .ok (r.kind, rest) := by
    cases r.kind <;> rfl
  simp only [putRange, getRange, List.cons_append, List.append_assoc, kind, ok_bind,
    getWord_putWord, getTarget_putTarget fits.1, getTarget_putTarget fits.2.1,
    getTarget_putTarget fits.2.2]
  rfl

theorem getForeachList_putForeachList {l : ForeachList}
    (fits : TableFits (fun _ => True) l.varSlots) : Reads getForeachList (putForeachList l) l := by
  intro rest
  have slots := getTable_putTable .foreach fits fun w _ => getWord_putWord .foreach w
  simp only [putForeachList, getForeachList, List.append_assoc, getWord_putWord, ok_bind, slots]
  rfl

theorem getForeach_putForeach {f : ForeachInfo} (fits : ForeachFits f) :
    Reads getForeach (putForeach f) f := by
  intro rest
  have lists := getTable_putTable .foreach fits fun l => getForeachList_putForeachList
  simp only [putForeach, getForeach, List.append_assoc, getWord_putWord, ok_bind, lists]
  rfl

theorem getCommand_putCommand (c : CommandLocation) : Reads getCommand (putCommand c) c := by
  intro rest
  simp only [putCommand, getCommand, List.append_assoc, getWord_putWord, ok_bind]
  rfl

theorem getSource_putSource {source : Option String} (fits : ∀ text ∈ source, StringFits text) :
    Reads getSource (putSource source) source := by
  intro rest
  cases source with
  | none => rfl
  | some text =>
    have read := getString_putString .source (fits text rfl)
    simp only [putSource, getSource, List.cons_append, getByte_cons, ok_bind, read]
    rfl

/-- A unit with its literals as plain texts. -/
def plain (u : CompiledUnit) : CompiledUnit :=
  { u with literals := (Value.strs u.literals).map Value.text }

/-- The tables of a unit but for its source. -/
def putFront (u : CompiledUnit) : List UInt8 :=
  putCount u.code.length ++ u.code ++ putTable putString (Value.strs u.literals) ++
    putTable putRange u.ranges ++ putWord u.maxStack ++ putTable putString u.locals ++
    putTable putForeach u.foreachInfos ++ putTable putCommand u.commands

/-- What follows the other tables is read as the source. -/
theorem getTables_putFront {u : CompiledUnit} (fits : Fits u) (bytes : List UInt8) :
    getTables (putFront u ++ bytes) =
      (getSource bytes).map fun found => ({ plain u with source := found.1 }, found.2) := by
  have size := getWord_putCount .code fits.code
  have code := take_append .code (Eq.refl u.code.length)
  have literals := getTable_putTable .literals fits.literals
    fun s => getString_putString .literals
  have ranges := getTable_putTable .ranges fits.ranges fun r => getRange_putRange
  have locals := getTable_putTable .locals fits.locals
    fun s => getString_putString .locals
  have loops := getTable_putTable .foreach fits.foreachInfos
    fun f => getForeach_putForeach
  have commands := getTable_putTable .commands fits.commands
    fun c _ => getCommand_putCommand c
  simp only [putFront, getTables, List.append_assoc, size, ok_bind, toNat_count fits.code, code,
    literals, ranges, getWord_putWord, locals, loops, commands]
  cases getSource bytes <;> rfl

theorem getTables_putTables {u : CompiledUnit} (fits : Fits u) :
    Reads getTables (putTables u) (plain u) := by
  intro rest
  have split : putTables u = putFront u ++ putSource u.source := rfl
  rw [split, List.append_assoc, getTables_putFront fits, getSource_putSource fits.source]
  rfl

/-! ### What is read fits -/

/-- Every value that is read has the property. -/
def Yields (get : Reader α) (holds : α → Prop) : Prop :=
  ∀ bytes value rest, get bytes = .ok (value, rest) → holds value

theorem bind_eq_ok {ε β : Type} {first : Except ε α} {next : α → Except ε β} {b : β}
    (done : (first >>= next) = .ok b) : ∃ a, first = .ok a ∧ next a = .ok b := by
  cases first with
  | error e => cases done
  | ok a => exact ⟨a, rfl, done⟩

theorem take_eq_ok {n : Nat} {bytes taken rest : List UInt8}
    (read : take part n bytes = .ok (taken, rest)) : taken.length = n := by
  unfold take at read
  split at read
  · cases read
  · next enough =>
    cases read
    rw [List.length_take]
    omega

theorem toUTF8_of_fromUTF8? {bytes : ByteArray} {s : String}
    (valid : String.fromUTF8? bytes = some s) : s.toUTF8 = bytes := by
  unfold String.fromUTF8? at valid
  split at valid
  · cases valid
    rfl
  · cases valid

theorem getString_yields : Yields (getString part) StringFits := by
  intro bytes s rest read
  obtain ⟨⟨size, bytes⟩, -, read⟩ := bind_eq_ok read
  obtain ⟨⟨chars, bytes⟩, taken, read⟩ := bind_eq_ok read
  dsimp only at taken read
  split at read
  · next text valid =>
    cases read
    have length := take_eq_ok part taken
    have bound := size.toNat_lt
    rw [StringFits, toUTF8_of_fromUTF8? valid]
    change chars.length < UInt32.size
    rw [length]
    exact bound
  · cases read

theorem getItems_yields {get : Reader α} {holds : α → Prop} (each : Yields get holds) (n : Nat) :
    Yields (getItems get n) fun items => items.length = n ∧ ∀ item ∈ items, holds item := by
  induction n with
  | zero =>
    intro bytes items rest read
    cases read
    exact ⟨rfl, by simp⟩
  | succ n ih =>
    intro bytes items rest read
    obtain ⟨⟨item, bytes⟩, first, read⟩ := bind_eq_ok read
    obtain ⟨⟨others, bytes⟩, more, read⟩ := bind_eq_ok read
    cases read
    obtain ⟨count, all⟩ := ih _ _ _ more
    refine ⟨by rw [List.length_cons, count], ?_⟩
    intro next member
    rcases List.mem_cons.mp member with rfl | later
    · exact each _ _ _ first
    · exact all next later

theorem getTable_yields {get : Reader α} {holds : α → Prop} (each : Yields get holds) :
    Yields (getTable part get) (TableFits holds) := by
  intro bytes items rest read
  obtain ⟨⟨count, bytes⟩, -, read⟩ := bind_eq_ok read
  obtain ⟨length, all⟩ := getItems_yields each _ _ _ _ read
  exact ⟨length ▸ count.toNat_lt, all⟩

theorem getTarget_yields : Yields getTarget TargetFits := by
  intro bytes target rest read
  obtain ⟨⟨word, bytes⟩, -, read⟩ := bind_eq_ok read
  cases read
  by_cases none : word = noTarget
  · simp [TargetFits, none]
  · simp [TargetFits, none]

theorem getRange_yields : Yields getRange RangeFits := by
  intro bytes r rest read
  obtain ⟨⟨kind, bytes⟩, -, read⟩ := bind_eq_ok read
  obtain ⟨⟨level, bytes⟩, -, read⟩ := bind_eq_ok read
  obtain ⟨⟨start, bytes⟩, -, read⟩ := bind_eq_ok read
  obtain ⟨⟨size, bytes⟩, -, read⟩ := bind_eq_ok read
  obtain ⟨⟨breakTarget, bytes⟩, first, read⟩ := bind_eq_ok read
  obtain ⟨⟨continueTarget, bytes⟩, second, read⟩ := bind_eq_ok read
  obtain ⟨⟨catchTarget, bytes⟩, third, read⟩ := bind_eq_ok read
  cases read
  exact ⟨getTarget_yields _ _ _ first, getTarget_yields _ _ _ second, getTarget_yields _ _ _ third⟩

theorem yields_trivially (get : Reader α) : Yields get fun _ => True := fun _ _ _ _ => trivial

theorem getForeach_yields : Yields getForeach ForeachFits := by
  intro bytes f rest read
  obtain ⟨⟨counter, bytes⟩, -, read⟩ := bind_eq_ok read
  obtain ⟨⟨lists, bytes⟩, table, read⟩ := bind_eq_ok read
  cases read
  refine getTable_yields .foreach ?_ _ _ _ table
  intro bytes l rest read
  obtain ⟨⟨slot, bytes⟩, -, read⟩ := bind_eq_ok read
  obtain ⟨⟨slots, bytes⟩, vars, read⟩ := bind_eq_ok read
  cases read
  exact getTable_yields .foreach (yields_trivially _) _ _ _ vars

theorem getSource_yields : Yields getSource fun source => ∀ text ∈ source, StringFits text := by
  intro bytes source rest read
  obtain ⟨⟨flag, bytes⟩, -, read⟩ := bind_eq_ok read
  dsimp only at read
  split at read
  · cases read
    simp
  · obtain ⟨⟨text, bytes⟩, found, read⟩ := bind_eq_ok read
    cases read
    rintro _ ⟨⟩
    exact getString_yields .source _ _ _ found

theorem strs_map_text (texts : List String) : Value.strs (texts.map Value.text) = texts := by
  induction texts with
  | nil => rfl
  | cons s texts ih => rw [List.map_cons, Value.strs, Value.str, ih]

/-- The literals of a unit that was read are texts already. -/
theorem getTables_yields : Yields getTables fun u => Fits u ∧ plain u = u := by
  intro bytes u rest read
  obtain ⟨⟨size, bytes⟩, -, read⟩ := bind_eq_ok read
  obtain ⟨⟨code, bytes⟩, codeTaken, read⟩ := bind_eq_ok read
  obtain ⟨⟨literals, bytes⟩, literalsRead, read⟩ := bind_eq_ok read
  obtain ⟨⟨ranges, bytes⟩, rangesRead, read⟩ := bind_eq_ok read
  obtain ⟨⟨maxStack, bytes⟩, -, read⟩ := bind_eq_ok read
  obtain ⟨⟨locals, bytes⟩, localsRead, read⟩ := bind_eq_ok read
  obtain ⟨⟨foreachInfos, bytes⟩, foreachRead, read⟩ := bind_eq_ok read
  obtain ⟨⟨commands, bytes⟩, commandsRead, read⟩ := bind_eq_ok read
  obtain ⟨⟨source, bytes⟩, sourceRead, read⟩ := bind_eq_ok read
  cases read
  refine ⟨?_, by simp only [plain, strs_map_text]⟩
  exact {
    code := take_eq_ok .code codeTaken ▸ size.toNat_lt
    literals := by
      rw [strs_map_text]
      exact getTable_yields .literals (getString_yields .literals) _ _ _ literalsRead
    ranges := getTable_yields .ranges getRange_yields _ _ _ rangesRead
    locals := getTable_yields .locals (getString_yields .locals) _ _ _ localsRead
    foreachInfos := getTable_yields .foreach getForeach_yields _ _ _ foreachRead
    commands := getTable_yields .commands (yields_trivially _) _ _ _ commandsRead
    source := getSource_yields _ _ _ sourceRead }

/-! ### Whole containers -/

variable {digest : List UInt8 → List UInt8}

/-- The digest of a container is that of its own body. -/
theorem decodeWith_append (sized : ∀ bytes, (digest bytes).length = digestSize)
    (tables : List UInt8) :
    decodeWith digest (magic ++ tables ++ digest (magic ++ tables)) =
      (getTables tables).map Prod.fst := by
  have start : (magic ++ tables ++ digest (magic ++ tables)).take magic.length = magic := by simp
  have length : (magic ++ tables ++ digest (magic ++ tables)).length =
      (magic ++ tables).length + digestSize := by rw [List.length_append, sized]
  have enough : ¬ (magic ++ tables).length + digestSize < magic.length + digestSize := by
    rw [List.length_append]
    omega
  simp only [decodeWith, start, ne_eq, not_true_eq_false, if_false, length, enough,
    Nat.add_sub_cancel, List.take_left, List.drop_left]

/-- What decodes is a body with the digest of it, and the body has tables that can be read. -/
theorem of_decodeWith {bytes : List UInt8} {u : CompiledUnit}
    (decoded : decodeWith digest bytes = .ok u) :
    ∃ tables rest, bytes = magic ++ tables ++ digest (magic ++ tables) ∧
      getTables tables = .ok (u, rest) := by
  unfold decodeWith at decoded
  split at decoded
  · cases decoded
  · next start =>
    split at decoded
    · cases decoded
    · next enough =>
      dsimp only at decoded
      split at decoded
      · cases decoded
      · next sum =>
        let size := bytes.length - digestSize
        have body : magic ++ (bytes.take size).drop magic.length = bytes.take size := by
          have first : (bytes.take size).take magic.length = magic := by
            rw [List.take_take, Nat.min_eq_left (by omega)]
            exact Decidable.not_not.mp start
          have whole := List.take_append_drop magic.length (bytes.take size)
          rwa [first] at whole
        cases read : getTables ((bytes.take size).drop magic.length) with
        | error e =>
          rw [read] at decoded
          cases decoded
        | ok found =>
          obtain ⟨v, rest⟩ := found
          rw [read] at decoded
          cases decoded
          refine ⟨(bytes.take size).drop magic.length, rest, ?_, read⟩
          rw [body, Decidable.not_not.mp sum, List.take_append_drop]

theorem decodeWith_encodeWith (sized : ∀ bytes, (digest bytes).length = digestSize)
    {u : CompiledUnit} (fits : Fits u) :
    decodeWith digest (encodeWith digest u) = .ok (plain u) := by
  have tables := getTables_putTables fits []
  rw [List.append_nil] at tables
  rw [encodeWith, decodeWith_append sized, tables]
  rfl

theorem fits_of_decodeWith {bytes : List UInt8} {u : CompiledUnit}
    (decoded : decodeWith digest bytes = .ok u) : Fits u ∧ plain u = u := by
  obtain ⟨tables, rest, _, read⟩ := of_decodeWith decoded
  exact getTables_yields _ _ _ read

theorem same_plain (u : CompiledUnit) : (plain u).Same u :=
  ⟨rfl, strs_map_text _, rfl, rfl, rfl, rfl, rfl, rfl⟩

/-- The container of a unit that fits decodes to the same unit, and every unit that is decoded fits
and is found again in its own container. -/
theorem container_round_trip (digest : List UInt8 → List UInt8)
    (sized : ∀ bytes, (digest bytes).length = digestSize) :
    (∀ u, Fits u → ∃ v, decodeWith digest (encodeWith digest u) = .ok v ∧ v.Same u) ∧
      ∀ bytes u, decodeWith digest bytes = .ok u →
        Fits u ∧ decodeWith digest (encodeWith digest u) = .ok u := by
  constructor
  · intro u fits
    exact ⟨plain u, decodeWith_encodeWith sized fits, same_plain u⟩
  · intro bytes u decoded
    obtain ⟨fits, same⟩ := fits_of_decodeWith decoded
    refine ⟨fits, ?_⟩
    rw [decodeWith_encodeWith sized fits, same]

theorem length_flatMap_putWord (words : List UInt32) :
    (words.flatMap putWord).length = 4 * words.length := by
  induction words with
  | nil => rfl
  | cons w words ih =>
    rw [List.flatMap_cons, List.length_append, ih, putWord, Bytes.length_littleEndian,
      List.length_cons]
    omega

theorem length_hash (bytes : List UInt8) : (Blake3.hash bytes).length = digestSize := by
  have words (node : Blake3.Node) (more : UInt32) : (node.compress more).toList.length = 8 := by
    simp [Blake3.Node.compress]
  exact (length_flatMap_putWord _).trans (by rw [words, digestSize])

/-- A unit with every kind of table entry: a literal that is held as a list, a text that is not
ASCII, absent and present targets, and a list without variables. -/
def mixedUnit : CompiledUnit where
  code := [1, 0, 0]
  literals := [.list [.text "a b", .text ""], .text "é", .text "é"]
  ranges := [
    { kind := .catch, level := 0, start := 0, size := 3, breakTarget := none, continueTarget := none,
      catchTarget := some 2 },
    { kind := .loop, level := 1, start := 0, size := 2, breakTarget := some 0,
      continueTarget := some 0xfffffffe, catchTarget := none }]
  maxStack := 1
  locals := ["x", ""]
  foreachInfos := [{ counterSlot := 0, lists := [⟨1, [0, 1]⟩, ⟨0, []⟩] }, { counterSlot := 1, lists := [] }]
  commands := [⟨0, 2, 0, 4⟩]
  source := some "set"

theorem mixedUnit_fits : Fits mixedUnit where
  code := by decide
  literals := by decide
  ranges := by decide
  locals := by decide
  foreachInfos := by decide
  commands := by decide
  source := by decide

theorem mixedUnit_round_trip :
    Fits mixedUnit ∧ ∃ v, CompiledUnit.decode mixedUnit.encode = .ok v ∧ v.Same mixedUnit ∧
      Fits v ∧ CompiledUnit.decode v.encode = .ok v := by
  obtain ⟨there, back⟩ := container_round_trip Blake3.hash length_hash
  obtain ⟨v, decoded, same⟩ := there mixedUnit mixedUnit_fits
  exact ⟨mixedUnit_fits, v, decoded, same, back mixedUnit.encode v decoded⟩

end CommandVM.Container
