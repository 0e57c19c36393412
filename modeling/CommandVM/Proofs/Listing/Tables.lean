import CommandVM.Proofs.Listing.Progress

/-!
# Directives read back

Each directive of a canonical listing adds the entry that it was written for to the tables of the
assembly.
-/

namespace CommandVM

namespace Text

theorem uint32?_toString (w : UInt32) : uint32? (toString w.toNat).toList = some w.toNat := by
  rw [Nat.toString_eq_repr, Nat.toList_repr]
  unfold uint32?
  dsimp only
  split
  · next same => exact absurd same (Listing.toDigits_ne_cons (by decide))
  · rw [natural?_toDigits spelled_ten (by decide), Option.filter_some, if_pos]
    simpa using w.toNat_lt

end Text

namespace Listing

open CommandVM.Text

variable {shown : Nat → Instruction → Option Nat} {referenced bound : List Nat} {part : Part}

/-! ### Words -/

theorem isWordChar_toString (n : Nat) : ∀ c ∈ (toString n).toList, isWordChar c = true := by
  rw [Nat.toString_eq_repr, Nat.toList_repr]
  exact isWordChar_toDigits n

theorem isWordChar_offsetLabel (o : Nat) : ∀ c ∈ (offsetLabel o).toList, isWordChar c = true := by
  intro c member
  rw [offsetLabel, String.toList_append] at member
  rcases List.mem_append.mp member with letter | digit
  · rw [show c = 'L' from List.mem_singleton.mp letter]
    decide
  · exact isWordChar_toString o c digit

theorem spells_offsetLabel (o : Nat) : Spells (offsetLabel o).toList (.word (offsetLabel o)) := by
  apply spells_word
  rw [offsetLabel, String.toList_append]
  exact isPlainWord_append (by decide) (isWordChar_toString o)

theorem spells_pair {key value : String} (plain : isPlainWord (key ++ "=").toList = true)
    (chars : ∀ c ∈ value.toList, isWordChar c = true) :
    Spells (key ++ "=" ++ value).toList (.word (key ++ "=" ++ value)) := by
  apply spells_word
  rw [String.toList_append]
  exact isPlainWord_append plain chars

theorem spells_toNat (w : UInt32) : Spells (toString w.toNat).toList (.number w.toNat) := by
  have small := w.toNat_lt
  exact spells_natural (by omega)

theorem cutAt?_append {mark : Char} {cs : List Char} (plain : mark ∉ cs) (rest : List Char) :
    cutAt? mark (cs ++ mark :: rest) = some (cs, rest) := by
  have other : ∀ c ∈ cs, (c != mark) = true := by
    intro c member
    rw [bne_iff_ne]
    rintro rfl
    exact plain member
  unfold cutAt?
  rw [List.dropWhile_append_of_pos other, List.takeWhile_append_of_pos other,
    List.dropWhile_cons_of_neg (by simp), List.takeWhile_cons_of_neg (by simp), List.append_nil]

theorem pairArg_pair {key : String} (plain : '=' ∉ key.toList) (value : String) :
    pairArg (.word (key ++ "=" ++ value)) = .ok (key, value.toList) := by
  unfold pairArg
  have chars : (key ++ "=" ++ value).toList = key.toList ++ '=' :: value.toList := by
    rw [String.toList_append, String.toList_append, List.append_assoc]
    rfl
  simp only [chars, cutAt?_append plain, String.ofList_toList]

theorem wordArg_toNat (w : UInt32) : wordArg (.number w.toNat) = .ok w := by
  have small := w.toNat_lt
  simp only [wordArg]
  rw [if_pos, Int.toNat_natCast, UInt32.ofNat_toNat]
  rw [Bool.and_eq_true, decide_eq_true_eq, decide_eq_true_eq]
  constructor
  · omega
  · exact_mod_cast small

/-- A line that starts with the word is a directive. -/
abbrev StartsDirective (name : String) : Prop :=
  isPlainWord name.toList = true ∧ definedLabel? (.word name) = none ∧
    name.toList.head? = some '.'

theorem takes_directive {P Q : Assembly → Prop} {line name : String} {words : List String}
    {args : List Token} (written : line = wordsLine name words) (starts : StartsDirective name)
    (spelled : List.Forall₂ (fun w t => Spells w.toList t) words args)
    (step : ∀ n a, P a → ∃ a', directive n name args a = .ok a' ∧ Q a') : Takes [line] P Q := by
  obtain ⟨plain, undefined, dotted⟩ := starts
  subst written
  apply takes_line (spellsLine_wordsLine (spells_word name plain) spelled)
  intro n a holds
  simp only [assembleTokens, undefined, statement, dotted, beq_self_eq_true, if_true]
  exact step n a holds

/-! ### Texts and numbers -/

theorem takes_text {P Q : Assembly → Prop} (name : String) (starts : StartsDirective name)
    (text : String) (step : ∀ n a, P a → ∃ a', directive n name [.str text] a = .ok a' ∧ Q a') :
    Takes [name ++ " " ++ quoted text] P Q := by
  have written : name ++ " " ++ quoted text = wordsLine name [quoted text] := by
    simp only [wordsLine, List.map_cons, List.map_nil, String.join_cons, String.join_nil,
      String.append_empty, String.append_assoc]
  exact takes_directive written starts (.cons (spells_quoted text) .nil) step

theorem takes_source (text : String) :
    Takes [".source " ++ quoted text] (Assembly.Holds shown referenced bound part)
      (Assembly.Holds shown referenced bound { part with source := some text }) := by
  refine takes_text ".source" (by decide) text fun n a held => ?_
  refine ⟨_, rfl, held.update rfl ?_⟩
  exact { held.describes with source := rfl }

theorem takes_local (name : String) :
    Takes [".local " ++ quoted name] (Assembly.Holds shown referenced bound part)
      (Assembly.Holds shown referenced bound { part with locals := part.locals ++ [name] }) := by
  refine takes_text ".local" (by decide) name fun n a held => ?_
  refine ⟨_, rfl, held.update rfl ?_⟩
  refine { held.describes with locals := ?_ }
  show a.builder.locals ++ [name] = part.locals ++ [name]
  rw [held.describes.locals]

theorem takes_literal (text : String) :
    Takes [".literal " ++ quoted text] (Assembly.Holds shown referenced bound part)
      (Assembly.Holds shown referenced bound { part with literals := part.literals ++ [text] }) := by
  refine takes_text ".literal" (by decide) text fun n a held => ?_
  refine ⟨_, rfl, held.update rfl ?_⟩
  refine { held.describes with literals := ?_ }
  show a.builder.literals ++ [.text text] = (part.literals ++ [text]).map Value.text
  rw [held.describes.literals, List.map_append]
  rfl

-- For any number, so that checking the equation never computes with the bound of 32 bits.
theorem directive_maxStack (n : Nat) (value : Int) (a : Assembly) :
    directive n ".maxstack" [.number value] a =
      (do
        let depth ← wordArg (.number value)
        return { a with builder := a.builder.setMaxStack depth }) := by
  have only : onlyArg ".maxstack" [.number value] = .ok (.number value) := rfl
  simp only [directive, only]
  rfl

theorem takes_maxStack (depth : UInt32) :
    Takes [".maxstack " ++ toString depth.toNat] (Assembly.Holds shown referenced bound part)
      (Assembly.Holds shown referenced bound { part with maxStack := some depth }) := by
  have first : ".maxstack " = ".maxstack" ++ " " := rfl
  have written : ".maxstack " ++ toString depth.toNat =
      wordsLine ".maxstack" [toString depth.toNat] := by
    simp only [wordsLine, first, List.map_cons, List.map_nil, String.join_cons, String.join_nil,
      String.append_empty, String.append_assoc]
  apply takes_directive written (by decide) (.cons (spells_toNat depth) .nil)
  intro n a held
  refine ⟨{ a with builder := a.builder.setMaxStack depth }, ?_, held.update rfl ?_⟩
  · rw [directive_maxStack, wordArg_toNat]
    rfl
  · exact { held.describes with maxStack := rfl }

/-! ### Foreach loops -/

theorem slot_toString (w : UInt32) (a : Assembly) : a.slot (toString w.toNat).toList = (w, a) := by
  rw [Assembly.slot, uint32?_toString]
  simp only [UInt32.ofNat_toNat]

theorem slots_toString (slots : List UInt32) (a : Assembly) :
    Assembly.slots (slots.map fun w => (toString w.toNat).toList) a = (slots, a) := by
  induction slots with
  | nil => rfl
  | cons w slots ih => simp only [List.map_cons, Assembly.slots, slot_toString, ih]

/-- The pieces of a text between commas. -/
def rawPieces (cs : List Char) : List (List Char) :=
  cs.foldr (fun c pieces =>
    if c == ',' then [] :: pieces
    else match pieces with
      | [] => [[c]]
      | piece :: rest => (c :: piece) :: rest) [[]]

theorem rawPieces_append {piece first : List Char} {cs : List Char} {others : List (List Char)}
    (plain : ',' ∉ piece) (rest : rawPieces cs = first :: others) :
    rawPieces (piece ++ cs) = (piece ++ first) :: others := by
  induction piece with
  | nil => exact rest
  | cons c piece ih =>
    have here : c ≠ ',' := by
      rintro rfl
      exact plain List.mem_cons_self
    have later := ih fun member => plain (List.mem_cons_of_mem _ member)
    unfold rawPieces at later ⊢
    rw [List.cons_append, List.foldr_cons, later, if_neg (by simpa using here)]
    rfl

theorem rawPieces_intercalate {piece : List Char} {pieces : List (List Char)}
    (plain : ∀ p ∈ piece :: pieces, ',' ∉ p) :
    rawPieces ([','].intercalate (piece :: pieces)) = piece :: pieces := by
  induction pieces generalizing piece with
  | nil =>
    have empty : rawPieces [] = [] :: [] := rfl
    have single := rawPieces_append (plain piece List.mem_cons_self) empty
    simpa using single
  | cons next pieces ih =>
    have later := ih fun p member => plain p (List.mem_cons_of_mem _ member)
    have comma : rawPieces (',' :: [','].intercalate (next :: pieces)) =
        [] :: next :: pieces := by
      show [] :: rawPieces _ = _
      rw [later]
    rw [List.intercalate_cons_cons, List.append_assoc, List.singleton_append,
      rawPieces_append (plain piece List.mem_cons_self) comma, List.append_nil]

theorem commaPieces_intercalate {pieces : List (List Char)}
    (plain : ∀ p ∈ pieces, p ≠ [] ∧ ',' ∉ p) : commaPieces ([','].intercalate pieces) = pieces := by
  show (rawPieces _).filter _ = _
  cases pieces with
  | nil => rfl
  | cons piece pieces =>
    rw [rawPieces_intercalate fun p member => (plain p member).2, List.filter_eq_self]
    intro p member
    simpa using (plain p member).1

/-- The word for a list of a foreach loop. -/
def listWord (l : ForeachList) : String :=
  "list" ++ "=" ++ (toString l.listSlot.toNat ++ ":" ++
    String.intercalate "," (l.varSlots.map fun v => toString v.toNat))

theorem mem_intercalate {sep : List Char} {words : List (List Char)} {c : Char}
    (member : c ∈ sep.intercalate words) : c ∈ sep ∨ ∃ w ∈ words, c ∈ w := by
  induction words with
  | nil => simp at member
  | cons w words ih =>
    cases words with
    | nil => exact .inr ⟨w, List.mem_cons_self, by simpa using member⟩
    | cons next words =>
      rw [List.intercalate_cons_cons, List.mem_append, List.mem_append] at member
      rcases member with (own | between) | later
      · exact .inr ⟨w, List.mem_cons_self, own⟩
      · exact .inl between
      · rcases ih later with between | ⟨other, inside, own⟩
        · exact .inl between
        · exact .inr ⟨other, List.mem_cons_of_mem _ inside, own⟩

theorem spells_listWord (l : ForeachList) : Spells (listWord l).toList (.word (listWord l)) := by
  apply spells_pair (by decide)
  intro c member
  simp only [String.toList_append, List.mem_append] at member
  rcases member with (digit | colon) | vars
  · exact isWordChar_toString _ c digit
  · rw [show c = ':' from List.mem_singleton.mp colon]
    decide
  · rw [String.toList_intercalate] at vars
    rcases mem_intercalate vars with comma | ⟨w, inside, own⟩
    · rw [show c = ',' from List.mem_singleton.mp comma]
      decide
    · rw [List.map_map] at inside
      obtain ⟨v, _, rfl⟩ := List.mem_map.mp inside
      exact isWordChar_toString _ c own

theorem foreachList_listWord (l : ForeachList) (a : Assembly) :
    foreachList (.word (listWord l)) a = .ok (l, a) := by
  have digits : ∀ w : UInt32, ∀ c, isDigit 10 c = false → c ∉ (toString w.toNat).toList := by
    intro w c not_digit member
    rw [Nat.toString_eq_repr, Nat.toList_repr] at member
    have digit := isDigit_toDigits spelled_ten (by decide) _ c member
    rw [not_digit] at digit
    cases digit
  have pieces : commaPieces (String.intercalate ","
      (l.varSlots.map fun v => toString v.toNat)).toList =
      l.varSlots.map fun v => (toString v.toNat).toList := by
    rw [String.toList_intercalate, List.map_map]
    apply commaPieces_intercalate
    intro p member
    obtain ⟨v, _, rfl⟩ := List.mem_map.mp member
    refine ⟨?_, digits v ',' (by decide)⟩
    show (toString v.toNat).toList ≠ []
    rw [Nat.toString_eq_repr, Nat.toList_repr]
    exact Nat.toDigits_ne_nil
  have cut : cutAt? ':' (toString l.listSlot.toNat ++ ":" ++
      String.intercalate "," (l.varSlots.map fun v => toString v.toNat)).toList =
      some ((toString l.listSlot.toNat).toList,
        (String.intercalate "," (l.varSlots.map fun v => toString v.toNat)).toList) := by
    rw [String.toList_append, String.toList_append, List.append_assoc]
    exact cutAt?_append (digits l.listSlot ':' (by decide)) _
  unfold foreachList listWord
  rw [pairArg_pair (by decide)]
  simp only [bind, Except.bind, ne_eq, not_true_eq_false, if_false, cut, slot_toString, pieces,
    slots_toString]
  rfl

theorem foreachLists_listWord (lists : List ForeachList) (a : Assembly) :
    foreachLists (lists.map fun l => .word (listWord l)) a = .ok (lists, a) := by
  induction lists with
  | nil => rfl
  | cons l lists ih =>
    rw [List.map_cons, foreachLists, foreachList_listWord]
    simp only [bind, Except.bind, ih]
    rfl

theorem foreachLine_eq (f : ForeachInfo) :
    foreachLine f = wordsLine ".foreach"
      (("counter" ++ "=" ++ toString f.counterSlot.toNat) :: f.lists.map listWord) := by
  have first : ".foreach counter=" = ".foreach" ++ " " ++ "counter" ++ "=" := rfl
  have key : " list=" = " " ++ "list" ++ "=" := rfl
  have lists : f.lists.map foreachListText = (f.lists.map listWord).map (" " ++ ·) := by
    rw [List.map_map]
    apply List.map_congr_left
    intro l _
    simp only [foreachListText, listWord, key, String.append_assoc, Function.comp_apply]
  unfold foreachLine
  simp only [wordsLine, first, lists, List.map_cons, String.join_cons, String.append_assoc]

theorem takes_foreach (f : ForeachInfo) :
    Takes [foreachLine f] (Assembly.Holds shown referenced bound part)
      (Assembly.Holds shown referenced bound
        { part with foreachInfos := part.foreachInfos ++ [f] }) := by
  have counter : Spells ("counter" ++ "=" ++ toString f.counterSlot.toNat).toList
      (.word ("counter" ++ "=" ++ toString f.counterSlot.toNat)) :=
    spells_pair (by decide) (isWordChar_toString _)
  have lists : List.Forall₂ (fun w t => Spells w.toList t) (f.lists.map listWord)
      (f.lists.map fun l => Token.word (listWord l)) := by
    rw [List.forall₂_map_left_iff, List.forall₂_map_right_iff]
    exact List.forall₂_same.mpr fun l _ => spells_listWord l
  apply takes_directive (foreachLine_eq f) (by decide) (.cons counter lists)
  intro n a held
  refine ⟨{ a with builder := (a.builder.addForeach f).2 }, ?_, held.update rfl ?_⟩
  · simp only [directive, foreachDirective]
    rw [pairArg_pair (by decide)]
    simp only [bind, Except.bind, ne_eq, not_true_eq_false, if_false, slot_toString,
      foreachLists_listWord]
    rfl
  · refine { held.describes with foreachInfos := ?_ }
    show a.builder.foreachInfos ++ [f] = part.foreachInfos ++ [f]
    rw [held.describes.foreachInfos]

/-! ### Ranges -/

theorem forall₂_modify_last {α β : Type} {R : α → β → Prop} {xs : List α} {ys : List β} {y y' : β}
    {f : α → α} (related : List.Forall₂ R xs (ys ++ [y])) (change : ∀ x, R x y → R (f x) y') :
    List.Forall₂ R (xs.modify ys.length f) (ys ++ [y']) := by
  induction ys generalizing xs with
  | nil =>
    cases related with
    | cons here rest =>
      cases rest
      exact .cons (change _ here) .nil
  | cons z ys ih =>
    cases related with
    | cons here rest => exact .cons here (ih rest)

/-- The word for a target of a range. -/
def targetWord (target : String × Nat) : String := target.1 ++ "=" ++ offsetLabel target.2

theorem rangeLine_eq (r : ExceptionRange) :
    rangeLine r = wordsLine ".range" (r.kind.name :: offsetLabel r.start.toNat ::
      offsetLabel r.stop :: (rangeTargets r).map targetWord) := by
  have first : ".range " = ".range" ++ " " := rfl
  unfold rangeLine
  simp only [wordsLine, targetWord, first, List.map_cons, List.map_map, Function.comp_def,
    String.join_cons, String.append_assoc]

/-- A target of a range: how it is written, and how it is set in a pending range and in a range. -/
structure TargetField where
  key : String
  put : Nat → PendingRange → PendingRange
  give : Option UInt32 → ExceptionRange → ExceptionRange

/-- The assembly after a target of a range has been set to a label. -/
def TargetField.set (field : TargetField) (range label : Nat) (a : Assembly) : Assembly :=
  { a with
    builder :=
      { a.builder with ranges := a.builder.ranges.modify range (field.put label) }.seed label }

/-- The key of a field is read as it was written, and the two ways to set it agree. -/
structure TargetField.Lawful (field : TargetField) : Prop where
  unmarked : '=' ∉ field.key.toList
  plain : isPlainWord (field.key ++ "=").toList = true
  handled : ∀ {line t name a label a'} (range), pairArg t = .ok (field.key, name) →
    a.label (String.ofList name) line = (label, a') →
    rangeTarget line range t a = .ok (field.set range label a')
  marks : ∀ {names p r label o}, MarksRange names p r → Marks names label o.toNat →
    MarksRange names (field.put label p) (field.give (some o) r)

def breakField : TargetField :=
  ⟨"break", fun label p => { p with breakTarget := some label },
    fun target r => { r with breakTarget := target }⟩

def continueField : TargetField :=
  ⟨"continue", fun label p => { p with continueTarget := some label },
    fun target r => { r with continueTarget := target }⟩

def catchField : TargetField :=
  ⟨"catch", fun label p => { p with catchTarget := some label },
    fun target r => { r with catchTarget := target }⟩

theorem breakField_lawful : breakField.Lawful where
  unmarked := by decide
  plain := by decide
  handled := by
    intro line t name a label a' range read made
    rw [rangeTarget, read]
    simp only [bind, Except.bind, made]
    rfl
  marks := fun marks target => { marks with breakTarget := .some target }

theorem continueField_lawful : continueField.Lawful where
  unmarked := by decide
  plain := by decide
  handled := by
    intro line t name a label a' range read made
    rw [rangeTarget, read]
    simp only [bind, Except.bind, made]
    rfl
  marks := fun marks target => { marks with continueTarget := .some target }

theorem catchField_lawful : catchField.Lawful where
  unmarked := by decide
  plain := by decide
  handled := by
    intro line t name a label a' range read made
    rw [rangeTarget, read]
    simp only [bind, Except.bind, made]
    rfl
  marks := fun marks target => { marks with catchTarget := .some target }

variable {a : Assembly}

theorem Assembly.Holds.target {field : TargetField} (lawful : field.Lawful)
    {ranges : List ExceptionRange} {r : ExceptionRange} (blank : field.give none r = r)
    {given : Option UInt32} (used : ∀ o ∈ given, o.toNat ∈ referenced) (line : Nat)
    (held : a.Holds shown referenced bound { part with ranges := ranges ++ [r] }) :
    ∃ a', ((given.map fun o => (field.key, o.toNat)).toList.map fun t =>
        Token.word (targetWord t)).foldlM (fun a t => rangeTarget line ranges.length t a) a = .ok a' ∧
      a'.Holds shown referenced bound { part with ranges := ranges ++ [field.give given r] } := by
  cases given with
  | none =>
    rw [blank]
    exact ⟨a, rfl, held⟩
  | some o =>
    obtain ⟨label, a₁, made, held₁, _, marks⟩ := held.label (used o rfl) line
    refine ⟨field.set ranges.length label a₁, ?_, ?_, ?_⟩
    · rw [← String.ofList_toList (s := offsetLabel o.toNat)] at made
      have step := lawful.handled ranges.length (pairArg_pair lawful.unmarked _) made
      simp only [Option.map_some, Option.toList_some, List.map_cons, List.map_nil,
        List.foldlM_cons, List.foldlM_nil, targetWord, step]
      rfl
    · apply held₁.labelled.congr
      · exact List.length_modify _ _ _
      · exact Builder.labelOffset?_seed _ _
    · refine { held₁.describes with ranges := ?_ }
      exact forall₂_modify_last held₁.describes.ranges fun p here => lawful.marks here marks

theorem rangeTargets_eq (r : ExceptionRange) :
    rangeTargets r =
      (r.breakTarget.map fun o => (breakField.key, o.toNat)).toList ++
      (r.continueTarget.map fun o => (continueField.key, o.toNat)).toList ++
      (r.catchTarget.map fun o => (catchField.key, o.toNat)).toList := rfl

theorem mem_target {key : String} {given : Option UInt32} {t : String × Nat} :
    t ∈ (given.map fun o => (key, o.toNat)).toList ↔ ∃ o ∈ given, (key, o.toNat) = t := by
  rw [Option.mem_toList, Option.map_eq_some_iff]
  rfl

theorem spells_targetWord {r : ExceptionRange} {t : String × Nat} (member : t ∈ rangeTargets r) :
    Spells (targetWord t).toList (.word (targetWord t)) := by
  apply spells_pair _ (isWordChar_offsetLabel _)
  rw [rangeTargets_eq, List.mem_append, List.mem_append] at member
  rcases member with (given | given) | given
  · obtain ⟨_, _, rfl⟩ := mem_target.mp given
    exact breakField_lawful.plain
  · obtain ⟨_, _, rfl⟩ := mem_target.mp given
    exact continueField_lawful.plain
  · obtain ⟨_, _, rfl⟩ := mem_target.mp given
    exact catchField_lawful.plain

theorem rangeDirective_eq (line : Nat) (kind : RangeKind) (start stop : String)
    (targets : List Token) (a : Assembly) :
    rangeDirective line (.word kind.name :: .word start :: .word stop :: targets) a =
      let (first, a) := a.label start line
      let (last, a) := a.label stop line
      let (range, builder) := a.builder.addRange kind first last
      targets.foldlM (fun a t => rangeTarget line range t a) { a with builder } := by
  cases kind <;> rfl

theorem Assembly.Holds.addRange {first last : Nat} {r : ExceptionRange}
    (held : a.Holds shown referenced bound part) (start : Marks a.names first r.start.toNat)
    (stop : Marks a.names last r.stop) :
    Holds shown referenced bound
      { part with ranges := part.ranges ++
          [{ r with breakTarget := none, continueTarget := none, catchTarget := none }] }
      { a with builder := (a.builder.addRange r.kind first last).2 } := by
  refine held.update rfl { held.describes with ranges := ?_ }
  refine List.rel_append held.describes.ranges (.cons ?_ .nil)
  exact ⟨rfl, start, stop, .none, .none, .none⟩

theorem takes_range {r : ExceptionRange} (start : r.start.toNat ∈ referenced)
    (stop : r.stop ∈ referenced) (targets : ∀ t ∈ rangeTargets r, t.2 ∈ referenced) :
    Takes [rangeLine r] (Assembly.Holds shown referenced bound part)
      (Assembly.Holds shown referenced bound { part with ranges := part.ranges ++ [r] }) := by
  have kind : Spells r.kind.name.toList (.word r.kind.name) := by
    apply spells_word
    cases r.kind <;> decide
  have words : List.Forall₂ (fun w t => Spells w.toList t) ((rangeTargets r).map targetWord)
      ((rangeTargets r).map fun t => Token.word (targetWord t)) := by
    rw [List.forall₂_map_left_iff, List.forall₂_map_right_iff]
    exact List.forall₂_same.mpr fun t member => spells_targetWord member
  rw [rangeTargets_eq] at targets
  have leave : ∀ o ∈ r.breakTarget, o.toNat ∈ referenced := fun o given =>
    targets _ (List.mem_append_left _ (List.mem_append_left _ (mem_target.mpr ⟨o, given, rfl⟩)))
  have again : ∀ o ∈ r.continueTarget, o.toNat ∈ referenced := fun o given =>
    targets _ (List.mem_append_left _ (List.mem_append_right _ (mem_target.mpr ⟨o, given, rfl⟩)))
  have handler : ∀ o ∈ r.catchTarget, o.toNat ∈ referenced := fun o given =>
    targets _ (List.mem_append_right _ (mem_target.mpr ⟨o, given, rfl⟩))
  apply takes_directive (rangeLine_eq r) (by decide)
    (.cons kind (.cons (spells_offsetLabel _) (.cons (spells_offsetLabel _) words)))
  intro n a held
  obtain ⟨first, a₁, made₁, held₁, _, marks₁⟩ := held.label start n
  obtain ⟨last, a₂, made₂, held₂, grown₂, marks₂⟩ := held₁.label stop n
  have count : a₂.builder.ranges.length = part.ranges.length :=
    held₂.describes.ranges.length_eq
  -- The range starts without targets; each word that follows fills one in.
  have added := held₂.addRange (marks₁.mono grown₂.names) marks₂
  obtain ⟨a₃, done₃, held₃⟩ := added.target breakField_lawful rfl leave n
  obtain ⟨a₄, done₄, held₄⟩ := held₃.target continueField_lawful rfl again n
  obtain ⟨a₅, done₅, held₅⟩ := held₄.target catchField_lawful rfl handler n
  refine ⟨a₅, ?_, held₅⟩
  simp only [directive, rangeDirective_eq, made₁, made₂]
  simp only [Builder.addRange, count] at done₃ ⊢
  rw [rangeTargets_eq, List.map_append, List.map_append, List.foldlM_append, List.foldlM_append,
    done₃]
  simp only [bind, Except.bind, done₄, done₅]

/-! ### Commands -/

theorem commandLine_eq (c : CommandLocation) :
    commandLine c = wordsLine ".cmd" [offsetLabel c.codeStart.toNat, offsetLabel (commandStop c),
      toString c.sourceStart.toNat, toString c.sourceSize.toNat] := by
  have first : ".cmd " = ".cmd" ++ " " := rfl
  unfold commandLine
  simp only [wordsLine, first, List.map_cons, List.map_nil, String.join_cons, String.join_nil,
    String.append_empty, String.append_assoc]

theorem commandDirective_eq (line : Nat) (start stop : String) (sourceStart sourceSize : Int)
    (a : Assembly) :
    commandDirective line [.word start, .word stop, .number sourceStart, .number sourceSize] a =
      let (first, a) := a.label start line
      let (last, a) := a.label stop line
      do
        let sourceStart ← wordArg (.number sourceStart)
        let sourceSize ← wordArg (.number sourceSize)
        return { a with
          builder := (a.builder.addCommand first last sourceStart sourceSize).2 } := rfl

theorem takes_command {c : CommandLocation} (start : c.codeStart.toNat ∈ referenced)
    (stop : commandStop c ∈ referenced) :
    Takes [commandLine c] (Assembly.Holds shown referenced bound part)
      (Assembly.Holds shown referenced bound { part with commands := part.commands ++ [c] }) := by
  apply takes_directive (commandLine_eq c) (by decide)
    (.cons (spells_offsetLabel _) (.cons (spells_offsetLabel _)
      (.cons (spells_toNat _) (.cons (spells_toNat _) .nil))))
  intro n a held
  obtain ⟨first, a₁, made₁, held₁, _, marks₁⟩ := held.label start n
  obtain ⟨last, a₂, made₂, held₂, grown₂, marks₂⟩ := held₁.label stop n
  refine ⟨{ a₂ with
    builder := (a₂.builder.addCommand first last c.sourceStart c.sourceSize).2 }, ?_,
    held₂.update rfl { held₂.describes with commands := ?_ }⟩
  · simp only [directive]
    rw [commandDirective_eq]
    simp only [made₁, made₂]
    rw [wordArg_toNat, wordArg_toNat]
    rfl
  · refine List.rel_append held₂.describes.commands (.cons ?_ .nil)
    exact ⟨marks₁.mono grown₂.names, marks₂, rfl, rfl⟩

/-! ### All tables -/

/-- What the directives of a unit say. -/
def tablePart (u : CompiledUnit) : Part :=
  { source := u.source, maxStack := some u.maxStack, locals := u.locals,
    literals := u.literals.map Value.str, foreachInfos := u.foreachInfos, ranges := u.ranges,
    commands := u.commands }

theorem takes_entries {α : Type} {line : α → String} {items : List α} (said : List α → Part)
    (step : ∀ done, ∀ x ∈ items, Takes [line x]
      (Assembly.Holds shown referenced bound (said done))
      (Assembly.Holds shown referenced bound (said (done ++ [x])))) :
    Takes (items.map line) (Assembly.Holds shown referenced bound (said []))
      (Assembly.Holds shown referenced bound (said items)) :=
  takes_each (P := fun done => Assembly.Holds shown referenced bound (said done)) step []

theorem takes_tableLines {u : CompiledUnit} (used : ∀ o ∈ tableOffsets u, o ∈ referenced) :
    Takes (tableLines u) (Assembly.Holds shown referenced bound {})
      (Assembly.Holds shown referenced bound (tablePart u)) := by
  have source : Takes (u.source.map fun text => ".source " ++ quoted text).toList
      (Assembly.Holds shown referenced bound {})
      (Assembly.Holds shown referenced bound { source := u.source }) := by
    cases u.source with
    | none => exact takes_nil
    | some text => exact takes_source text
  have of_range : ∀ r ∈ u.ranges, ∀ o ∈ r.start.toNat :: r.stop :: (rangeTargets r).map Prod.snd,
      o ∈ referenced := fun r member o inside =>
    used o (List.mem_append_left _ (List.mem_flatMap.mpr ⟨r, member, inside⟩))
  have of_command : ∀ c ∈ u.commands, ∀ o ∈ [c.codeStart.toNat, commandStop c],
      o ∈ referenced := fun c member o inside =>
    used o (List.mem_append_right _ (List.mem_flatMap.mpr ⟨c, member, inside⟩))
  have texts := (source.append (takes_maxStack u.maxStack)).append (takes_entries
    (fun done => { source := u.source, maxStack := some u.maxStack, locals := done })
    fun _ name (_ : name ∈ u.locals) => takes_local name)
  have literals := texts.append (takes_entries
    (fun done => { source := u.source, maxStack := some u.maxStack, locals := u.locals,
                   literals := done.map Value.str })
    fun done v (_ : v ∈ u.literals) => by
      rw [List.map_append]
      exact takes_literal v.str)
  have loops := literals.append (takes_entries
    (fun done => { source := u.source, maxStack := some u.maxStack, locals := u.locals,
                   literals := u.literals.map Value.str, foreachInfos := done })
    fun _ f (_ : f ∈ u.foreachInfos) => takes_foreach f)
  have ranges := loops.append (takes_entries
    (fun done => { tablePart u with ranges := done, commands := [] })
    fun _ r (member : r ∈ u.ranges) => by
      apply takes_range
      · exact of_range r member _ List.mem_cons_self
      · exact of_range r member _ (List.mem_cons_of_mem _ List.mem_cons_self)
      · intro t inside
        exact of_range r member _
          (List.mem_cons_of_mem _ (List.mem_cons_of_mem _ (List.mem_map_of_mem inside))))
  exact ranges.append (takes_entries (fun done => { tablePart u with commands := done })
    fun _ c (member : c ∈ u.commands) => by
      apply takes_command
      · exact of_command c member _ List.mem_cons_self
      · exact of_command c member _ (List.mem_cons_of_mem _ List.mem_cons_self))

end Listing

end CommandVM
