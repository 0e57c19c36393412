import CommandVM.Proofs.Listing.Labels

/-!
# What the lines of a listing have said

`Holds` relates an assembly to the part of a unit that the lines read so far describe. `Takes` described
that lines lead from any assembly with one property to an assembly with another.
-/

namespace CommandVM.Listing

/-- The part of a unit that some lines describe. -/
structure Part where
  source : Option String := none
  maxStack : Option UInt32 := none
  locals : List String := []
  literals : List String := []
  foreachInfos : List ForeachInfo := []
  ranges : List ExceptionRange := []
  commands : List CommandLocation := []
  instructions : List (Nat × Instruction) := []

/-! ### Pending tables -/

/-- A label of the builder stands for an offset. -/
def Marks (names : List String) (label o : Nat) : Prop := names[label]? = some (offsetLabel o)

/-- A range of the builder stands for a range, whose level is not known yet. -/
structure MarksRange (names : List String) (p : PendingRange) (r : ExceptionRange) : Prop where
  kind : p.kind = r.kind
  start : Marks names p.start r.start.toNat
  stop : Marks names p.stop r.stop
  breakTarget : Option.Rel (fun label o => Marks names label o.toNat) p.breakTarget r.breakTarget
  continueTarget :
    Option.Rel (fun label o => Marks names label o.toNat) p.continueTarget r.continueTarget
  catchTarget : Option.Rel (fun label o => Marks names label o.toNat) p.catchTarget r.catchTarget

/-- A command location of the builder stands for a command location. -/
structure MarksCommand (names : List String) (p : PendingCommand) (c : CommandLocation) : Prop where
  start : Marks names p.start c.codeStart.toNat
  stop : Marks names p.stop (commandStop c)
  sourceStart : p.sourceStart = c.sourceStart
  sourceSize : p.sourceSize = c.sourceSize

/-- A jump at an offset that is written with the label of its target. -/
structure ShownJump where
  offset : Nat
  opcode : Opcode
  target : Nat

/-- A fixup of the builder stands for a jump. -/
structure MarksJump (names : List String) (f : Fixup) (jump : ShownJump) : Prop where
  offset : f.offset = jump.offset
  kind : f.kind = Builder.distanceKind jump.opcode
  label : Marks names f.label jump.target

/-- The jump that an instruction is written as, where `shown` gives the targets. -/
def shownJump? (shown : Nat → Instruction → Option Nat) (pair : Nat × Instruction) :
    Option ShownJump :=
  (shown pair.1 pair.2).map fun target =>
    { offset := pair.1, opcode := pair.2.opcode, target }

/-- An instruction as it is emitted: the distance of a jump to a label is filled in later. -/
def draft (shown : Nat → Instruction → Option Nat) (pair : Nat × Instruction) : Instruction :=
  match shown pair.1 pair.2 with
  | some _ => { pair.2 with operands := [0] }
  | none => pair.2

/-- A builder has what the lines have said. -/
structure Describes (shown : Nat → Instruction → Option Nat) (names : List String) (part : Part)
    (b : Builder) : Prop where
  source : b.source = part.source
  maxStack : b.maxOverride = part.maxStack
  locals : b.locals = part.locals
  literals : b.literals = part.literals.map Value.text
  foreachInfos : b.foreachInfos = part.foreachInfos
  ranges : List.Forall₂ (MarksRange names) b.ranges part.ranges
  commands : List.Forall₂ (MarksCommand names) b.commands part.commands
  code : b.code = part.instructions.flatMap fun pair => (draft shown pair).encode
  fixups : List.Forall₂ (MarksJump names) b.fixups (part.instructions.filterMap (shownJump? shown))

section Growth

variable {names names' : List String} {label o : Nat} {p : PendingRange} {r : ExceptionRange}
  {c : PendingCommand} {l : CommandLocation} {f : Fixup} {jump : ShownJump}

theorem Marks.mono (grows : names <+: names') (marks : Marks names label o) :
    Marks names' label o := by
  obtain ⟨more, rfl⟩ := grows
  have inside := (List.getElem?_eq_some_iff.mp marks).1
  unfold Marks
  rw [List.getElem?_append_left inside]
  exact marks

theorem rel_mono (grows : names <+: names') {target : Option Nat} {given : Option UInt32}
    (marks : Option.Rel (fun label o => Marks names label o.toNat) target given) :
    Option.Rel (fun label o => Marks names' label o.toNat) target given := by
  cases marks with
  | none => exact .none
  | some here => exact .some (here.mono grows)

theorem MarksRange.mono (grows : names <+: names') (marks : MarksRange names p r) :
    MarksRange names' p r where
  kind := marks.kind
  start := marks.start.mono grows
  stop := marks.stop.mono grows
  breakTarget := rel_mono grows marks.breakTarget
  continueTarget := rel_mono grows marks.continueTarget
  catchTarget := rel_mono grows marks.catchTarget

theorem MarksCommand.mono (grows : names <+: names') (marks : MarksCommand names c l) :
    MarksCommand names' c l :=
  { marks with start := marks.start.mono grows, stop := marks.stop.mono grows }

theorem MarksJump.mono (grows : names <+: names') (marks : MarksJump names f jump) :
    MarksJump names' f jump :=
  { marks with label := marks.label.mono grows }

end Growth

/-! ### The assembly as a whole -/

/-- An assembly has what the lines have said, and the labels of the bound offsets are defined. -/
structure Assembly.Holds (shown : Nat → Instruction → Option Nat) (referenced bound : List Nat)
    (part : Part) (a : Assembly) : Prop where
  labelled : a.Labelled referenced bound
  describes : Describes shown a.names part a.builder

namespace Assembly

variable {shown : Nat → Instruction → Option Nat} {referenced bound bound' : List Nat}
  {part part' : Part} {a a' : Assembly} {o : Nat}

theorem holds_empty : Holds shown referenced [] {} {} where
  labelled := labelled_empty referenced
  describes := by constructor <;> first | rfl | exact .nil

theorem Holds.extend (held : a.Holds shown referenced bound part) (grown : a.Extends a')
    (labelled : a'.Labelled referenced bound') : a'.Holds shown referenced bound' part := by
  obtain ⟨_, described⟩ := held
  obtain ⟨grows, content⟩ := grown
  have same {α : Type} (field : Builder → α) (kept : ∀ b, field b.content = field b) :
      field a'.builder = field a.builder := by
    rw [← kept, content, kept]
  refine ⟨labelled, ?_⟩
  constructor
  · rw [same Builder.source fun _ => rfl]
    exact described.source
  · rw [same Builder.maxOverride fun _ => rfl]
    exact described.maxStack
  · rw [same Builder.locals fun _ => rfl]
    exact described.locals
  · rw [same Builder.literals fun _ => rfl]
    exact described.literals
  · rw [same Builder.foreachInfos fun _ => rfl]
    exact described.foreachInfos
  · rw [same Builder.ranges fun _ => rfl]
    exact described.ranges.imp fun _ _ => MarksRange.mono grows
  · rw [same Builder.commands fun _ => rfl]
    exact described.commands.imp fun _ _ => MarksCommand.mono grows
  · rw [same Builder.code fun _ => rfl]
    exact described.code
  · rw [same Builder.fixups fun _ => rfl]
    exact described.fixups.imp fun _ _ => MarksJump.mono grows

theorem Holds.update (held : a.Holds shown referenced bound part) {b : Builder}
    (labels : b.labels = a.builder.labels) (described : Describes shown a.names part' b) :
    Holds shown referenced bound part' { a with builder := b } := by
  refine ⟨held.labelled.congr (by rw [labels]) fun k => ?_, described⟩
  rw [Builder.labelOffset?, Builder.labelOffset?, labels]

theorem Holds.label (held : a.Holds shown referenced bound part) (used : o ∈ referenced)
    (line : Nat) :
    ∃ label a', a.label (offsetLabel o) line = (label, a') ∧
      a'.Holds shown referenced bound part ∧ a.Extends a' ∧ Marks a'.names label o := by
  obtain ⟨label, a', made, labelled, grown, named⟩ := held.labelled.label_spec used line
  exact ⟨label, a', made, held.extend grown labelled, grown, named⟩

end Assembly

/-! ### Lines -/

/-- The lines lead from every assembly with `P` to an assembly with `Q`. -/
structure Takes (lines : List String) (P Q : Assembly → Prop) : Prop where
  unbroken : ∀ line ∈ lines, Unbroken line.toList
  run : ∀ n a, P a → ∃ a', assembleLines n (lines.map String.toList) a = .ok a' ∧ Q a'

variable {P Q R : Assembly → Prop}

theorem takes_nil : Takes [] P P where
  unbroken := by simp
  run := fun _ a holds => ⟨a, rfl, holds⟩

theorem Takes.weaken {lines : List String} (takes : Takes lines P Q) (stronger : ∀ a, R a → P a) :
    Takes lines R Q where
  unbroken := takes.unbroken
  run := fun n a holds => takes.run n a (stronger a holds)

theorem assembleLines_append (n : Nat) (xs ys : List (List Char)) {a a' : Assembly}
    (first : assembleLines n xs a = .ok a') :
    assembleLines n (xs ++ ys) a = assembleLines (n + xs.length) ys a' := by
  induction xs generalizing n a with
  | nil =>
    cases first
    rfl
  | cons x xs ih =>
    rw [List.cons_append, List.length_cons, Nat.add_comm xs.length, ← Nat.add_assoc]
    cases read : assembleLine n x a with
    | error => simp only [assembleLines, read, reduceCtorEq] at first
    | ok next =>
      simp only [assembleLines, read] at first ⊢
      exact ih (n + 1) first

theorem Takes.append {xs ys : List String} (first : Takes xs P Q) (second : Takes ys Q R) :
    Takes (xs ++ ys) P R where
  unbroken := by
    intro line member
    rcases List.mem_append.mp member with left | right
    · exact first.unbroken line left
    · exact second.unbroken line right
  run := by
    intro n a holds
    obtain ⟨a₁, run₁, holds₁⟩ := first.run n a holds
    obtain ⟨a₂, run₂, holds₂⟩ := second.run (n + (xs.map String.toList).length) a₁ holds₁
    refine ⟨a₂, ?_, holds₂⟩
    rw [List.map_append, assembleLines_append _ _ _ run₁]
    exact run₂

theorem takes_line {line : String} {ts : List Token} (spelled : SpellsLine line.toList ts)
    (step : ∀ n a, P a → ∃ a', assembleTokens n ts a = .ok a' ∧ Q a') : Takes [line] P Q where
  unbroken := by
    intro other member
    rw [List.mem_singleton.mp member]
    exact spelled.unbroken
  run := by
    intro n a holds
    obtain ⟨a', done, holds'⟩ := step n a holds
    refine ⟨a', ?_, holds'⟩
    simp only [List.map_cons, List.map_nil, assembleLines, assembleLine, spelled.reads, done]

theorem takes_each {α : Type} {line : α → String} {P : List α → Assembly → Prop} {items : List α}
    (step : ∀ done, ∀ x ∈ items, Takes [line x] (P done) (P (done ++ [x]))) (done : List α) :
    Takes (items.map line) (P done) (P (done ++ items)) := by
  induction items generalizing done with
  | nil =>
    rw [List.append_nil]
    exact takes_nil
  | cons x items ih =>
    have first := step done x List.mem_cons_self
    have rest := ih (fun done y member => step done y (List.mem_cons_of_mem _ member)) (done ++ [x])
    rw [List.append_assoc, List.singleton_append] at rest
    exact first.append rest

theorem Takes.assemble {lines : List String} (takes : Takes lines P Q) (start : P {}) :
    ∃ a, Q a ∧ assemble (String.join (lines.map (· ++ "\n"))) = finish a := by
  obtain ⟨a, run, holds⟩ := takes.run 1 {} start
  have chars : (String.join (lines.map (· ++ "\n"))).toList =
      (lines.map String.toList).flatMap (· ++ ['\n']) := by
    rw [String.toList_join, List.flatMap_map, List.flatMap_map]
    apply List.flatMap_congr
    intro line _
    rw [String.toList_append]
    rfl
  have cut : Text.lines (String.join (lines.map (· ++ "\n"))).toList =
      lines.map String.toList := by
    rw [chars]
    apply lines_flatMap
    intro cs member
    obtain ⟨line, inside, rfl⟩ := List.mem_map.mp member
    exact takes.unbroken line inside
  refine ⟨a, holds, ?_⟩
  rw [Listing.assemble, cut, run]

end CommandVM.Listing
