import CommandVM.Listing.Assembly
import CommandVM.Listing.Disassembly
import CommandVM.Proofs.Listing.Tokens

/-!
# Labels of offsets

While a listing is assembled whose labels are those of offsets, each label that is in use stands for
one offset, and it is bound there exactly when its line has been read.
-/

namespace CommandVM

/-- A builder less its labels and what it follows of the stack. -/
def Builder.content (b : Builder) : Builder :=
  { b with labels := [], depth := 0, reachable := true, maxDepth := 0 }

@[simp] theorem Builder.labelOffset?_seed (b : Builder) (label k : Nat) :
    (b.seed label).labelOffset? k = b.labelOffset? k := by
  unfold labelOffset? seed
  rw [List.getElem?_modify]
  cases b.labels[k]? with
  | none => rfl
  | some l => by_cases here : label = k <;> simp [here]

theorem Builder.labelOffset?_place {b : Builder} {label : Nat} (known : label < b.labels.length)
    (k : Nat) :
    (b.place label).labelOffset? k = if k = label then some b.offset else b.labelOffset? k := by
  unfold labelOffset? place
  rw [List.getElem?_modify]
  by_cases here : k = label
  · subst here
    rw [List.getElem?_eq_getElem known, if_pos rfl]
    simp
  · have other : label ≠ k := fun same => here same.symm
    rw [if_neg here]
    cases b.labels[k]? <;> simp [other]

namespace Listing

theorem offsetLabel_injective {o p : Nat} (same : offsetLabel o = offsetLabel p) : o = p := by
  have chars := congrArg String.toList same
  simp only [offsetLabel, String.toList_append, List.append_cancel_left_eq, Nat.toString_eq_repr,
    Nat.toList_repr] at chars
  have digits := Text.digitsFrom?_toDigits Text.spelled_ten (by decide) o
  rw [chars, Text.digitsFrom?_toDigits Text.spelled_ten (by decide)] at digits
  exact (Option.some.inj digits).symm

namespace Assembly

/-- The names of the labels in use. -/
def names (a : Assembly) : List String := a.labels.map LabelUse.name

/-- Nothing but labels has been added. -/
structure Extends (a a' : Assembly) : Prop where
  names : a.names <+: a'.names
  content : a'.builder.content = a.builder.content

theorem Extends.refl (a : Assembly) : a.Extends a := ⟨List.prefix_rfl, rfl⟩

theorem Extends.trans {a a' a'' : Assembly} (first : a.Extends a') (second : a'.Extends a'') :
    a.Extends a'' :=
  ⟨first.names.trans second.names, second.content.trans first.content⟩

/-- The labels in use are those of referenced offsets, and a label is defined when its offset is
bound. -/
structure Labelled (referenced bound : List Nat) (a : Assembly) : Prop where
  distinct : a.names.Nodup
  sized : a.builder.labels.length = a.labels.length
  uses : ∀ k use, a.labels[k]? = some use → use.label = k ∧ ∃ o ∈ referenced,
    use.name = offsetLabel o ∧ use.defined = decide (o ∈ bound) ∧
      a.builder.labelOffset? k = if o ∈ bound then some o else none
  named : ∀ o ∈ referenced, o ∈ bound → offsetLabel o ∈ a.names

variable {referenced bound : List Nat} {a : Assembly} {o label : Nat}

theorem labelled_empty (referenced : List Nat) : Labelled referenced [] {} where
  distinct := List.nodup_nil
  sized := rfl
  uses := by simp
  named := by simp

theorem Labelled.congr (labelled : a.Labelled referenced bound) {b : Builder}
    {lines : List (Nat × Nat)} (sized : b.labels.length = a.builder.labels.length)
    (offsets : ∀ k, b.labelOffset? k = a.builder.labelOffset? k) :
    Labelled referenced bound { a with builder := b, lines } where
  distinct := labelled.distinct
  sized := sized.trans labelled.sized
  uses := by
    intro k use found
    rw [offsets]
    exact labelled.uses k use found
  named := labelled.named

/-! ### Using a label -/

theorem mem_names {name : String} :
    name ∈ a.names ↔ ∃ k : Nat, ∃ use : LabelUse, a.labels[k]? = some use ∧ use.name = name := by
  unfold names
  rw [List.mem_map]
  constructor
  · rintro ⟨use, member, same⟩
    obtain ⟨k, found⟩ := List.mem_iff_getElem?.mp member
    exact ⟨k, use, found, same⟩
  · rintro ⟨k, use, found, same⟩
    exact ⟨use, List.mem_of_getElem? found, same⟩

theorem Labelled.label_old (labelled : a.Labelled referenced bound) {use : LabelUse}
    (found : a.labels.find? (·.name == offsetLabel o) = some use) (line : Nat) :
    a.label (offsetLabel o) line = (use.label, a) ∧ a.names[use.label]? = some (offsetLabel o) := by
  constructor
  · unfold Assembly.label
    rw [found]
  · obtain ⟨k, here⟩ := List.mem_iff_getElem?.mp (List.mem_of_find?_eq_some found)
    have name : use.name = offsetLabel o := by simpa using List.find?_some found
    rw [(labelled.uses k use here).1, names, List.getElem?_map, here, ← name]
    rfl

theorem Labelled.label_new (labelled : a.Labelled referenced bound) (used : o ∈ referenced)
    (absent : a.labels.find? (·.name == offsetLabel o) = none) (line : Nat) :
    ∃ a', a.label (offsetLabel o) line = (a.labels.length, a') ∧ a'.Labelled referenced bound ∧
      a'.names = a.names ++ [offsetLabel o] ∧ a'.builder.content = a.builder.content := by
  have unnamed : offsetLabel o ∉ a.names := by
    rw [mem_names]
    rintro ⟨k, use, found, same⟩
    have := List.find?_eq_none.mp absent use (List.mem_of_getElem? found)
    simp [same] at this
  -- A bound offset is named, so the new label starts out undefined.
  have unbound : o ∉ bound := fun member => unnamed (labelled.named o used member)
  let use : LabelUse :=
    { name := offsetLabel o, label := a.labels.length, defined := false, firstLine := line }
  let a' : Assembly :=
    { a with builder := a.builder.newLabel.2, labels := a.labels ++ [use] }
  have names' : a'.names = a.names ++ [offsetLabel o] := List.map_append
  have made : a.label (offsetLabel o) line = (a.labels.length, a') := by
    unfold Assembly.label
    rw [absent]
    simp only [Builder.newLabel, labelled.sized, a', use]
  have older : ∀ k, k < a.labels.length →
      a'.builder.labelOffset? k = a.builder.labelOffset? k := by
    intro k inside
    show ((a.builder.labels ++ [_])[k]?).bind _ = _
    rw [List.getElem?_append_left (by rw [labelled.sized]; exact inside)]
    rfl
  refine ⟨a', made, ?_, names', rfl⟩
  constructor
  · rw [names', List.nodup_append]
    refine ⟨labelled.distinct, by simp, ?_⟩
    rintro name member _ same rfl
    rw [List.mem_singleton.mp same] at member
    exact unnamed member
  · show (a.builder.labels ++ [_]).length = (a.labels ++ [use]).length
    rw [List.length_append, List.length_append, labelled.sized]
    rfl
  · intro k found here
    rw [show a'.labels = a.labels ++ [use] from rfl] at here
    rcases Nat.lt_or_ge k a.labels.length with inside | beyond
    · rw [List.getElem?_append_left inside] at here
      rw [older k inside]
      exact labelled.uses k found here
    · rw [List.getElem?_append_right beyond] at here
      obtain ⟨last, rfl⟩ : k - a.labels.length = 0 ∧ use = found := by
        cases distance : k - a.labels.length with
        | zero =>
          rw [distance] at here
          exact ⟨rfl, Option.some.inj here⟩
        | succ n =>
          rw [distance] at here
          cases here
      obtain rfl : k = a.labels.length := by omega
      refine ⟨rfl, o, used, rfl, (decide_eq_false unbound).symm, ?_⟩
      rw [if_neg unbound]
      show ((a.builder.labels ++ [_])[a.labels.length]?).bind _ = _
      rw [← labelled.sized, List.getElem?_concat_length]
      rfl
  · intro p member inside
    rw [names', List.mem_append]
    exact .inl (labelled.named p member inside)

theorem Labelled.label_spec (labelled : a.Labelled referenced bound) (used : o ∈ referenced)
    (line : Nat) :
    ∃ label a', a.label (offsetLabel o) line = (label, a') ∧ a'.Labelled referenced bound ∧
      a.Extends a' ∧ a'.names[label]? = some (offsetLabel o) := by
  cases found : a.labels.find? (·.name == offsetLabel o) with
  | some use =>
    obtain ⟨made, named⟩ := labelled.label_old found line
    exact ⟨_, a, made, labelled, .refl a, named⟩
  | none =>
    obtain ⟨a', made, labelled', names, content⟩ := labelled.label_new used found line
    refine ⟨_, a', made, labelled', ⟨?_, content⟩, ?_⟩
    · rw [names]
      exact List.prefix_append _ _
    · rw [names, show a.labels.length = a.names.length from (List.length_map _).symm,
        List.getElem?_concat_length]

/-! ### Defining a label -/

theorem Labelled.skip (labelled : a.Labelled referenced bound) (unused : o ∉ referenced) :
    a.Labelled referenced (bound ++ [o]) := by
  have same : ∀ p ∈ referenced, (p ∈ bound ++ [o] ↔ p ∈ bound) := by
    intro p member
    have other : p ≠ o := by
      rintro rfl
      exact unused member
    simp [other]
  constructor
  · exact labelled.distinct
  · exact labelled.sized
  · intro k use found
    obtain ⟨number, p, member, name, defined, offset⟩ := labelled.uses k use found
    refine ⟨number, p, member, name, ?_, ?_⟩
    · rw [defined]
      exact decide_eq_decide.mpr (same p member).symm
    · rw [offset]
      exact if_congr (same p member).symm rfl rfl
  · intro p member inside
    exact labelled.named p member ((same p member).mp inside)

theorem Labelled.use_of_names (labelled : a.Labelled referenced bound)
    (named : a.names[label]? = some (offsetLabel o)) :
    ∃ use, a.labels[label]? = some use ∧ use.name = offsetLabel o ∧ o ∈ referenced ∧
      use.defined = decide (o ∈ bound) ∧
      a.builder.labelOffset? label = if o ∈ bound then some o else none := by
  rw [names, List.getElem?_map] at named
  obtain ⟨use, found, name⟩ := Option.map_eq_some_iff.mp named
  obtain ⟨_, p, member, same, defined, offset⟩ := labelled.uses label use found
  obtain rfl : o = p := offsetLabel_injective (name.symm.trans same)
  exact ⟨use, found, name, member, defined, offset⟩

/-- The uses after a label has been defined. -/
def defining (name : String) (use : LabelUse) : LabelUse :=
  if use.name == name then { use with defined := true } else use

theorem map_defining_name (name : String) (uses : List LabelUse) :
    (uses.map (defining name)).map LabelUse.name = uses.map LabelUse.name := by
  rw [List.map_map]
  apply List.map_congr_left
  intro use _
  show (defining name use).name = use.name
  unfold defining
  split <;> rfl

theorem Labelled.of_place (labelled : a.Labelled referenced bound) {b : Builder}
    (named : a.names[label]? = some (offsetLabel o))
    (sized : b.labels.length = a.builder.labels.length)
    (offsets : ∀ k, b.labelOffset? k = if k = label then some o else a.builder.labelOffset? k) :
    Labelled referenced (bound ++ [o])
      { a with builder := b, labels := a.labels.map (defining (offsetLabel o)) } := by
  have kept := map_defining_name (offsetLabel o) a.labels
  have member : offsetLabel o ∈ a.names := List.mem_of_getElem? named
  constructor
  · show ((a.labels.map _).map LabelUse.name).Nodup
    rw [kept]
    exact labelled.distinct
  · show b.labels.length = (a.labels.map _).length
    rw [sized, labelled.sized, List.length_map]
  · intro k use found
    have found' : (a.labels.map (defining (offsetLabel o)))[k]? = some use := found
    rw [List.getElem?_map] at found'
    obtain ⟨before, here, rfl⟩ := Option.map_eq_some_iff.mp found'
    obtain ⟨number, p, referred, name, defined, offset⟩ := labelled.uses k before here
    show _ ∧ ∃ p ∈ referenced, _ ∧ _ ∧ b.labelOffset? k = _
    rw [offsets]
    by_cases same : p = o
    · subst same
      -- Names are distinct, so the use with this name is the one that was placed.
      have place : k = label := by
        apply (List.getElem?_inj (by
          rw [names, List.length_map]
          exact (List.getElem?_eq_some_iff.mp here).1) labelled.distinct).mp
        rw [named, names, List.getElem?_map, here, ← name]
        rfl
      have changed : defining (offsetLabel p) before = { before with defined := true } := by
        rw [defining, if_pos (by simpa using name)]
      rw [changed]
      refine ⟨number, p, referred, name, ?_, ?_⟩
      · simp
      · rw [if_pos place, if_pos (by simp)]
    · have other : ¬ offsetLabel p = offsetLabel o := fun equal => same (offsetLabel_injective equal)
      have elsewhere : k ≠ label := by
        rintro rfl
        rw [names, List.getElem?_map, here] at named
        exact other (name.symm.trans (Option.some.inj named))
      have unchanged : defining (offsetLabel o) before = before := by
        rw [defining, name, if_neg (by simpa using other)]
      rw [unchanged]
      refine ⟨number, p, referred, name, ?_, ?_⟩
      · simp [defined, same]
      · simp [offset, same, elsewhere]
  · intro p referred inside
    show offsetLabel p ∈ (a.labels.map _).map LabelUse.name
    rw [kept]
    rcases List.mem_append.mp inside with earlier | last
    · exact labelled.named p referred earlier
    · rw [List.mem_singleton.mp last]
      exact member

theorem Labelled.define_spec (labelled : a.Labelled referenced bound) (used : o ∈ referenced)
    (fresh : o ∉ bound) (here : a.builder.offset = o) (line : Nat) :
    ∃ a', a.define (offsetLabel o) line = .ok a' ∧ a'.Labelled referenced (bound ++ [o]) ∧
      a.Extends a' := by
  obtain ⟨label, a₁, made, labelled₁, extends₁, named⟩ := labelled.label_spec used line
  obtain ⟨use, found, name, _, _, offset⟩ := labelled₁.use_of_names named
  have undefined : ¬ (a₁.labels.any fun use => use.name == offsetLabel o && use.defined) = true := by
    rw [List.any_eq_true]
    rintro ⟨other, member, both⟩
    rw [Bool.and_eq_true, beq_iff_eq] at both
    obtain ⟨k, at_k⟩ := List.mem_iff_getElem?.mp member
    obtain ⟨_, p, _, same, defined, _⟩ := labelled₁.uses k other at_k
    obtain rfl : o = p := offsetLabel_injective (both.1.symm.trans same)
    rw [defined, decide_eq_true_eq] at both
    exact fresh both.2
  rw [if_neg fresh] at offset
  have place : a₁.builder.offset = o := by
    rw [← here]
    exact congrArg (fun b => b.code.length) extends₁.content
  have known : label < a₁.builder.labels.length := by
    rw [labelled₁.sized]
    exact (List.getElem?_eq_some_iff.mp found).1
  obtain ⟨b, bound_here, labels, content⟩ : ∃ b, a₁.builder.bind label = .ok b ∧
      b.labels = (a₁.builder.place label).labels ∧ b.content = a₁.builder.content := by
    unfold Builder.bind
    rw [offset, if_neg (by simp)]
    exact ⟨_, rfl, rfl, rfl⟩
  refine ⟨{ a₁ with builder := b, labels := a₁.labels.map (defining (offsetLabel o)) }, ?_, ?_, ?_⟩
  · unfold define
    simp only [made]
    rw [if_neg undefined, bound_here]
    rfl
  · apply labelled₁.of_place named
    · rw [labels, Builder.place, List.length_modify]
    · intro k
      have moved := Builder.labelOffset?_place known k
      rw [place] at moved
      rw [← moved, Builder.labelOffset?, Builder.labelOffset?, labels]
  · have kept := map_defining_name (offsetLabel o) a₁.labels
    refine extends₁.trans ⟨⟨[], ?_⟩, content⟩
    rw [List.append_nil]
    exact kept.symm

/-! ### Resolving labels -/

theorem Labelled.resolve (labelled : a.Labelled referenced bound)
    (named : a.names[label]? = some (offsetLabel o)) (all : ∀ p ∈ referenced, p ∈ bound) :
    o ∈ referenced ∧ a.builder.resolve label = .ok (UInt32.ofNat o) := by
  obtain ⟨_, _, _, member, _, offset⟩ := labelled.use_of_names named
  rw [if_pos (all o member)] at offset
  refine ⟨member, ?_⟩
  rw [Builder.resolve, offset]

theorem Labelled.firstUndefined (labelled : a.Labelled referenced bound)
    (all : ∀ p ∈ referenced, p ∈ bound) : firstUndefined a.labels = none := by
  have none_left : a.labels.filter (!·.defined) = [] := by
    rw [List.filter_eq_nil_iff]
    intro use member
    obtain ⟨k, found⟩ := List.mem_iff_getElem?.mp member
    obtain ⟨_, o, referred, _, defined, _⟩ := labelled.uses k use found
    rw [defined, decide_eq_true (all o referred)]
    decide
  rw [Listing.firstUndefined, none_left]

end Assembly

end Listing

end CommandVM
