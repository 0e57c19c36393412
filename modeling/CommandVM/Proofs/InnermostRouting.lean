import CommandVM.Proofs.Machine.Moves
import CommandVM.Proofs.Verifier.Accepted

/-!
# The innermost range decides

The second pass lets a range stand only after those that enclose it. The last range around an
instruction is therefore inside all others there, and the exceptions of the instruction go to it;
but only as long as the ranges there end within 32 bits. The end of another range is reduced to an
offset before its start, and so the range passes for one that lies elsewhere.
-/

namespace CommandVM

open Verifier (Layout tableErrors)

variable {u : CompiledUnit} {l : Layout} {ranges before after : List ExceptionRange}
  {q r s : ExceptionRange} {pc : Nat} {catchOnly : Bool}

/-! ### Ranges within 32 bits -/

namespace ExceptionRange

/-- The range ends within 32 bits. -/
def Fits (r : ExceptionRange) : Prop := r.start.toNat + r.size.toNat < UInt32.size

instance (r : ExceptionRange) : Decidable r.Fits := inferInstanceAs (Decidable (_ < _))

theorem stop_lt_start (wraps : ¬ r.Fits) : r.stop < r.start.toNat := by
  have start := r.start.toNat_lt
  have size := r.size.toNat_lt
  have reduced : r.stop = (r.start.toNat + r.size.toNat) % 2 ^ 32 := UInt32.toNat_add _ _
  simp only [Fits, UInt32.size] at wraps
  omega

theorem encloses_refl (r : ExceptionRange) : r.encloses r = true := by
  simp [encloses]

theorem encloses_trans (outer : q.encloses s = true) (inner : s.encloses r = true) :
    q.encloses r = true := by
  simp only [encloses, Bool.and_eq_true, decide_eq_true_eq] at *
  omega

theorem fits_of_encloses (fits : r.Fits) (around : s.encloses r = true) : s.Fits := by
  refine Decidable.byContradiction fun wraps => ?_
  have early := stop_lt_start wraps
  have stop := stop_eq fits
  simp only [encloses, Bool.and_eq_true, decide_eq_true_eq] at around
  omega

/-- Ranges that fit and are not apart enclose one another where they have a byte in common. -/
theorem encloses_iff_contains (fits : s.Fits) (fits' : r.Fits)
    (apart : s.encloses r = true ∨ s.disjoint r = true) (inside : r.contains pc = true) :
    s.encloses r = true ↔ s.contains pc = true := by
  have outer := stop_eq fits
  have inner := stop_eq fits'
  simp only [encloses, disjoint, contains, Bool.and_eq_true, Bool.or_eq_true,
    decide_eq_true_eq] at *
  omega

end ExceptionRange

open ExceptionRange

/-! ### Nested tables -/

/-- Each range meets only those before it that enclose it, by their first and last offsets, and its
level counts these in 32 bits. -/
def Nested (ranges : List ExceptionRange) : Prop :=
  ∀ before r after, ranges = before ++ r :: after →
    (∀ s ∈ before, s.encloses r = true ∨ s.disjoint r = true) ∧
      r.level = UInt32.ofNat (before.countP (·.encloses r))

theorem nested_of_tableErrors (clean : tableErrors u l = []) : Nested u.ranges := by
  intro before r after split
  have found : u.ranges[before.length]? = some r := by simp [split]
  have earlier : u.ranges.take before.length = before := by simp [split]
  have none := Verifier.rangeErrors_eq_nil clean found
  rw [earlier] at none
  simp only [Verifier.rangeErrors, List.append_eq_nil_iff] at none
  obtain ⟨⟨_, order⟩, level⟩ := none
  constructor
  · intro s member
    obtain ⟨index, here⟩ := List.getElem?_of_mem member
    simp only [Verifier.orderErrors, List.map_eq_nil_iff, List.filter_eq_nil_iff] at order
    have apart := order (s, index) (List.mk_mem_zipIdx_iff_getElem?.mpr here)
    simp only [Bool.and_eq_true, Bool.not_eq_true', not_and, Bool.not_eq_false] at apart
    cases encloses : s.encloses r with
    | true => exact .inl rfl
    | false => exact .inr (apart encloses)
  · simp only [Verifier.levelErrors] at level
    split at level
    · rename_i counted
      rw [counted, List.countP_eq_length_filter]
    · cases level

theorem Nested.level_eq (nested : Nested ranges) (few : ranges.length ≤ UInt32.size)
    (split : ranges = before ++ r :: after) : r.level.toNat = before.countP (·.encloses r) := by
  have counted : before.countP (·.encloses r) ≤ before.length := List.countP_le_length
  rw [split, List.length_append, List.length_cons] at few
  rw [(nested before r after split).2, UInt32.toNat_ofNat_of_lt' (by omega)]

theorem Nested.level_lt (nested : Nested ranges) (few : ranges.length ≤ UInt32.size)
    {between : List ExceptionRange} (split : ranges = before ++ s :: between ++ r :: after)
    (around : s.encloses r = true) : s.level.toNat < r.level.toNat := by
  have outer : ranges = before ++ s :: (between ++ r :: after) := by simpa using split
  -- What encloses the outer range encloses the inner one too.
  have fewer : before.countP (·.encloses s) ≤ before.countP (·.encloses r) :=
    List.countP_mono_left fun _ _ further => encloses_trans further around
  rw [nested.level_eq few outer, nested.level_eq few split, List.countP_append,
    List.countP_cons, if_pos around]
  omega

/-! ### The last range around an offset -/

namespace Frame

/-- The range is around the offset; on demand only if it catches. -/
def Around (pc : Nat) (catchOnly : Bool) (r : ExceptionRange) : Prop :=
  r.contains pc = true ∧ (catchOnly = true → r.kind = .catch)

/-- All ranges around the offset enclose this one, and none of them has a greater level. -/
structure Innermost (ranges : List ExceptionRange) (pc : Nat) (catchOnly : Bool)
    (r : ExceptionRange) : Prop where
  member : r ∈ ranges
  around : Around pc catchOnly r
  enclosed : ∀ s ∈ ranges, Around pc catchOnly s → s.encloses r = true
  deepest : ∀ s ∈ ranges, Around pc catchOnly s → s.level ≤ r.level

theorem around_iff :
    (r.contains pc && (!catchOnly || r.kind == .catch)) = true ↔ Around pc catchOnly r := by
  cases catchOnly <;> simp [Around]

/-- The ranges around the offset end within 32 bits; on demand only those that catch. -/
def FitAround (ranges : List ExceptionRange) (pc : Nat) (catchOnly : Bool) : Prop :=
  ∀ s ∈ ranges, Around pc catchOnly s → s.Fits

instance : Decidable (Around pc catchOnly r) := inferInstanceAs (Decidable (_ ∧ _))

instance : Decidable (FitAround ranges pc catchOnly) :=
  inferInstanceAs (Decidable (∀ s ∈ ranges, Around pc catchOnly s → s.Fits))

/-- A nested table, with no more ranges than levels can count, that is free of reduced ends around
the offset. -/
structure NestedAt (ranges : List ExceptionRange) (pc : Nat) (catchOnly : Bool) : Prop where
  nested : Nested ranges
  few : ranges.length ≤ UInt32.size
  fit : FitAround ranges pc catchOnly

namespace NestedAt

theorem catching (nested : NestedAt ranges pc false) : NestedAt ranges pc true where
  nested := nested.nested
  few := nested.few
  fit s member around := nested.fit s member ⟨around.1, nofun⟩

theorem encloses (nested : NestedAt ranges pc catchOnly) (split : ranges = before ++ r :: after)
    (here : Around pc catchOnly r) (member : s ∈ before) (around : Around pc catchOnly s) :
    s.encloses r = true := by
  have fits := nested.fit s (by simp [split, member]) around
  have fits' := nested.fit r (by simp [split]) here
  have apart := (nested.nested before r after split).1 s member
  exact (encloses_iff_contains fits fits' apart here.1).mpr around.1

theorem level_lt (nested : NestedAt ranges pc catchOnly) {between : List ExceptionRange}
    (split : ranges = before ++ s :: between ++ r :: after) (around : Around pc catchOnly s)
    (here : Around pc catchOnly r) : s.level.toNat < r.level.toNat :=
  nested.nested.level_lt nested.few split (nested.encloses split here (by simp) around)

/-- Among the ranges before one that is around the offset, those that enclose it are those that are
around the offset too. -/
theorem level_eq (nested : NestedAt ranges pc false) (split : ranges = before ++ r :: after)
    (inside : r.contains pc = true) : r.level.toNat = before.countP (·.contains pc) := by
  rw [nested.nested.level_eq nested.few split]
  refine List.countP_congr fun s member => ⟨fun around => ?_, fun covers => ?_⟩
  · have fits' := nested.fit r (by simp [split]) ⟨inside, nofun⟩
    have apart := (nested.nested before r after split).1 s member
    exact (encloses_iff_contains (fits_of_encloses fits' around) fits' apart inside).mp around
  · exact nested.encloses split ⟨inside, nofun⟩ member ⟨covers, nofun⟩

end NestedAt

theorem innermost?_eq_some_iff : innermost? ranges pc catchOnly = some r ↔
    Around pc catchOnly r ∧ ∃ before after, ranges = before ++ r :: after ∧
      ∀ s ∈ after, ¬ Around pc catchOnly s := by
  rw [innermost?, List.getLast?_filter, List.find?_eq_some_iff_append, around_iff]
  simp only [← around_iff, Bool.not_eq_true', Bool.not_eq_true]
  constructor
  · rintro ⟨here, later, earlier, split, none⟩
    refine ⟨here, earlier.reverse, later.reverse, ?_, by simpa using none⟩
    simpa using congrArg List.reverse split
  · rintro ⟨here, before, after, split, none⟩
    exact ⟨here, after.reverse, before.reverse, by simp [split], by simpa using none⟩

theorem innermost?_eq_none_iff : innermost? ranges pc catchOnly = none ↔
    ∀ s ∈ ranges, ¬ Around pc catchOnly s := by
  simp only [innermost?, List.getLast?_eq_none_iff, List.filter_eq_nil_iff, around_iff]

theorem innermost?_iff (nested : NestedAt ranges pc catchOnly) :
    innermost? ranges pc catchOnly = some r ↔ Innermost ranges pc catchOnly r := by
  rw [innermost?_eq_some_iff]
  constructor
  · rintro ⟨here, before, after, split, last⟩
    -- The other ranges around the offset stand before this one.
    have earlier {s : ExceptionRange} (member : s ∈ ranges) (around : Around pc catchOnly s) :
        s = r ∨ s ∈ before := by
      rw [split, List.mem_append, List.mem_cons] at member
      rcases member with earlier | same | later
      · exact .inr earlier
      · exact .inl same
      · exact absurd around (last s later)
    refine ⟨by simp [split], here, ?_, ?_⟩
    · intro s member around
      rcases earlier member around with rfl | earlier
      · exact encloses_refl s
      · exact nested.encloses split here earlier around
    · intro s member around
      rcases earlier member around with rfl | earlier
      · exact UInt32.le_refl _
      · obtain ⟨first, between, rfl⟩ := List.append_of_mem earlier
        have deeper := nested.level_lt split around here
        rw [UInt32.le_iff_toNat_le]
        omega
  · rintro ⟨member, here, _, deepest⟩
    obtain ⟨before, after, split⟩ := List.append_of_mem member
    refine ⟨here, before, after, split, ?_⟩
    intro s later around
    obtain ⟨between, rest, rfl⟩ := List.append_of_mem later
    have deeper := nested.level_lt (by simpa using split) here around
    have bound := deepest s (by simp [split]) around
    rw [UInt32.le_iff_toNat_le] at bound
    omega

theorem level_innermost? (nested : NestedAt ranges pc false)
    (found : innermost? ranges pc false = some r) :
    r.level.toNat + 1 = ranges.countP (·.contains pc) := by
  obtain ⟨here, before, after, split, last⟩ := innermost?_eq_some_iff.mp found
  have none : after.countP (·.contains pc) = 0 := by
    simpa [List.countP_eq_zero, Around] using last
  rw [nested.level_eq split here.1, split, List.countP_append, List.countP_cons, if_pos here.1,
    none]

theorem innermost?_catch (found : innermost? ranges pc false = some r) (kind : r.kind = .catch) :
    innermost? ranges pc true = some r := by
  obtain ⟨here, before, after, split, last⟩ := innermost?_eq_some_iff.mp found
  refine innermost?_eq_some_iff.mpr ⟨⟨here.1, fun _ => kind⟩, before, after, split, ?_⟩
  intro s later around
  exact last s later ⟨around.1, nofun⟩

/-! ### Where exceptions resume -/

variable {f f' : Frame} {i : Instruction} {e : Exception} {target : UInt32} {m m' : Machine}
  {next : Nat}

/-- The exception leaves a loop, and the innermost range is a loop with the target for it. -/
def ExitsTo (ranges : List ExceptionRange) (pc : Nat) (e : Exception) (target : UInt32) : Prop :=
  ∃ r exit, Innermost ranges pc false r ∧ r.kind = .loop ∧ e.code.loopExit? = some exit ∧
    exitTarget r exit = some target

/-- Where a frame goes on after an exception, and with what. -/
inductive Resumes (f : Frame) (pc : Nat) (i : Instruction) (e : Exception) (m : Machine) :
    Nat → Frame → Machine → Prop where
  | exit {target : UInt32} : ExitsTo f.unit.ranges pc e target → i.pops ≤ m.stack.depth →
      Resumes f pc i e m target.toNat f
        { m with stack := { m.stack with slots := m.stack.slots.drop i.pops } }
  | handler {r : ExceptionRange} {target : UInt32} {saved : Nat} :
      (∀ target, ¬ ExitsTo f.unit.ranges pc e target) → Innermost f.unit.ranges pc true r →
      r.catchTarget = some target → f.catchHeights.head? = some saved →
      m.stack.floor ≤ saved → saved ≤ m.stack.height →
      Resumes f pc i e m target.toNat { f with lastCode := e.code.number }
        (noteCaught e { m with stack := m.stack.cut saved })

theorem exitsTo_iff (nested : NestedAt ranges pc false) : ExitsTo ranges pc e target ↔
    ∃ r exit, innermost? ranges pc false = some r ∧ r.kind = .loop ∧
      e.code.loopExit? = some exit ∧ exitTarget r exit = some target := by
  simp only [ExitsTo, innermost?_iff nested]

theorem routeToCatch_handler_iff {saved : Nat} : f.routeToCatch pc = .handler r target saved ↔
    innermost? f.unit.ranges pc true = some r ∧ r.catchTarget = some target ∧
      f.catchHeights.head? = some saved := by
  constructor
  · intro same
    unfold routeToCatch at same
    split at same
    · cases same
    · split at same
      · rename_i found
        obtain ⟨rfl, leads, height⟩ := routeTo_handler same
        exact ⟨found, leads, height⟩
      · cases same
  · rintro ⟨found, leads, height⟩
    obtain ⟨rest, heights⟩ := List.head?_eq_some_iff.mp height
    simp [routeToCatch, routeTo, found, leads, heights]

theorem routeTo_innermost (found : innermost? f.unit.ranges pc true = some r) :
    f.routeTo r = f.routeToCatch pc := by
  cases heights : f.catchHeights with
  | nil => simp [routeTo, routeToCatch, heights]
  | cons saved rest => simp [routeToCatch, found, heights]

/-- An exception leaves the loop that is innermost, or goes to the innermost range that catches. -/
theorem route_cases (nested : NestedAt f.unit.ranges pc false) (e : Exception) :
    (∃ r target, f.route pc e = .exit r target ∧ ExitsTo f.unit.ranges pc e target) ∨
      f.route pc e = f.routeToCatch pc ∧ ∀ target, ¬ ExitsTo f.unit.ranges pc e target := by
  simp only [exitsTo_iff nested]
  cases asks : e.code.loopExit? with
  | none => exact .inr ⟨by simp [route, asks], by simp⟩
  | some exit =>
    cases found : innermost? f.unit.ranges pc false with
    | none => exact .inr ⟨by simp [route, asks, found], by simp⟩
    | some r =>
      cases kind : r.kind with
      | «catch» =>
        refine .inr ⟨?_, by simp [kind]⟩
        rw [← routeTo_innermost (innermost?_catch found kind)]
        simp [route, asks, found, kind]
      | loop =>
        cases leads : exitTarget r exit with
        | none => exact .inr ⟨by simp [route, asks, found, kind, leads], by simp [leads]⟩
        | some target =>
          refine .inl ⟨r, target, by simp [route, asks, found, kind, leads], ?_⟩
          exact ⟨r, exit, rfl, kind, rfl, leads⟩

theorem follow_exit (enough : i.pops ≤ m.stack.depth) :
    f.follow pc i e (.exit r target) m = (.ok (.at target.toNat, f),
      { m with stack := { m.stack with slots := m.stack.slots.drop i.pops } }) := by
  simp only [follow, bind, Action.bind, Action.discard, Action.reshape, Stack.discard_eq enough]
  rfl

theorem follow_handler {saved : Nat} (low : m.stack.floor ≤ saved)
    (high : saved ≤ m.stack.height) :
    f.follow pc i e (.handler r target saved) m =
      (.ok (.at target.toNat, { f with lastCode := e.code.number }),
        noteCaught e { m with stack := m.stack.cut saved }) := by
  simp only [follow, bind, Action.bind, Action.reshape, Stack.truncate_eq low high]
  rfl

theorem resumes_of_handle (nested : NestedAt f.unit.ranges pc false)
    (resumed : f.handle pc i e m = (.ok (.at next, f'), m')) : Resumes f pc i e m next f' m' := by
  rw [handle_eq] at resumed
  rcases route_cases nested e with ⟨r, target, same, exits⟩ | ⟨same, stays⟩
  · rw [same] at resumed
    cases dropped : m.stack.discard i.pops with
    | error v =>
      simp only [follow, bind, Action.bind, Action.discard, Action.reshape, dropped] at resumed
      cases resumed
    | ok s =>
      obtain ⟨enough, _⟩ := Stack.discard_ok dropped
      rw [follow_exit enough] at resumed
      cases resumed
      exact .exit exits enough
  · rw [same] at resumed
    cases route : f.routeToCatch pc with
    | exit r target => exact absurd route routeToCatch_ne_exit
    | out =>
      rw [route] at resumed
      simp only [follow, giveUp, bind, Action.bind, abandon_eq] at resumed
      cases left : m.stack.truncate f.base <;> rw [left] at resumed <;> cases resumed
    | handler r target saved =>
      obtain ⟨found, leads, height⟩ := routeToCatch_handler_iff.mp route
      rw [route] at resumed
      cases cut : m.stack.truncate saved with
      | error v =>
        simp only [follow, bind, Action.bind, Action.reshape, cut] at resumed
        cases resumed
      | ok s =>
        obtain ⟨low, high, _⟩ := Stack.truncate_ok cut
        rw [follow_handler low high] at resumed
        cases resumed
        exact .handler stays ((innermost?_iff nested.catching).mp found) leads height low high

theorem handle_of_resumes (nested : NestedAt f.unit.ranges pc false)
    (resumes : Resumes f pc i e m next f' m') :
    f.handle pc i e m = (.ok (.at next, f'), m') := by
  rw [handle_eq]
  cases resumes with
  | @exit target exits enough =>
    obtain ⟨r, exit, found, kind, asks, leads⟩ := (exitsTo_iff nested).mp exits
    have same : f.route pc e = .exit r target := by simp [route, asks, found, kind, leads]
    rw [same, follow_exit enough]
  | @handler r target saved stays innermost leads height low high =>
    rcases route_cases nested e with ⟨_, target, _, exits⟩ | ⟨same, _⟩
    · exact absurd exits (stays target)
    · have found := (innermost?_iff nested.catching).mpr innermost
      rw [same, routeToCatch_handler_iff.mpr ⟨found, leads, height⟩, follow_handler low high]

/-- At the offset the last range is the one that all others there enclose, and its level counts
them; what is raised there resumes at the target that the innermost range has for it as a loop, else
at that of the innermost range that catches. -/
structure RoutesInward (u : CompiledUnit) (pc : Nat) : Prop where
  innermost : ∀ catchOnly r, innermost? u.ranges pc catchOnly = some r ↔
    Innermost u.ranges pc catchOnly r
  level : ∀ r, innermost? u.ranges pc false = some r →
    r.level.toNat + 1 = u.ranges.countP (·.contains pc)
  resumes : ∀ f i e m next f' m', f.unit = u →
    (f.handle pc i e m = (.ok (.at next, f'), m') ↔ Resumes f pc i e m next f' m')

theorem routesInward (nested : NestedAt u.ranges pc false) : RoutesInward u pc where
  innermost
    | false, _ => innermost?_iff nested
    | true, _ => innermost?_iff nested.catching
  level _ := level_innermost? nested
  resumes := by
    rintro f i e m next f' m' rfl
    exact ⟨resumes_of_handle nested, handle_of_resumes nested⟩

theorem fitAround_of_innermost (fits : r.Fits) (innermost : Innermost ranges pc catchOnly r) :
    FitAround ranges pc catchOnly := by
  intro s member around
  exact fits_of_encloses fits (innermost.enclosed s member around)

/-- In a table without errors, let the last range around an offset, or the last one that catches, end
within 32 bits. It is the innermost if and only if the others there do too. Where all ranges around
the offset do, and only there, exceptions are routed inward. -/
theorem exceptions_routed_innermost (clean : tableErrors u l = [])
    (few : u.ranges.length ≤ UInt32.size) (pc : Nat) :
    (∀ catchOnly, innermost? u.ranges pc catchOnly = none ↔
      ∀ s ∈ u.ranges, ¬ Around pc catchOnly s) ∧
    (∀ catchOnly r, innermost? u.ranges pc catchOnly = some r → r.Fits →
      (Innermost u.ranges pc catchOnly r ↔ FitAround u.ranges pc catchOnly)) ∧
    (FitAround u.ranges pc false → RoutesInward u pc) ∧
    ∀ r, innermost? u.ranges pc false = some r → r.Fits →
      (RoutesInward u pc ↔ FitAround u.ranges pc false) := by
  have nested {catchOnly : Bool} (fit : FitAround u.ranges pc catchOnly) :
      NestedAt u.ranges pc catchOnly := ⟨nested_of_tableErrors clean, few, fit⟩
  have routes (fit : FitAround u.ranges pc false) : RoutesInward u pc := routesInward (nested fit)
  refine ⟨fun _ => innermost?_eq_none_iff, ?_, routes, ?_⟩
  · intro catchOnly r found fits
    exact ⟨fitAround_of_innermost fits, fun fit => (innermost?_iff (nested fit)).mp found⟩
  · intro r found fits
    refine ⟨fun routed => ?_, routes⟩
    exact fitAround_of_innermost fits ((routed.innermost false r).mp found)

/-- A loop around a handler around a loop, with a `BREAK` in each. -/
def sheltered : CompiledUnit where
  code := [0x4a, 1, 0, 0, 0, 0x46, 0x46, 0x4b, 0x46, 0x01, 0, 0x00]
  literals := [.text "out"]
  ranges := [⟨.loop, 0, 0, 9, some 9, none, none⟩, ⟨.catch, 1, 5, 2, none, none, some 7⟩,
    ⟨.loop, 2, 5, 1, some 6, none, none⟩]
  maxStack := 1

theorem sheltered_routed_innermost :
    ∃ l, Verifier.layout sheltered = .ok l ∧ tableErrors sheltered l = [] ∧
      sheltered.ranges.countP (·.contains 5) = 3 ∧
      ∃ f : Frame, f.unit = sheltered ∧ f.catchHeights = [0] ∧
        ∀ stop ∈ [(5, 6), (6, 7), (8, 9)], ∃ f' m',
          Resumes f stop.1 ⟨.breakLoop, []⟩ (.complete .breakLoop Value.empty) {} stop.2 f' m' := by
  have clean : tableErrors sheltered
      { instructions := [(0, ⟨.beginCatch4, [1]⟩), (5, ⟨.breakLoop, []⟩), (6, ⟨.breakLoop, []⟩),
          (7, ⟨.endCatch, []⟩), (8, ⟨.breakLoop, []⟩), (9, ⟨.push1, [0]⟩), (11, ⟨.done, []⟩)]
        size := 12 } = [] := by decide
  have routed (pc : Nat) (fit : FitAround sheltered.ranges pc false) : RoutesInward sheltered pc :=
    (exceptions_routed_innermost clean (by decide) pc).2.2.1 fit
  let f : Frame := { unit := sheltered, base := 0, slots := [], catchHeights := [0] }
  refine ⟨_, rfl, clean, ?_, f, rfl, rfl, ?_⟩
  · exact ((routed 5 (by decide)).level _ rfl).symm
  · intro stop member
    simp only [List.mem_cons, List.not_mem_nil, or_false] at member
    rcases member with rfl | rfl | rfl
    · exact ⟨_, _, ((routed 5 (by decide)).resumes f _ _ _ _ _ _ rfl).mp rfl⟩
    · exact ⟨_, _, ((routed 6 (by decide)).resumes f _ _ _ _ _ _ rfl).mp rfl⟩
    · exact ⟨_, _, ((routed 8 (by decide)).resumes f _ _ _ _ _ _ rfl).mp rfl⟩

/-- A loop with a loop inside that stands before it. The end of the outer one is reduced to the start
of the code. -/
def overreaching : CompiledUnit where
  code := [0x27, 2, 0x27, 2, 0x46, 0x01, 0, 0x00, 0x01, 1, 0x00]
  literals := [.text "inner", .text "outer"]
  ranges := [⟨.loop, 0, 4, 1, some 5, none, none⟩, ⟨.loop, 0, 2, 0xfffffffe, some 8, none, none⟩]
  maxStack := 1

/-- The unit is accepted, and yet the `BREAK` in the inner loop leaves the outer one. -/
theorem overreaching_leaves_outer_loop :
    Verifier.accepts overreaching = true ∧
      overreaching.ranges.countP (·.contains 4) = 2 ∧
      (∀ r, innermost? overreaching.ranges 4 false = some r →
        ¬ Innermost overreaching.ranges 4 false r ∧ r.level.toNat + 1 ≠ 2) ∧
      (∃ f m', Frame.handle { unit := overreaching, base := 0, slots := [] } 4 ⟨.breakLoop, []⟩
        (.complete .breakLoop Value.empty) {} = (.ok (.at 8, f), m')) ∧
      ((Machine.execute 20 overreaching {}).1.toOption.map Value.str) = some "outer" := by
  refine ⟨by decide, by decide, ?_, ⟨_, _, rfl⟩, by decide +kernel⟩
  intro r found
  obtain rfl : ⟨.loop, 0, 2, 0xfffffffe, some 8, none, none⟩ = r := Option.some.inj found
  refine ⟨fun innermost => ?_, by decide⟩
  have enclosed := innermost.enclosed ⟨.loop, 0, 4, 1, some 5, none, none⟩ (by decide)
    ⟨by decide, nofun⟩
  exact absurd enclosed (by decide)

end Frame

end CommandVM
