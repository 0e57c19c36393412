import CommandVM.Value.Handles
import Mathlib

/-!
# Counted cells

A pool is sound for a list of handles outside of it when every cell counts at least the handles on it,
no cell contains itself, and the kept views are those of the values. Making cells and giving up
handles keep a pool sound and keep the value of every cell that is still held.
-/

namespace CommandVM

/-- The value of a content whose elements have the given values. -/
def Content.denote (value : Nat → Value) : Content → Value
  | .text s => .text s
  | .int v => .int v
  | .wide v => .wide v
  | .double v => .double v
  | .list cells => .list (cells.map value)

theorem Content.denote_congr {f g : Nat → Value} {content : Content}
    (same : ∀ y ∈ content.elements, f y = g y) : content.denote f = content.denote g := by
  cases content with
  | list cells => exact congrArg Value.list (List.map_congr_left same)
  | _ => rfl

/-- The views are those of a value with the given text, where cells have the given values. -/
structure Views.Of (views : Views) (value : Nat → Value) (str : String) : Prop where
  text : ∀ s, views.text = some s → s = str
  number : ∀ view, views.number = some view → view = Number.read str
  items : ∀ view, views.items = some view →
    (view.map fun cells => cells.map fun y => (value y).str) = ListText.split str

theorem Views.of_empty (value : Nat → Value) (str : String) : ({} : Views).Of value str :=
  ⟨by simp, by simp, by simp⟩

theorem Views.Of.congr {views : Views} {f g : Nat → Value} {str : String}
    (right : views.Of f str) (same : ∀ y ∈ views.elements, g y = f y) : views.Of g str := by
  refine ⟨right.text, right.number, fun view kept => ?_⟩
  rw [← right.items view kept]
  cases view with
  | error e => rfl
  | ok cells =>
    refine congrArg Except.ok (List.map_congr_left fun y member => ?_)
    rw [same y (by rw [Views.elements, kept]; exact member)]

namespace Pool

variable {p q : Pool} {roots roots' : List Nat} {i x y : Nat} {c c' : Cell}

/-! ### Values of a pool without cycles -/

/-- The cell `child` is one that `parent` holds. -/
def Below (p : Pool) (child parent : Nat) : Prop :=
  ∃ c, p.cells[parent]? = some c ∧ child ∈ c.children

/-- The number of cells that are reached from a cell. -/
noncomputable def rank (p : Pool) (i : Nat) : Nat :=
  {x | x < p.cells.length ∧ Relation.ReflTransGen p.Below x i}.ncard

theorem finite_reached (p : Pool) (i : Nat) :
    {x | x < p.cells.length ∧ Relation.ReflTransGen p.Below x i}.Finite :=
  (Set.finite_lt_nat p.cells.length).subset fun _ member => member.1

theorem rank_le (p : Pool) (i : Nat) : p.rank i ≤ p.cells.length := by
  have inside : {x | x < p.cells.length ∧ Relation.ReflTransGen p.Below x i} ⊆
      (Finset.range p.cells.length : Set Nat) := by
    intro x member
    simpa using member.1
  simpa [rank] using Set.ncard_le_ncard inside (Finset.finite_toSet _)

theorem rank_pos (found : p.cells[i]? = some c) : 0 < p.rank i := by
  have inside := (List.getElem?_eq_some_iff.mp found).1
  exact (Set.ncard_pos (finite_reached p i)).mpr ⟨i, inside, .refl⟩

theorem rank_lt (grounded : WellFounded p.Below) (below : p.Below x i) : p.rank x < p.rank i := by
  obtain ⟨c, found, member⟩ := below
  have inside := (List.getElem?_eq_some_iff.mp found).1
  apply Set.ncard_lt_ncard _ (finite_reached p i)
  constructor
  · rintro y ⟨y_inside, path⟩
    exact ⟨y_inside, path.tail ⟨c, found, member⟩⟩
  · intro all
    obtain ⟨_, path⟩ := all ⟨inside, .refl⟩
    have cycle : Relation.TransGen p.Below i i := .tail' path ⟨c, found, member⟩
    exact (grounded.transGen.irrefl).irrefl i cycle

theorem below_of_element (found : p.cells[i]? = some c) (member : y ∈ c.content.elements) :
    p.Below y i :=
  ⟨c, found, List.mem_append_left _ member⟩

/-- Depths that reach all cells give the same value. -/
theorem valueTo_eq (grounded : WellFounded p.Below) (i : Nat) :
    ∀ d e, p.rank i ≤ d → p.rank i ≤ e → p.valueTo d i = p.valueTo e i := by
  induction i using grounded.induction with
  | _ i ih =>
    intro d e deep deep'
    cases found : p.cells[i]? with
    | none => cases d <;> cases e <;> simp [valueTo, found]
    | some c =>
      have positive := rank_pos found
      obtain ⟨d, rfl⟩ := Nat.exists_eq_add_of_lt (Nat.lt_of_lt_of_le positive deep)
      obtain ⟨e, rfl⟩ := Nat.exists_eq_add_of_lt (Nat.lt_of_lt_of_le positive deep')
      simp only [Nat.zero_add, valueTo, found]
      split
      case h_5 cells listed =>
        refine congrArg Value.list (List.map_congr_left fun y member => ?_)
        have below : p.Below y i := below_of_element found (by rw [listed]; exact member)
        have lower := rank_lt grounded below
        exact ih y below d e (by omega) (by omega)
      all_goals rfl

theorem value_eq (grounded : WellFounded p.Below) (found : p.cells[i]? = some c) :
    p.value i = c.content.denote p.value := by
  have inside := (List.getElem?_eq_some_iff.mp found).1
  obtain ⟨n, length⟩ := Nat.exists_eq_add_of_lt (Nat.zero_lt_of_lt inside)
  have step : p.value i = c.content.denote (p.valueTo n) := by
    rw [value, length, Nat.zero_add, valueTo, found]
    cases content : c.content <;> simp [content, Content.denote]
  rw [step]
  refine Content.denote_congr fun y member => ?_
  have lower := rank_lt grounded (below_of_element found member)
  have bounded := rank_le p i
  exact valueTo_eq grounded y n _ (by omega) (rank_le p y)

theorem value_of_none (missing : p.cells[i]? = none) : p.value i = Value.empty := by
  rw [value]
  cases p.cells.length with
  | zero => rfl
  | succ n => rw [valueTo, missing]

/-- Two pools give the same values on a set of cells that holds all their elements and on which the
contents are the same. -/
theorem value_congr (p_grounded : WellFounded p.Below) (q_grounded : WellFounded q.Below)
    (S : Nat → Prop)
    (same : ∀ x, S x → q.cells[x]?.map Cell.content = p.cells[x]?.map Cell.content)
    (closed : ∀ x c, S x → p.cells[x]? = some c → ∀ y ∈ c.content.elements, S y)
    (member : S x) : q.value x = p.value x := by
  induction x using p_grounded.induction with
  | _ x ih =>
    have agree := same x member
    cases found : p.cells[x]? with
    | none =>
      rw [found, Option.map_none, Option.map_eq_none_iff] at agree
      rw [value_of_none found, value_of_none agree]
    | some c =>
      rw [found, Option.map_some, Option.map_eq_some_iff] at agree
      obtain ⟨d, found', content⟩ := agree
      rw [value_eq p_grounded found, value_eq q_grounded found', content]
      exact Content.denote_congr fun y element =>
        ih y (below_of_element found element) (closed x c member found y element)

/-! ### Cells put in place of others -/

/-- A cell in place of another. -/
def put (p : Pool) (i : Nat) (c : Cell) : Pool := { cells := p.cells.set i c }

/-- The handles that cells hold. -/
def edges (p : Pool) : List Nat := p.cells.flatMap Cell.children

theorem mem_edges : y ∈ p.edges ↔ ∃ i, p.Below y i := by
  rw [edges, List.mem_flatMap]
  constructor
  · rintro ⟨c, held, member⟩
    obtain ⟨i, found⟩ := List.mem_iff_getElem?.mp held
    exact ⟨i, c, found, member⟩
  · rintro ⟨i, c, found, member⟩
    exact ⟨c, List.mem_of_getElem? found, member⟩

theorem getElem?_put_self (found : p.cells[i]? = some c) : (p.put i c').cells[i]? = some c' := by
  have inside := (List.getElem?_eq_some_iff.mp found).1
  simp [put, inside]

theorem getElem?_put_ne (different : x ≠ i) : (p.put i c').cells[x]? = p.cells[x]? := by
  rw [put, List.getElem?_set_ne (Ne.symm different)]

theorem length_put : (p.put i c').cells.length = p.cells.length := by simp [put]

theorem holders_of_some (found : p.cells[i]? = some c) : p.holders i = c.holders := by
  simp [holders, found]

theorem holders_of_le (outside : p.cells.length ≤ x) : p.holders x = 0 := by
  rw [holders, List.getElem?_eq_none outside]
  rfl

theorem exists_of_holders (held : 0 < p.holders x) : ∃ c, p.cells[x]? = some c := by
  cases found : p.cells[x]? with
  | none => simp [holders, found] at held
  | some c => exact ⟨c, rfl⟩

theorem lt_length_of_holders (held : 0 < p.holders x) : x < p.cells.length := by
  obtain ⟨c, found⟩ := exists_of_holders held
  exact (List.getElem?_eq_some_iff.mp found).1

theorem holders_put_self (found : p.cells[i]? = some c) : (p.put i c').holders i = c'.holders :=
  holders_of_some (getElem?_put_self found)

theorem holders_put_ne (different : x ≠ i) : (p.put i c').holders x = p.holders x := by
  rw [holders, getElem?_put_ne different, holders]

theorem count_edges_put (found : p.cells[i]? = some c) (c' : Cell) (x : Nat) :
    (p.put i c').edges.count x + c.children.count x = p.edges.count x + c'.children.count x := by
  obtain ⟨cells⟩ := p
  simp only [put, edges] at found ⊢
  induction cells generalizing i with
  | nil => simp at found
  | cons d cells ih =>
    cases i with
    | zero =>
      cases found
      simp only [List.set_cons_zero, List.flatMap_cons, List.count_append]
      omega
    | succ i =>
      have rest := ih (by simpa using found)
      simp only [List.set_cons_succ, List.flatMap_cons, List.count_append]
      omega

theorem below_put (below : (p.put i c').Below y x) :
    (x = i ∧ y ∈ c'.children) ∨ (x ≠ i ∧ p.Below y x) := by
  obtain ⟨d, found, member⟩ := below
  by_cases same : x = i
  · subst same
    have inside := (List.getElem?_eq_some_iff.mp found).1
    rw [length_put] at inside
    rw [getElem?_put_self (List.getElem?_eq_getElem inside)] at found
    cases found
    exact .inl ⟨rfl, member⟩
  · rw [getElem?_put_ne same] at found
    exact .inr ⟨same, d, found, member⟩

/-- A cell that holds no new handles makes no cycle. -/
theorem grounded_put_of_subset (grounded : WellFounded p.Below) (found : p.cells[i]? = some c)
    (fewer : c'.children ⊆ c.children) : WellFounded (p.put i c').Below := by
  refine Subrelation.wf (fun {y x} below => ?_) grounded
  rcases below_put below with ⟨rfl, member⟩ | ⟨_, below⟩
  · exact ⟨c, found, fewer member⟩
  · exact below

/-- A cell on which no cell has a handle makes no cycle. -/
theorem grounded_put_of_unheld (grounded : WellFounded p.Below) (unheld : i ∉ p.edges)
    (apart : i ∉ c'.children) : WellFounded (p.put i c').Below := by
  have others : ∀ x, x ≠ i → Acc (p.put i c').Below x := by
    intro x
    induction x using grounded.induction with
    | _ x ih =>
      intro different
      refine Acc.intro x fun y below => ?_
      rcases below_put below with ⟨same, _⟩ | ⟨_, below⟩
      · exact absurd same different
      · refine ih y below fun same => unheld ?_
        exact mem_edges.mpr ⟨x, same ▸ below⟩
  refine ⟨fun x => ?_⟩
  by_cases same : x = i
  · refine Acc.intro x fun y below => others y fun y_same => ?_
    rcases below_put below with ⟨_, member⟩ | ⟨different, _⟩
    · exact apart (y_same ▸ member)
    · exact different same
  · exact others x same

theorem value_put_of_content (grounded : WellFounded p.Below)
    (grounded' : WellFounded (p.put i c').Below) (found : p.cells[i]? = some c)
    (content : c'.content = c.content) : (p.put i c').value = p.value := by
  funext x
  refine value_congr grounded grounded' (fun _ => True) (fun x _ => ?_) (fun _ _ _ _ _ _ => trivial)
    trivial
  by_cases same : x = i
  · subst same
    rw [getElem?_put_self found, found, Option.map_some, Option.map_some, content]
  · rw [getElem?_put_ne same]

theorem value_put_of_unheld (grounded : WellFounded p.Below)
    (grounded' : WellFounded (p.put i c').Below) (unheld : i ∉ p.edges) (different : x ≠ i) :
    (p.put i c').value x = p.value x := by
  refine value_congr grounded grounded' (· ≠ i) (fun x apart => by rw [getElem?_put_ne apart])
    (fun x c _ found y member same => unheld ?_) different
  exact mem_edges.mpr ⟨x, same ▸ below_of_element found member⟩

/-! ### Sound pools -/

/-- Every cell counts at least the handles on it, those in `roots` and those that cells hold; no cell
contains itself; and kept views are right. -/
structure Sound (p : Pool) (roots : List Nat) : Prop where
  counted : ∀ x, roots.count x + p.edges.count x ≤ p.holders x
  grounded : WellFounded p.Below
  viewed : ∀ (i : Nat) (c : Cell), p.cells[i]? = some c → c.views.Of p.value (p.value i).str

/-- A cell that is still held was held before and has the same value. -/
def Kept (p q : Pool) (x : Nat) : Prop :=
  0 < q.holders x → 0 < p.holders x ∧ q.value x = p.value x

/-- All cells are kept, and the others are new. -/
structure Keeps (p q : Pool) : Prop where
  grows : p.cells.length ≤ q.cells.length
  kept : ∀ x < p.cells.length, p.Kept q x

/-- All cells are kept and none lost a handle. -/
structure Grows (p q : Pool) : Prop extends Keeps p q where
  counts : ∀ x, p.holders x ≤ q.holders x

theorem Kept.trans {r : Pool} (first : p.Kept q x) (second : q.Kept r x) : p.Kept r x := by
  intro held
  obtain ⟨held, same⟩ := second held
  obtain ⟨held, same'⟩ := first held
  exact ⟨held, same.trans same'⟩

theorem Keeps.refl (p : Pool) : p.Keeps p := ⟨Nat.le_refl _, fun _ _ held => ⟨held, rfl⟩⟩

theorem Keeps.trans {r : Pool} (first : p.Keeps q) (second : q.Keeps r) : p.Keeps r :=
  ⟨first.grows.trans second.grows, fun x inside =>
    (first.kept x inside).trans (second.kept x (Nat.lt_of_lt_of_le inside first.grows))⟩

theorem Grows.refl (p : Pool) : p.Grows p := ⟨.refl p, fun _ => Nat.le_refl _⟩

theorem Grows.trans {r : Pool} (first : p.Grows q) (second : q.Grows r) : p.Grows r :=
  ⟨first.toKeeps.trans second.toKeeps, fun x => (first.counts x).trans (second.counts x)⟩

/-- A cell that is held keeps its value. -/
theorem Grows.value (grows : p.Grows q) (held : 0 < p.holders x) : q.value x = p.value x :=
  (grows.kept x (lt_length_of_holders held) (Nat.lt_of_lt_of_le held (grows.counts x))).2

theorem sound_empty : Sound {} [] := by
  refine ⟨fun x => Nat.le_refl _, ⟨fun x => Acc.intro x fun y below => ?_⟩, by simp⟩
  obtain ⟨c, found, _⟩ := below
  simp at found

namespace Sound

theorem mono (sound : Sound p roots) (fewer : ∀ x, roots'.count x ≤ roots.count x) :
    Sound p roots' :=
  ⟨fun x => Nat.le_trans (Nat.add_le_add_right (fewer x) _) (sound.counted x), sound.grounded,
    sound.viewed⟩

theorem held (sound : Sound p roots) (member : x ∈ roots) : 0 < p.holders x := by
  have positive := List.count_pos_iff.mpr member
  have counted := sound.counted x
  omega

theorem held_edge (sound : Sound p roots) (member : x ∈ p.edges) : 0 < p.holders x := by
  have positive := List.count_pos_iff.mpr member
  have counted := sound.counted x
  omega

/-- A handle outside of a cell that counts one handle is the only one. -/
theorem sole (sound : Sound p (i :: roots)) (few : p.holders i ≤ 1) : i ∉ roots ∧ i ∉ p.edges := by
  have counted := sound.counted i
  rw [List.count_cons_self] at counted
  constructor
  · intro member
    have positive := List.count_pos_iff.mpr member
    omega
  · intro member
    have positive := List.count_pos_iff.mpr member
    omega

theorem inside (sound : Sound p roots) (below : p.Below y x) : y < p.cells.length :=
  lt_length_of_holders (sound.held_edge (mem_edges.mpr ⟨x, below⟩))

/-- The values stay when a cell changes its count or its views. -/
theorem put_content (sound : Sound p roots) (found : p.cells[i]? = some c) (c' : Cell)
    (content : c'.content = c.content) (grounded : WellFounded (p.put i c').Below)
    (viewed : c'.views.Of p.value (p.value i).str)
    (counted : ∀ x, roots'.count x + (p.put i c').edges.count x ≤ (p.put i c').holders x) :
    Sound (p.put i c') roots' ∧ (p.put i c').value = p.value := by
  have values := value_put_of_content sound.grounded grounded found content
  refine ⟨⟨counted, grounded, fun x d found' => ?_⟩, values⟩
  rw [values]
  by_cases same : x = i
  · subst same
    rw [getElem?_put_self found] at found'
    cases found'
    exact viewed
  · rw [getElem?_put_ne same] at found'
    exact sound.viewed x d found'

/-- The other values stay when a cell without other handles changes. -/
theorem put_unheld (sound : Sound p roots) (found : p.cells[i]? = some c) (unheld : i ∉ p.edges)
    (c' : Cell) (apart : i ∉ c'.children) (fresh : c'.views = {})
    (others : ∀ x, x ≠ i →
      roots'.count x + c'.children.count x ≤ roots.count x + c.children.count x)
    (own : roots'.count i ≤ c'.holders) :
    Sound (p.put i c') roots' ∧ (∀ x, x ≠ i → (p.put i c').value x = p.value x) ∧
      (p.put i c').value i = c'.content.denote p.value := by
  have grounded := grounded_put_of_unheld sound.grounded unheld apart
  have values : ∀ x, x ≠ i → (p.put i c').value x = p.value x := fun x different =>
    value_put_of_unheld sound.grounded grounded unheld different
  have counted : ∀ x, roots'.count x + (p.put i c').edges.count x ≤ (p.put i c').holders x := by
    intro x
    have edges := count_edges_put found c' x
    by_cases same : x = i
    · subst same
      rw [holders_put_self found]
      rw [List.count_eq_zero.mpr unheld, List.count_eq_zero.mpr apart] at edges
      omega
    · have before := sound.counted x
      have fewer := others x same
      rw [holders_put_ne same]
      omega
  refine ⟨⟨counted, grounded, fun x d found' => ?_⟩, values, ?_⟩
  · by_cases same : x = i
    · subst same
      rw [getElem?_put_self found] at found'
      cases found'
      rw [fresh]
      exact Views.of_empty _ _
    · rw [getElem?_put_ne same] at found'
      rw [values x same]
      refine (sound.viewed x d found').congr fun y member => values y fun y_same => unheld ?_
      exact mem_edges.mpr ⟨x, d, found', y_same ▸ List.mem_append_right _ member⟩
  · rw [value_eq grounded (getElem?_put_self found)]
    refine Content.denote_congr fun y member => values y fun same => apart ?_
    exact same ▸ List.mem_append_left _ member

end Sound

/-! ### Handles taken and given up -/

/-- A count may change with the handles listed. -/
theorem Sound.recount (sound : Sound p roots) (found : p.cells[i]? = some c) (n : Nat)
    (others : ∀ x, x ≠ i → roots'.count x ≤ roots.count x)
    (balance : roots'.count i + c.holders ≤ roots.count i + n) :
    Sound (p.put i { c with holders := n }) roots' ∧
      (p.put i { c with holders := n }).value = p.value := by
  refine sound.put_content found _ rfl
    (grounded_put_of_subset sound.grounded found (List.Subset.refl _)) (sound.viewed i c found)
    fun x => ?_
  have counted := sound.counted x
  have edges := count_edges_put found { c with holders := n } x
  simp only [Cell.children] at edges
  by_cases same : x = i
  · subst same
    rw [holders_of_some found] at counted
    rw [holders_put_self found]
    dsimp only
    omega
  · have fewer := others x same
    rw [holders_put_ne same]
    omega

theorem keeps_put (found : p.cells[i]? = some c) (fewer : 0 < c'.holders → 0 < c.holders)
    (values : ∀ x, 0 < (p.put i c').holders x → (p.put i c').value x = p.value x) :
    p.Keeps (p.put i c') := by
  refine ⟨Nat.le_of_eq length_put.symm, fun x _ held => ⟨?_, values x held⟩⟩
  by_cases same : x = i
  · subst same
    rw [holders_put_self found] at held
    rw [holders_of_some found]
    exact fewer held
  · rwa [holders_put_ne same] at held

theorem grows_put (found : p.cells[i]? = some c) (fewer : 0 < c'.holders → 0 < c.holders)
    (more : c.holders ≤ c'.holders) (values : (p.put i c').value = p.value) :
    p.Grows (p.put i c') := by
  refine ⟨keeps_put found fewer fun x _ => by rw [values], fun x => ?_⟩
  by_cases same : x = i
  · subst same
    rwa [holders_put_self found, holders_of_some found]
  · rw [holders_put_ne same]

theorem retain_eq (found : p.cells[i]? = some c) :
    p.retain i = p.put i { c with holders := c.holders + 1 } := by
  rw [retain, put, List.modify_eq_set_getElem?, found]
  rfl

theorem retain_spec (sound : Sound p roots) (held : 0 < p.holders i) :
    Sound (p.retain i) (i :: roots) ∧ p.Grows (p.retain i) := by
  obtain ⟨c, found⟩ := exists_of_holders held
  rw [holders_of_some found] at held
  rw [retain_eq found]
  obtain ⟨sound', values⟩ := sound.recount found (c.holders + 1)
    (fun x different => Nat.le_of_eq (List.count_cons_of_ne (Ne.symm different)))
    (by rw [List.count_cons_self]; omega)
  exact ⟨sound', grows_put found (fun _ => held) (Nat.le_succ _) values⟩

theorem retainAll_spec (cells : List Nat) (sound : Sound p roots)
    (held : ∀ x ∈ cells, 0 < p.holders x) :
    Sound (p.retainAll cells) (cells ++ roots) ∧ p.Grows (p.retainAll cells) := by
  induction cells generalizing p roots with
  | nil => exact ⟨sound, .refl p⟩
  | cons i cells ih =>
    obtain ⟨sound', grows⟩ := retain_spec sound (held i List.mem_cons_self)
    obtain ⟨sound'', grows'⟩ := ih sound' fun x member =>
      Nat.lt_of_lt_of_le (held x (List.mem_cons_of_mem i member)) (grows.counts x)
    refine ⟨sound''.mono fun x => Nat.le_of_eq ?_, grows.trans grows'⟩
    exact List.perm_middle.symm.count_eq x

/-- A cell that lost its last handle is free, and its own handles are given up next. -/
theorem free_spec (sound : Sound p (i :: roots)) (found : p.cells[i]? = some c)
    (few : c.holders ≤ 1) :
    Sound (p.put i { content := .text "", holders := 0 }) (c.children ++ roots) ∧
      p.Keeps (p.put i { content := .text "", holders := 0 }) := by
  rw [← holders_of_some found] at few
  obtain ⟨absent, unheld⟩ := sound.sole few
  have apart : i ∉ c.children := fun member => unheld (mem_edges.mpr ⟨i, c, found, member⟩)
  have free : Cell.children { content := .text "", holders := 0 } = [] := rfl
  have others : ∀ x, x ≠ i → (c.children ++ roots).count x +
      (Cell.children { content := .text "", holders := 0 }).count x ≤
      (i :: roots).count x + c.children.count x := by
    intro x different
    rw [free, List.count_append, List.count_cons_of_ne (Ne.symm different), List.count_nil]
    omega
  have own : (c.children ++ roots).count i ≤ 0 := by
    rw [List.count_append, List.count_eq_zero.mpr apart, List.count_eq_zero.mpr absent]
  obtain ⟨sound', values, _⟩ := sound.put_unheld found unheld _ (by simp [free]) rfl others own
  refine ⟨sound', keeps_put found (fun held => absurd held (Nat.lt_irrefl 0)) fun x held => ?_⟩
  refine values x fun same => ?_
  rw [same, holders_put_self found] at held
  exact Nat.lt_irrefl 0 held

theorem releaseFrom_spec (fuel : Nat) (pending : List Nat) (sound : Sound p (pending ++ roots)) :
    Sound (releaseFrom fuel pending p) roots ∧ p.Keeps (releaseFrom fuel pending p) := by
  induction fuel generalizing p pending with
  | zero =>
    refine ⟨sound.mono fun x => ?_, .refl p⟩
    rw [List.count_append]
    exact Nat.le_add_left _ _
  | succ fuel ih =>
    cases pending with
    | nil => exact ⟨sound, .refl p⟩
    | cons i rest =>
      obtain ⟨c, found⟩ := exists_of_holders (sound.held List.mem_cons_self)
      rw [releaseFrom, found]
      rw [List.cons_append] at sound
      dsimp only
      split
      · next few =>
        obtain ⟨sound', keeps⟩ := free_spec sound found few
        rw [← List.append_assoc] at sound'
        obtain ⟨sound'', keeps'⟩ := ih _ sound'
        exact ⟨sound'', keeps.trans keeps'⟩
      · next many =>
        have fewer : ∀ x, x ≠ i → (rest ++ roots).count x ≤ (i :: (rest ++ roots)).count x :=
          fun x _ => List.count_le_count_cons
        obtain ⟨sound', values⟩ := sound.recount found (c.holders - 1) fewer (by
          rw [List.count_cons_self]
          omega)
        have keeps : p.Keeps (p.put i { c with holders := c.holders - 1 }) :=
          keeps_put found (fun _ => by omega) fun x _ => by rw [values]
        obtain ⟨sound'', keeps'⟩ := ih rest sound'
        exact ⟨sound'', keeps.trans keeps'⟩

theorem releaseAll_spec (cells : List Nat) (sound : Sound p (cells ++ roots)) :
    Sound (p.releaseAll cells) roots ∧ p.Keeps (p.releaseAll cells) :=
  releaseFrom_spec _ cells sound

theorem release_spec (sound : Sound p (i :: roots)) :
    Sound (p.release i) roots ∧ p.Keeps (p.release i) :=
  releaseAll_spec [i] sound

/-! ### Cells made -/

theorem getElem?_fresh_lt (content : Content) (views : Views) (inside : x < p.cells.length) :
    (p.fresh content views).1.cells[x]? = p.cells[x]? :=
  List.getElem?_append_left inside

theorem getElem?_fresh (content : Content) (views : Views) :
    (p.fresh content views).1.cells[p.cells.length]? =
      some { content, views, holders := 1 } :=
  List.getElem?_concat_length

theorem edges_fresh (content : Content) (views : Views) :
    (p.fresh content views).1.edges = p.edges ++ (content.elements ++ views.elements) := by
  simp [fresh, edges, Cell.children]

theorem below_fresh {content : Content} {views : Views}
    (below : (p.fresh content views).1.Below y x) :
    (x = p.cells.length ∧ y ∈ content.elements ++ views.elements) ∨
      (x < p.cells.length ∧ p.Below y x) := by
  obtain ⟨c, found, member⟩ := below
  rcases Nat.lt_trichotomy x p.cells.length with inside | same | outside
  · rw [getElem?_fresh_lt _ _ inside] at found
    exact .inr ⟨inside, c, found, member⟩
  · subst same
    rw [getElem?_fresh] at found
    cases found
    exact .inl ⟨rfl, member⟩
  · have short := (List.getElem?_eq_some_iff.mp found).1
    simp only [fresh, List.length_append, List.length_singleton] at short
    omega

theorem grounded_fresh {content : Content} {views : Views} (sound : Sound p roots)
    (inside : ∀ y ∈ content.elements ++ views.elements, y < p.cells.length) :
    WellFounded (p.fresh content views).1.Below := by
  have old : ∀ x, x < p.cells.length → Acc (p.fresh content views).1.Below x := by
    intro x
    induction x using sound.grounded.induction with
    | _ x ih =>
      intro x_inside
      refine Acc.intro x fun y below => ?_
      rcases below_fresh below with ⟨same, _⟩ | ⟨_, below⟩
      · omega
      · exact ih y below (sound.inside below)
  refine ⟨fun x => Acc.intro x fun y below => old y ?_⟩
  rcases below_fresh below with ⟨_, member⟩ | ⟨_, below⟩
  · exact inside y member
  · exact sound.inside below

theorem value_fresh_lt {content : Content} {views : Views} (sound : Sound p roots)
    (inside : ∀ y ∈ content.elements ++ views.elements, y < p.cells.length)
    (x_inside : x < p.cells.length) : (p.fresh content views).1.value x = p.value x := by
  refine value_congr sound.grounded (grounded_fresh sound inside) (· < p.cells.length)
    (fun x x_inside => by rw [getElem?_fresh_lt _ _ x_inside])
    (fun x c _ found y member => sound.inside (below_of_element found member)) x_inside

theorem holders_fresh_lt (content : Content) (views : Views) (inside : x < p.cells.length) :
    (p.fresh content views).1.holders x = p.holders x := by
  rw [holders, getElem?_fresh_lt _ _ inside, holders]

/-- A fresh cell takes over handles from outside. -/
theorem counted_fresh {content : Content} {views : Views}
    (sound : Sound p (content.elements ++ views.elements ++ roots)) (x : Nat) :
    (p.cells.length :: roots).count x + (p.fresh content views).1.edges.count x ≤
      (p.fresh content views).1.holders x := by
  have counted := sound.counted x
  rw [edges_fresh]
  simp only [List.count_append] at counted ⊢
  by_cases same : x = p.cells.length
  · have beyond := holders_of_le (Nat.le_of_eq same.symm)
    rw [same] at counted beyond ⊢
    rw [holders_of_some (getElem?_fresh content views), List.count_cons_self]
    dsimp only
    omega
  · rw [List.count_cons_of_ne (Ne.symm same)]
    by_cases inside : x < p.cells.length
    · rw [holders_fresh_lt _ _ inside]
      omega
    · have beyond := holders_of_le (Nat.le_of_not_lt inside)
      omega

theorem fresh_spec {content : Content} {views : Views}
    (sound : Sound p (content.elements ++ views.elements ++ roots))
    (right : views.Of p.value (content.denote p.value).str) :
    Sound (p.fresh content views).1 (p.cells.length :: roots) ∧
      p.Grows (p.fresh content views).1 ∧
      (p.fresh content views).1.value p.cells.length = content.denote p.value := by
  have inside : ∀ y ∈ content.elements ++ views.elements, y < p.cells.length := fun y member =>
    lt_length_of_holders (sound.held (List.mem_append_left _ member))
  have grounded := grounded_fresh sound inside
  have values : ∀ x, x < p.cells.length → (p.fresh content views).1.value x = p.value x :=
    fun x x_inside => value_fresh_lt sound inside x_inside
  have value : (p.fresh content views).1.value p.cells.length = content.denote p.value := by
    rw [value_eq grounded (getElem?_fresh content views)]
    exact Content.denote_congr fun y member =>
      values y (inside y (List.mem_append_left _ member))
  refine ⟨⟨counted_fresh sound, grounded, fun x c found => ?_⟩,
    ⟨⟨by simp [fresh], fun x x_inside held => ?_⟩, fun x => ?_⟩, value⟩
  · rcases Nat.lt_trichotomy x p.cells.length with x_inside | same | outside
    · rw [getElem?_fresh_lt _ _ x_inside] at found
      rw [values x x_inside]
      refine (sound.viewed x c found).congr fun y member => values y ?_
      exact sound.inside ⟨c, found, List.mem_append_right _ member⟩
    · subst same
      rw [getElem?_fresh] at found
      cases found
      rw [value]
      exact right.congr fun y member => values y (inside y (List.mem_append_right _ member))
    · have short := (List.getElem?_eq_some_iff.mp found).1
      simp only [fresh, List.length_append, List.length_singleton] at short
      omega
  · rw [holders_fresh_lt _ _ x_inside] at held
    exact ⟨held, values x x_inside⟩
  · by_cases x_inside : x < p.cells.length
    · rw [holders_fresh_lt _ _ x_inside]
    · rw [holders_of_le (Nat.le_of_not_lt x_inside)]
      exact Nat.zero_le _

theorem fresh_plain {content : Content} (plain : content.elements = []) (sound : Sound p roots) :
    Sound (p.fresh content {}).1 (p.cells.length :: roots) ∧ p.Grows (p.fresh content {}).1 ∧
      (p.fresh content {}).1.value p.cells.length = content.denote p.value := by
  refine fresh_spec ?_ (Views.of_empty _ _)
  rw [plain]
  exact sound

mutual

/-- A cell made for a value denotes it. -/
theorem store_spec : ∀ (v : Value) {p : Pool} {roots : List Nat}, Sound p roots →
    Sound (store v p).1 ((store v p).2 :: roots) ∧ p.Grows (store v p).1 ∧
      (store v p).1.value (store v p).2 = v
  | .text s, _, _, sound => by rw [store]; exact fresh_plain rfl sound
  | .int n, _, _, sound => by rw [store]; exact fresh_plain rfl sound
  | .wide n, _, _, sound => by rw [store]; exact fresh_plain rfl sound
  | .double x, _, _, sound => by rw [store]; exact fresh_plain rfl sound
  | .list items, p, roots, sound => by
    obtain ⟨sound', grows, values⟩ := storeAll_spec items sound
    have taken : Sound (storeAll items p).1
        ((Content.list (storeAll items p).2).elements ++ ({} : Views).elements ++ roots) := by
      simpa [Content.elements, Views.elements] using sound'
    obtain ⟨sound'', grows', value⟩ := fresh_spec taken (Views.of_empty _ _)
    rw [store]
    refine ⟨sound'', grows.trans grows', value.trans ?_⟩
    rw [Content.denote, values]

/-- Cells made for values denote them. -/
theorem storeAll_spec : ∀ (vs : List Value) {p : Pool} {roots : List Nat}, Sound p roots →
    Sound (storeAll vs p).1 ((storeAll vs p).2 ++ roots) ∧ p.Grows (storeAll vs p).1 ∧
      (storeAll vs p).2.map (storeAll vs p).1.value = vs
  | [], p, _, sound => by
    rw [storeAll]
    exact ⟨sound, .refl p, rfl⟩
  | v :: vs, p, roots, sound => by
    obtain ⟨sound', grows, value⟩ := store_spec v sound
    obtain ⟨sound'', grows', values⟩ := storeAll_spec vs sound'
    rw [storeAll]
    dsimp only
    refine ⟨sound''.mono fun x => Nat.le_of_eq ?_, grows.trans grows', ?_⟩
    · exact (List.perm_middle.symm.count_eq x)
    · rw [List.map_cons, values, grows'.value (sound'.held List.mem_cons_self), value]

end

end Pool

end CommandVM
