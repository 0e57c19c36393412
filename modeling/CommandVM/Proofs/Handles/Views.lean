import CommandVM.Proofs.Handles.Pool
import CommandVM.Proofs.ValueViews
import Mathlib

/-!
# Kept views

A view of a cell is the view of its value, whether it was kept or is made now, and keeping it changes
no value.
-/

namespace CommandVM

/-- What a cell is apart from its views. -/
def Cell.shape (c : Cell) : Content × List Nat × Nat := (c.content, c.children, c.holders)

theorem Content.number?_eq (content : Content) (value : Nat → Value) :
    content.number? = (content.denote value).held? := by
  cases content <;> rfl

namespace Pool

variable {p q : Pool} {roots : List Nat} {i x y : Nat} {c : Cell}

/-- The cells apart from their views. -/
def shape (p : Pool) : List (Content × List Nat × Nat) := p.cells.map Cell.shape

section

variable (same : q.shape = p.shape)
include same

theorem length_of_shape : q.cells.length = p.cells.length := by
  simpa [shape] using congrArg List.length same

theorem getElem?_of_shape (x : Nat) : q.cells[x]?.map Cell.shape = p.cells[x]?.map Cell.shape := by
  have agree := congrArg (fun cells => cells[x]?) same
  simpa only [shape, List.getElem?_map] using agree

theorem holders_of_shape (x : Nat) : q.holders x = p.holders x := by
  have agree := congrArg (Option.map fun s => s.2.2) (getElem?_of_shape same x)
  rw [Option.map_map, Option.map_map] at agree
  exact congrArg (fun n => Option.getD n 0) agree

theorem edges_of_shape : q.edges = p.edges := by
  have agree := congrArg (List.flatMap fun s => s.2.1) same
  simpa only [edges, shape, List.flatMap_map, Cell.shape] using agree

theorem below_of_shape : q.Below = p.Below := by
  funext y x
  have agree := getElem?_of_shape same x
  cases found : p.cells[x]? with
  | none =>
    rw [found, Option.map_none, Option.map_eq_none_iff] at agree
    simp [Below, found, agree]
  | some c =>
    rw [found, Option.map_some, Option.map_eq_some_iff] at agree
    obtain ⟨d, found', shape⟩ := agree
    have children : d.children = c.children := congrArg (fun s => s.2.1) shape
    simp [Below, found, found', children]

theorem rank_of_shape (i : Nat) : q.rank i = p.rank i := by
  rw [rank, rank, below_of_shape same, length_of_shape same]

theorem value_of_shape (grounded : WellFounded p.Below) : q.value = p.value := by
  funext x
  refine value_congr grounded ?_ (fun _ => True) (fun x _ => ?_) (fun _ _ _ _ _ _ => trivial) trivial
  · rw [below_of_shape same]
    exact grounded
  · have agree := congrArg (Option.map Prod.fst) (getElem?_of_shape same x)
    rw [Option.map_map, Option.map_map] at agree
    exact agree

theorem grows_of_shape (grounded : WellFounded p.Below) : p.Grows q := by
  refine ⟨⟨Nat.le_of_eq (length_of_shape same).symm, fun x _ held => ⟨?_, ?_⟩⟩, fun x => ?_⟩
  · rwa [← holders_of_shape same x]
  · rw [value_of_shape same grounded]
  · rw [holders_of_shape same]

end

/-! ### Text views -/

theorem setViews_eq (found : p.cells[i]? = some c) (f : Views → Views) :
    p.setViews i f = p.put i { c with views := f c.views } := by
  rw [setViews, put, List.modify_eq_set_getElem?, found]
  rfl

/-- A cell may keep a right view that holds no handles. -/
theorem setViews_spec (sound : Sound p roots) (found : p.cells[i]? = some c) (f : Views → Views)
    (elements : (f c.views).elements = c.views.elements)
    (right : (f c.views).Of p.value (p.value i).str) :
    Sound (p.setViews i f) roots ∧ (p.setViews i f).shape = p.shape := by
  have same : (p.put i { c with views := f c.views }).shape = p.shape := by
    have alike : Cell.shape { c with views := f c.views } = c.shape := by
      simp [Cell.shape, Cell.children, elements]
    obtain ⟨inside, rfl⟩ := List.getElem?_eq_some_iff.mp found
    rw [shape, put, List.map_set, alike, ← List.map_set, List.set_getElem_self, shape]
  rw [setViews_eq found]
  refine ⟨(sound.put_content found { c with views := f c.views } rfl ?_ right fun x => ?_).1, same⟩
  · rw [below_of_shape same]
    exact sound.grounded
  · rw [edges_of_shape same, holders_of_shape same]
    exact sound.counted x

theorem keepText_spec {text : String} (sound : Sound p roots) (inside : i < p.cells.length)
    (right : text = (p.value i).str) :
    (p.keepText i text).1 = (p.value i).str ∧ Sound (p.keepText i text).2 roots ∧
      (p.keepText i text).2.shape = p.shape := by
  have found := List.getElem?_eq_getElem inside
  have views := sound.viewed i _ found
  exact ⟨right, setViews_spec sound found (fun v => { v with text := some text }) rfl
    ⟨fun s kept => (Option.some.inj kept).symm.trans right, views.number, views.items⟩⟩

theorem lookEach_spec {look : Nat → Pool → String × Pool} (cells : List Nat)
    (each : ∀ y ∈ cells, ∀ q, Sound q roots → q.shape = p.shape →
      (look y q).1 = (p.value y).str ∧ Sound (look y q).2 roots ∧ (look y q).2.shape = p.shape)
    (sound : Sound q roots) (same : q.shape = p.shape) :
    (lookEach look cells q).1 = cells.map (fun y => (p.value y).str) ∧
      Sound (lookEach look cells q).2 roots ∧ (lookEach look cells q).2.shape = p.shape := by
  induction cells generalizing q with
  | nil => exact ⟨rfl, sound, same⟩
  | cons y cells ih =>
    obtain ⟨text, sound', same'⟩ := each y List.mem_cons_self q sound same
    obtain ⟨texts, sound'', same''⟩ :=
      ih (fun z member => each z (List.mem_cons_of_mem y member)) sound' same'
    refine ⟨?_, sound'', same''⟩
    rw [List.map_cons, ← text, ← texts]
    rfl

/-- A depth that reaches all cells gives the text of the value. -/
theorem lookTextTo_spec (depth : Nat) (sound : Sound p roots) (deep : p.rank i ≤ depth) :
    (lookTextTo depth i p).1 = (p.value i).str ∧ Sound (lookTextTo depth i p).2 roots ∧
      (lookTextTo depth i p).2.shape = p.shape := by
  induction depth generalizing i p with
  | zero =>
    cases found : p.cells[i]? with
    | none => exact ⟨by rw [value_of_none found]; rfl, sound, rfl⟩
    | some c => exact absurd (rank_pos found) (by omega)
  | succ depth ih =>
    rw [lookTextTo]
    cases found : p.cells[i]? with
    | none => exact ⟨by rw [value_of_none found]; rfl, sound, rfl⟩
    | some c =>
      have inside := (List.getElem?_eq_some_iff.mp found).1
      have value := value_eq sound.grounded found
      dsimp only
      split
      · next s content =>
        rw [value, content]
        exact ⟨rfl, sound, rfl⟩
      · next s view _ => exact ⟨(sound.viewed i c found).text s view, sound, rfl⟩
      · next v content _ => exact keepText_spec sound inside (by rw [value, content]; rfl)
      · next v content _ => exact keepText_spec sound inside (by rw [value, content]; rfl)
      · next v content _ => exact keepText_spec sound inside (by rw [value, content]; rfl)
      · next cells content _ =>
        have each : ∀ y ∈ cells, ∀ q, Sound q roots → q.shape = p.shape →
            (lookTextTo depth y q).1 = (p.value y).str ∧ Sound (lookTextTo depth y q).2 roots ∧
              (lookTextTo depth y q).2.shape = p.shape := by
          intro y member q sound' same
          have below := below_of_element found (by rw [content]; exact member)
          have lower := rank_lt sound.grounded below
          have reached : q.rank y ≤ depth := by rw [rank_of_shape same]; omega
          rw [← value_of_shape same sound.grounded, ← same]
          exact ih sound' reached
        obtain ⟨texts, sound', same⟩ := lookEach_spec cells each sound rfl
        have values := value_of_shape same sound.grounded
        rw [← values, ← same]
        refine keepText_spec sound' (by rwa [length_of_shape same]) ?_
        rw [values, value, content, texts, Content.denote, Value.str, Value.strs_eq_map,
          List.map_map]
        rfl

theorem lookText_spec (i : Nat) (sound : Sound p roots) :
    (p.lookText i).1 = (p.value i).str ∧ Sound (p.lookText i).2 roots ∧
      (p.lookText i).2.shape = p.shape :=
  lookTextTo_spec _ sound (rank_le p i)

/-! ### Number, truth and list views -/

theorem lookNumber_spec (sound : Sound p roots) (inside : i < p.cells.length) :
    (p.lookNumber i).1 = (p.value i).number ∧ Sound (p.lookNumber i).2 roots ∧
      (p.lookNumber i).2.shape = p.shape := by
  have found := List.getElem?_eq_getElem inside
  have held : p.cells[i].content.number? = (p.value i).held? := by
    rw [value_eq sound.grounded found, Content.number?_eq]
  rw [lookNumber, found]
  dsimp only
  split
  · next n number =>
    rw [held] at number
    exact ⟨by rw [Value.number, number], sound, rfl⟩
  · next view number kept =>
    rw [held] at number
    exact ⟨by rw [Value.number, number]; exact (sound.viewed i _ found).number view kept, sound, rfl⟩
  · next number _ =>
    rw [held] at number
    obtain ⟨text, sound', same⟩ := lookText_spec i sound
    have inside' : i < (p.lookText i).2.cells.length := by rwa [length_of_shape same]
    have values := value_of_shape same sound.grounded
    have found' := List.getElem?_eq_getElem inside'
    have views := sound'.viewed i _ found'
    have right : Number.read (p.lookText i).1 = (p.value i).number := by
      rw [Value.number, number, text]
    obtain ⟨sound'', same'⟩ := setViews_spec sound' found'
      (fun v => { v with number := some (Number.read (p.lookText i).1) }) rfl
      ⟨views.text, fun view kept => by rw [← Option.some.inj kept, text, values], views.items⟩
    exact ⟨right, sound'', same'.trans same⟩

theorem lookTruth_spec (sound : Sound p roots) (inside : i < p.cells.length) :
    (p.lookTruth i).1 = (p.value i).truth? ∧ Sound (p.lookTruth i).2 roots ∧
      (p.lookTruth i).2.shape = p.shape := by
  obtain ⟨number, sound', same⟩ := lookNumber_spec sound inside
  rw [lookTruth, Value.truth?, ← number]
  split
  · next n q looked =>
    rw [looked] at sound' same ⊢
    exact ⟨rfl, sound', same⟩
  · next e q looked =>
    rw [looked] at sound' same ⊢
    obtain ⟨text, sound'', same'⟩ := lookText_spec i sound'
    rw [value_of_shape same sound.grounded] at text
    exact ⟨congrArg (fun text => Number.truthWord? text.toList) text, sound'', same'.trans same⟩

theorem storeAll_texts (texts : List String) (p : Pool) :
    storeAll (texts.map Value.text) p =
      ({ cells := p.cells ++ texts.map fun s => { content := .text s, holders := 1 } },
        List.range' p.cells.length texts.length) := by
  induction texts generalizing p with
  | nil => simp [storeAll]
  | cons s texts ih =>
    rw [List.map_cons, storeAll, store, fresh]
    dsimp only
    rw [ih]
    simp [List.range'_succ]

/-- The cells of texts are new and hold no handles. -/
theorem storeAll_leaves {texts : List String} {r : Pool} {cells : List Nat}
    (stored : storeAll (texts.map Value.text) p = (r, cells)) :
    (∀ x < p.cells.length, r.cells[x]? = p.cells[x]?) ∧
      ∀ y ∈ cells, p.cells.length ≤ y ∧ ∀ z, ¬ r.Below z y := by
  rw [storeAll_texts] at stored
  obtain ⟨rfl, rfl⟩ := Prod.mk.inj stored
  refine ⟨fun x inside => List.getElem?_append_left inside, fun y member => ?_⟩
  have outside := (List.mem_range'_1.mp member).1
  refine ⟨outside, ?_⟩
  rintro z ⟨c, found, held⟩
  rw [List.getElem?_append_right outside, List.getElem?_map, Option.map_eq_some_iff] at found
  obtain ⟨s, _, rfl⟩ := found
  exact List.not_mem_nil held

/-- New handles on cells that hold none make no cycle. -/
theorem grounded_put_of_leaves (c' : Cell) (grounded : WellFounded p.Below)
    (found : p.cells[i]? = some c)
    (leaves : ∀ y ∈ c'.children, y ∈ c.children ∨ (y ≠ i ∧ ∀ z, ¬ p.Below z y)) :
    WellFounded (p.put i c').Below := by
  refine ⟨fun x => ?_⟩
  induction x using grounded.induction with
  | _ x ih =>
    refine Acc.intro x fun y below => ?_
    rcases below_put below with ⟨rfl, member⟩ | ⟨_, below⟩
    · rcases leaves y member with old | ⟨apart, leaf⟩
      · exact ih y ⟨c, found, old⟩
      · refine Acc.intro y fun z below => ?_
        rcases below_put below with ⟨same, _⟩ | ⟨_, below⟩
        · exact absurd same apart
        · exact absurd below (leaf z)
    · exact ih y below

/-- A cell may keep fresh cells for the elements of its text. -/
theorem keepItems_spec {texts : List String} (sound : Sound p roots) (held : 0 < p.holders i)
    (found : p.cells[i]? = some c) (bare : c.views.elements = [])
    (split : ListText.split (p.value i).str = .ok texts) {r : Pool} {cells : List Nat}
    (stored : storeAll (texts.map Value.text) p = (r, cells)) :
    Sound (r.setViews i ({ · with items := some (.ok cells) })) roots ∧
      p.Grows (r.setViews i ({ · with items := some (.ok cells) })) ∧
      (∀ y ∈ cells, y ∈ (r.setViews i ({ · with items := some (.ok cells) })).edges) ∧
      cells.map (fun y => ((r.setViews i ({ · with items := some (.ok cells) })).value y).str) =
        texts := by
  have inside := (List.getElem?_eq_some_iff.mp found).1
  obtain ⟨old, leaves⟩ := storeAll_leaves stored
  obtain ⟨sound', grows, values⟩ := storeAll_spec (texts.map Value.text) sound
  rw [stored] at sound' grows values
  dsimp only at sound' grows values
  have found' : r.cells[i]? = some c := (old i inside).trans found
  have same : r.value i = p.value i := grows.value held
  have texts_eq : cells.map (fun y => (r.value y).str) = texts := by
    have strs := congrArg (List.map Value.str) values
    simpa [Function.comp_def, Value.str] using strs
  have children : Cell.children { c with views := { c.views with items := some (.ok cells) } } =
      c.children ++ cells := by
    rw [Cell.children, Cell.children, bare, List.append_nil]
    rfl
  rw [setViews_eq found']
  generalize new : ({ c with views := { c.views with items := some (.ok cells) } } : Cell) = c'
    at children ⊢
  have holders : c'.holders = c.holders := by rw [← new]
  have grounded : WellFounded (r.put i c').Below := by
    refine grounded_put_of_leaves c' sound'.grounded found' fun y member => ?_
    rw [children] at member
    rcases List.mem_append.mp member with member | member
    · exact .inl member
    · have outside := (leaves y member).1
      exact .inr ⟨by omega, (leaves y member).2⟩
  have counted : ∀ x, roots.count x + (r.put i c').edges.count x ≤ (r.put i c').holders x := by
    intro x
    have before := sound'.counted x
    have edges := count_edges_put found' c' x
    rw [children, List.count_append] at edges
    rw [List.count_append] at before
    by_cases x_same : x = i
    · rw [x_same, holders_of_some found'] at before
      rw [x_same] at edges ⊢
      rw [holders_put_self found', holders]
      omega
    · rw [holders_put_ne x_same]
      omega
  have views := sound'.viewed i c found'
  obtain ⟨sound'', values'⟩ := sound'.put_content found' c' (by rw [← new]) grounded (by
    rw [← new]
    refine ⟨views.text, views.number, fun view kept => ?_⟩
    rw [← Option.some.inj kept, same, split, ← texts_eq]
    rfl) counted
  have grows' : r.Grows (r.put i c') :=
    grows_put found' (by rw [holders]; exact id) (by rw [holders]) values'
  refine ⟨sound'', grows.trans grows', fun y member => ?_, by rw [values', texts_eq]⟩
  refine mem_edges.mpr ⟨i, c', getElem?_put_self found', ?_⟩
  rw [children]
  exact List.mem_append_right _ member

theorem lookItems_spec (sound : Sound p roots) (held : 0 < p.holders i) :
    Sound (p.lookItems i).2 roots ∧ p.Grows (p.lookItems i).2 ∧
      (∀ cells, (p.lookItems i).1 = .ok cells → ∀ y ∈ cells, y ∈ (p.lookItems i).2.edges) ∧
      ((p.lookItems i).1.map fun cells => cells.map fun y => ((p.lookItems i).2.value y).str) =
        ListText.split (p.value i).str := by
  obtain ⟨c, found⟩ := exists_of_holders held
  have value := value_eq sound.grounded found
  rw [lookItems, found]
  dsimp only
  split
  · next cells content =>
    refine ⟨sound, .refl p, ?_, ?_⟩
    · rintro _ ⟨⟩ y member
      exact mem_edges.mpr ⟨i, below_of_element found (by rw [content]; exact member)⟩
    · rw [value, content, Content.denote, Value.split_list, List.map_map]
      rfl
  · next view kept _ =>
    refine ⟨sound, .refl p, ?_, (sound.viewed i c found).items view kept⟩
    rintro cells rfl y member
    refine mem_edges.mpr ⟨i, c, found, List.mem_append_right _ ?_⟩
    rw [Views.elements, kept]
    exact member
  · next none _ =>
    obtain ⟨text, sound', same⟩ := lookText_spec i sound
    generalize p.lookText i = looked at text sound' same ⊢
    obtain ⟨str, q⟩ := looked
    dsimp only at text sound' same ⊢
    have grows := grows_of_shape same sound.grounded
    rw [← value_of_shape same sound.grounded] at text ⊢
    rw [← holders_of_shape same i] at held
    have agree := getElem?_of_shape same i
    rw [found, Option.map_some, Option.map_eq_some_iff] at agree
    obtain ⟨d, found', alike⟩ := agree
    have bare : d.views.elements = [] := by
      have content : d.content = c.content := congrArg Prod.fst alike
      have children : d.children = c.children := congrArg (fun s => s.2.1) alike
      rw [Cell.children, Cell.children, content] at children
      rw [List.append_cancel_left children, Views.elements, none]
    rw [text]
    split
    · next e failed =>
      have views := sound'.viewed i d found'
      obtain ⟨sound'', same'⟩ := setViews_spec sound' found'
        (fun v => { v with items := some (.error e) }) bare.symm
        ⟨views.text, views.number, fun view kept => by rw [← Option.some.inj kept, failed]; rfl⟩
      refine ⟨sound'', grows.trans (grows_of_shape same' sound'.grounded), ?_, failed.symm⟩
      rintro cells ⟨⟩
    · next texts done =>
      obtain ⟨sound'', grows', members, texts_eq⟩ :=
        keepItems_spec sound' held found' bare done rfl
      refine ⟨sound'', grows.trans grows', ?_, ?_⟩
      · rintro _ ⟨⟩
        exact members
      · rw [done]
        exact congrArg Except.ok texts_eq

end Pool

end CommandVM
