import CommandVM.Proofs.Handles.Views
import Mathlib

/-!
# Changes through one handle

A change reuses a cell only when no other handle is on it, so every other cell that is still held
keeps its value.
-/

namespace CommandVM.Pool

variable {p q : Pool} {others : List Nat} {i j x element : Nat}

/-- The handle on `i` became one on `j`, and all other cells are kept: `j` is `i` itself, which no
other handle is on, or a fresh cell. -/
structure Changes (p q : Pool) (i j : Nat) (others : List Nat) : Prop where
  sound : Sound q (j :: others)
  place : j = i ∧ p.holders i ≤ 1 ∨ p.cells.length ≤ j
  kept : ∀ x < p.cells.length, x ≠ j → p.Kept q x

theorem Changes.apart (changes : p.Changes q i j others) (sound : Sound p (i :: others))
    (member : x ∈ others ∨ x ∈ p.edges) : x ≠ j := by
  rintro rfl
  rcases changes.place with ⟨rfl, few⟩ | outside
  · obtain ⟨absent, unheld⟩ := sound.sole few
    exact member.elim absent unheld
  · have held : 0 < p.holders x := member.elim
      (fun member => sound.held (List.mem_cons_of_mem i member)) sound.held_edge
    have inside := lt_length_of_holders held
    omega

theorem Grows.changes {r : Pool} (grows : p.Grows q) (changes : q.Changes r i j others) :
    p.Changes r i j others := by
  refine ⟨changes.sound, ?_, fun x inside different => ?_⟩
  · rcases changes.place with ⟨same, few⟩ | outside
    · exact .inl ⟨same, (grows.counts i).trans few⟩
    · exact .inr (grows.grows.trans outside)
  · have inside' := Nat.lt_of_lt_of_le inside grows.grows
    exact (grows.kept x inside).trans (changes.kept x inside' different)

/-- A fresh cell takes the place of one handle. -/
theorem move_spec {content : Content} {views : Views}
    (sound : Sound p (content.elements ++ views.elements ++ i :: others))
    (right : views.Of p.value (content.denote p.value).str) :
    p.Changes ((p.fresh content views).1.release i) i p.cells.length others ∧
      ((p.fresh content views).1.release i).value p.cells.length = content.denote p.value := by
  obtain ⟨sound', grows, value⟩ := fresh_spec sound right
  have swapped : Sound (p.fresh content views).1 (i :: p.cells.length :: others) :=
    sound'.mono fun x => Nat.le_of_eq ((List.Perm.swap _ _ _).count_eq x)
  obtain ⟨sound'', keeps⟩ := release_spec swapped
  refine ⟨⟨sound'', .inr (Nat.le_refl _), fun x inside _ => ?_⟩, ?_⟩
  · exact (grows.kept x inside).trans (keeps.kept x (Nat.lt_of_lt_of_le inside grows.grows))
  · have inside := lt_length_of_holders (sound'.held List.mem_cons_self)
    rw [(keeps.kept _ inside (sound''.held List.mem_cons_self)).2, value]

/-- A cell with one handle takes another content. -/
theorem reuse_spec {content : Content} {c : Cell}
    (sound : Sound p (i :: (content.elements ++ others))) (found : p.cells[i]? = some c)
    (few : p.holders i ≤ 1) :
    p.Changes ((p.put i { content, holders := 1 }).releaseAll c.children) i i others ∧
      ((p.put i { content, holders := 1 }).releaseAll c.children).value i =
        content.denote p.value := by
  obtain ⟨absent, unheld⟩ := sound.sole few
  rw [List.mem_append, not_or] at absent
  have lone : i ∉ c.children := fun member => unheld (mem_edges.mpr ⟨i, c, found, member⟩)
  have children : Cell.children { content, holders := 1 } = content.elements := List.append_nil _
  have balance : ∀ x, x ≠ i → (c.children ++ i :: others).count x +
      (Cell.children { content, holders := 1 }).count x ≤
      (i :: (content.elements ++ others)).count x + c.children.count x := by
    intro x different
    simp only [children, List.count_append, List.count_cons_of_ne (Ne.symm different)]
    omega
  have own : (c.children ++ i :: others).count i ≤ 1 := by
    rw [List.count_append, List.count_cons_self, List.count_eq_zero.mpr lone,
      List.count_eq_zero.mpr absent.2]
  obtain ⟨sound', values, value⟩ := sound.put_unheld found unheld { content, holders := 1 }
    (by rw [children]; exact absent.1) rfl balance own
  obtain ⟨sound'', keeps⟩ := releaseAll_spec c.children sound'
  have inside : ∀ x, x < p.cells.length → x < (p.put i { content, holders := 1 }).cells.length :=
    fun x x_inside => by rwa [length_put]
  refine ⟨⟨sound'', .inl ⟨rfl, few⟩, fun x x_inside different held => ?_⟩, ?_⟩
  · obtain ⟨held', same⟩ := keeps.kept x (inside x x_inside) held
    rw [holders_put_ne different] at held'
    exact ⟨held', same.trans (values x different)⟩
  · have own_inside := inside i (List.getElem?_eq_some_iff.mp found).1
    rw [(keeps.kept i own_inside (sound''.held List.mem_cons_self)).2, value]

theorem replace_spec {content : Content} (sound : Sound p (i :: (content.elements ++ others))) :
    p.Changes (p.replace i content).1 i (p.replace i content).2 others ∧
      (p.replace i content).1.value (p.replace i content).2 = content.denote p.value := by
  obtain ⟨c, found⟩ := exists_of_holders (sound.held List.mem_cons_self)
  rw [replace]
  split
  · next few =>
    rw [found]
    exact reuse_spec sound found few
  · next many =>
    refine move_spec (sound.mono fun x => Nat.le_of_eq ?_) (Views.of_empty _ _)
    simp only [Views.elements, List.append_nil]
    exact List.perm_middle.count_eq x

/-- A handle on a cell of its own sees the same value. -/
theorem exclusive_spec (sound : Sound p (i :: others)) :
    p.Changes (p.exclusive i).1 i (p.exclusive i).2 others ∧
      (p.exclusive i).1.value (p.exclusive i).2 = p.value i := by
  have held := sound.held List.mem_cons_self
  obtain ⟨c, found⟩ := exists_of_holders held
  have holders := holders_of_some found
  rw [exclusive, found]
  dsimp only
  split
  · next few =>
    exact ⟨⟨sound, .inl ⟨rfl, holders ▸ few⟩, fun x _ _ held => ⟨held, rfl⟩⟩, rfl⟩
  · next many =>
    have elements : ∀ y ∈ c.children, 0 < p.holders y := fun y member =>
      sound.held_edge (mem_edges.mpr ⟨i, c, found, member⟩)
    obtain ⟨sound', grows⟩ := retainAll_spec c.children sound elements
    have same : c.content.denote (p.retainAll c.children).value = p.value i := by
      rw [value_eq sound.grounded found]
      exact Content.denote_congr fun y member =>
        grows.value (elements y (List.mem_append_left _ member))
    have right : c.views.Of (p.retainAll c.children).value
        (c.content.denote (p.retainAll c.children).value).str := by
      rw [same]
      exact (sound.viewed i c found).congr fun y member =>
        grows.value (elements y (List.mem_append_right _ member))
    obtain ⟨changes, value⟩ := move_spec sound' right
    exact ⟨grows.changes changes, value.trans same⟩

theorem append_spec (more : String) (sound : Sound p (i :: others)) :
    p.Changes (p.append i more).1 i (p.append i more).2 others ∧
      (p.append i more).1.value (p.append i more).2 = .text ((p.value i).str ++ more) := by
  obtain ⟨text, sound', same⟩ := lookText_spec i sound
  have taken : Sound (p.lookText i).2
      (i :: ((Content.text ((p.lookText i).1 ++ more)).elements ++ others)) := sound'
  obtain ⟨changes, value⟩ := replace_spec taken
  refine ⟨(grows_of_shape same sound.grounded).changes changes, value.trans ?_⟩
  rw [text, Content.denote]

theorem setNumber_spec (n : Number) (sound : Sound p (i :: others)) :
    p.Changes (p.setNumber i n).1 i (p.setNumber i n).2 others ∧
      (p.setNumber i n).1.value (p.setNumber i n).2 = Value.ofNumber n := by
  have plain : (Content.ofNumber n).elements = [] := by cases n <;> rfl
  have taken : Sound p (i :: ((Content.ofNumber n).elements ++ others)) := by
    rw [plain]
    exact sound
  obtain ⟨changes, value⟩ := replace_spec taken
  exact ⟨changes, value.trans (by cases n <;> rfl)⟩

theorem push_error {e : ListText.Error} (sound : Sound p (i :: element :: others))
    (failed : ListText.split (p.value i).str = .error e) :
    ∃ q, p.push i element = (.error e, q, i) ∧ Sound q (i :: others) ∧ p.Keeps q := by
  obtain ⟨sound', grows, _, view⟩ := lookItems_spec sound (sound.held List.mem_cons_self)
  rw [failed] at view
  rw [push]
  generalize p.lookItems i = looked at sound' grows view ⊢
  obtain ⟨result, q⟩ := looked
  cases result with
  | ok cells => cases view
  | error e' =>
    cases view
    obtain ⟨sound'', keeps⟩ := release_spec (sound'.mono fun x =>
      Nat.le_of_eq ((List.Perm.swap _ _ _).count_eq x))
    exact ⟨_, rfl, sound'', grows.toKeeps.trans keeps⟩

theorem push_ok {texts : List String} (sound : Sound p (i :: element :: others))
    (done : ListText.split (p.value i).str = .ok texts) :
    ∃ q j, p.push i element = (.ok (), q, j) ∧ p.Changes q i j others ∧
      (q.value j).str = ListText.join (texts ++ [(p.value element).str]) := by
  obtain ⟨sound', grows, members, view⟩ := lookItems_spec sound (sound.held List.mem_cons_self)
  rw [done] at view
  rw [push]
  generalize p.lookItems i = looked at sound' grows members view ⊢
  obtain ⟨result, q⟩ := looked
  cases result with
  | error e => cases view
  | ok cells =>
    have listed : cells.map (fun y => (q.value y).str) = texts := Except.ok.inj view
    have held : ∀ y ∈ cells, 0 < q.holders y := fun y member =>
      sound'.held_edge (members cells rfl y member)
    obtain ⟨sound'', grows'⟩ := retainAll_spec cells sound' held
    have taken : Sound (q.retainAll cells)
        (i :: ((Content.list (cells ++ [element])).elements ++ others)) := by
      refine sound''.mono fun x => Nat.le_of_eq ?_
      simp only [Content.elements, List.count_append, List.count_cons, List.count_nil]
      omega
    obtain ⟨changes, value⟩ := replace_spec taken
    refine ⟨((q.retainAll cells).replace i (.list (cells ++ [element]))).1,
      ((q.retainAll cells).replace i (.list (cells ++ [element]))).2, rfl,
      grows.changes (grows'.changes changes), ?_⟩
    have own := sound.held (List.mem_cons_of_mem i List.mem_cons_self)
    have element_same : (q.retainAll cells).value element = p.value element :=
      (grows.trans grows').value own
    rw [value, Content.denote, Value.str, Value.strs_eq_map, List.map_map, List.map_append,
      ← listed]
    congr 2
    · exact List.map_congr_left fun y member => congrArg Value.str (grows'.value (held y member))
    · exact congrArg (fun v => [Value.str v]) element_same

end CommandVM.Pool
