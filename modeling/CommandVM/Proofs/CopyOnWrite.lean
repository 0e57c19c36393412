import CommandVM.Proofs.Handles.Changes
import Mathlib

/-!
# Shared cells behave as texts of their own

Whatever handles share cells, each name has a text that only operations on that name change: the
handles are a map from names to texts.
-/

namespace CommandVM.Handles

variable {h h' : Handles} {name n : String} {i j cell : Nat} {q : Pool}

/-! ### Names -/

/-- The cells of the other names. -/
def others (h : Handles) (name : String) : List Nat :=
  (h.names.filter fun pair => pair.1 != name).map Prod.snd

theorem perm_of_cell? (distinct : (h.names.map Prod.fst).Nodup) (found : h.cell? name = some i) :
    (h.names.map Prod.snd).Perm (i :: h.others name) := by
  obtain ⟨before, after, names, first⟩ := List.lookup_eq_some_iff.mp found
  rw [names, List.map_append, List.map_cons] at distinct
  have later : ∀ pair ∈ after, (pair.1 != name) = true := by
    intro pair member
    have absent := (List.nodup_cons.mp (List.nodup_append.mp distinct).2.1).1
    rw [bne_iff_ne]
    intro same
    exact absent (List.mem_map.mpr ⟨pair, member, same⟩)
  have earlier : ∀ pair ∈ before, (pair.1 != name) = true := fun pair member => by
    rw [bne_comm]
    exact first pair member
  rw [others, names, List.filter_append, List.filter_eq_self.mpr earlier,
    List.filter_cons_of_neg (by simp), List.filter_eq_self.mpr later, List.map_append,
    List.map_append, List.map_cons]
  exact List.perm_middle

theorem mem_others (found : h.cell? n = some i) (different : n ≠ name) : i ∈ h.others name := by
  obtain ⟨before, after, names, _⟩ := List.lookup_eq_some_iff.mp found
  refine List.mem_map.mpr ⟨(n, i), List.mem_filter.mpr ⟨?_, bne_iff_ne.mpr different⟩, rfl⟩
  rw [names]
  exact List.mem_append_right _ List.mem_cons_self

theorem fst_move (h : Handles) (q : Pool) :
    (h.move name q cell).names.map Prod.fst = h.names.map Prod.fst := by
  rw [move, List.map_map]
  refine List.map_congr_left fun pair _ => ?_
  dsimp only [Function.comp]
  split <;> rfl

theorem others_move (h : Handles) (q : Pool) :
    (h.move name q cell).others name = h.others name := by
  obtain ⟨pool, names⟩ := h
  simp only [others, move]
  induction names with
  | nil => rfl
  | cons pair names ih =>
    obtain ⟨m, c⟩ := pair
    by_cases same : m = name
    · simpa [same] using ih
    · simpa [same] using ih

theorem lookup_skip (pair : String × Nat) {names : List (String × Nat)} (different : n ≠ pair.1) :
    (pair :: names).lookup n = names.lookup n := by
  rw [List.lookup_cons, beq_false_of_ne different]

theorem cell?_move (h : Handles) (q : Pool) (n : String) :
    (h.move name q cell).cell? n =
      if n = name then (h.cell? n).map fun _ => cell else h.cell? n := by
  obtain ⟨pool, names⟩ := h
  simp only [cell?, move]
  induction names with
  | nil => simp
  | cons pair names ih =>
    obtain ⟨m, c⟩ := pair
    by_cases here : n = m
    · subst here
      by_cases same : n = name <;> simp [same]
    · rw [List.map_cons, lookup_skip (m, c) here, lookup_skip _ (by split <;> exact here), ih]

theorem cell?_drop (h : Handles) (q : Pool) (n : String) :
    Handles.cell? { pool := q, names := h.names.filter fun (m, _) => m != name } n =
      if n = name then none else h.cell? n := by
  obtain ⟨pool, names⟩ := h
  simp only [cell?]
  induction names with
  | nil => simp
  | cons pair names ih =>
    obtain ⟨m, c⟩ := pair
    by_cases same : m = name
    · subst same
      rw [List.filter_cons_of_neg (by simp), ih]
      by_cases here : n = m
      · rw [if_pos here, if_pos here]
      · rw [if_neg here, if_neg here, lookup_skip _ here]
    · rw [List.filter_cons_of_pos (by simpa using same)]
      by_cases here : n = m
      · subst here
        simp [same]
      · rw [lookup_skip _ here, lookup_skip _ here, ih]

/-! ### Sound handles -/

/-- The names are distinct and the cells count them. -/
structure Sound (h : Handles) : Prop where
  distinct : (h.names.map Prod.fst).Nodup
  pool : Pool.Sound h.pool (h.names.map Prod.snd)

/-- Nothing changed but what `name` sees: the other names and the cells that lists hold have the same
values. -/
structure Frames (h h' : Handles) (name : String) : Prop where
  sound : h'.Sound
  names : ∀ n, n ≠ name → h'.value? n = h.value? n
  stored : ∀ x ∈ h.pool.edges, 0 < h'.pool.holders x → h'.pool.value x = h.pool.value x

theorem Sound.split (sound : h.Sound) (found : h.cell? name = some i) :
    Pool.Sound h.pool (i :: h.others name) :=
  sound.pool.mono fun x => Nat.le_of_eq ((perm_of_cell? sound.distinct found).symm.count_eq x)

theorem Sound.held (sound : h.Sound) (found : h.cell? name = some i) : 0 < h.pool.holders i :=
  (sound.split found).held List.mem_cons_self

theorem sound_move (sound : h.Sound) (found : h.cell? name = some i)
    (moved : Pool.Sound q (j :: h.others name)) : (h.move name q j).Sound := by
  have distinct : ((h.move name q j).names.map Prod.fst).Nodup := by
    rw [fst_move]
    exact sound.distinct
  refine ⟨distinct, moved.mono fun x => Nat.le_of_eq ?_⟩
  have found' : (h.move name q j).cell? name = some j := by rw [cell?_move, if_pos rfl, found]; rfl
  rw [← others_move h q]
  exact (perm_of_cell? distinct found').count_eq x

theorem frames_of_kept (sound' : h'.Sound)
    (names : ∀ n, n ≠ name → h'.cell? n = h.cell? n)
    (kept : ∀ x, x ∈ h.others name ∨ x ∈ h.pool.edges → h.pool.Kept h'.pool x) :
    h.Frames h' name := by
  refine ⟨sound', fun n different => ?_, fun x member held => (kept x (.inr member) held).2⟩
  have same := names n different
  rw [value?, value?, same]
  cases found : h.cell? n with
  | none => rfl
  | some k =>
    have held := sound'.held (same.trans found)
    exact congrArg some (kept k (.inl (mem_others found different)) held).2

theorem Sound.inside (sound : h.Sound) {x : Nat} (member : x ∈ h.others name ∨ x ∈ h.pool.edges) :
    x < h.pool.cells.length := by
  rcases member with member | member
  · obtain ⟨pair, present, rfl⟩ := List.mem_map.mp member
    have root : pair.2 ∈ h.names.map Prod.snd := List.mem_map_of_mem (List.mem_filter.mp present).1
    exact Pool.lt_length_of_holders (sound.pool.held root)
  · exact Pool.lt_length_of_holders (sound.pool.held_edge member)

/-- A change through the handle of a name. -/
theorem move_frames (sound : h.Sound) (found : h.cell? name = some i)
    (changes : h.pool.Changes q i j (h.others name)) :
    h.Frames (h.move name q j) name ∧ (h.move name q j).value? name = some (q.value j) := by
  refine ⟨frames_of_kept (sound_move sound found changes.sound)
    (fun n different => by rw [cell?_move, if_neg different]) fun x member =>
    changes.kept x (sound.inside member) (changes.apart (sound.split found) member), ?_⟩
  rw [value?, cell?_move, if_pos rfl, found]
  rfl

/-- A failed change. -/
theorem keeps_frames (sound : h.Sound) (found : h.cell? name = some i)
    (sound' : Pool.Sound q (i :: h.others name)) (keeps : h.pool.Keeps q) :
    h.Frames (h.move name q i) name ∧ (h.move name q i).value? name = h.value? name := by
  have after := sound_move sound found sound'
  refine ⟨frames_of_kept after (fun n different => by rw [cell?_move, if_neg different])
    fun x member => keeps.kept x (sound.inside member), ?_⟩
  have same := keeps.kept i (Pool.lt_length_of_holders (sound.held found))
    (sound'.held List.mem_cons_self)
  rw [value?, value?, cell?_move, if_pos rfl, found]
  exact congrArg some same.2

/-- A handle that a name takes over. -/
theorem bind_frames (sound : h.Sound) (taken : Pool.Sound q (cell :: h.names.map Prod.snd))
    (grows : h.pool.Grows q) :
    h.Frames (h.bind name cell q) name ∧ (h.bind name cell q).value? name = some (q.value cell) := by
  rw [bind]
  cases found : h.cell? name with
  | none =>
    have absent := List.lookup_eq_none_iff.mp found
    have sound' : Handles.Sound { pool := q, names := h.names ++ [(name, cell)] } := by
      refine ⟨?_, taken.mono fun x => Nat.le_of_eq ?_⟩
      · rw [List.map_append, List.nodup_append]
        refine ⟨sound.distinct, List.nodup_singleton _, ?_⟩
        intro a member b last same
        obtain ⟨pair, present, rfl⟩ := List.mem_map.mp member
        rw [List.mem_singleton.mp last] at same
        exact bne_iff_ne.mp (absent pair present) same.symm
      · rw [List.map_append]
        exact (List.perm_append_singleton _ _).count_eq x
    refine ⟨frames_of_kept sound' (fun n different => ?_) fun x member =>
      grows.kept x (sound.inside member), ?_⟩
    · rw [cell?, List.lookup_append, lookup_skip _ different, List.lookup_nil, Option.or_none, cell?]
    · rw [value?, cell?, List.lookup_append]
      rw [cell?] at found
      simp [found]
  | some old =>
    have taken' : Pool.Sound q (old :: cell :: h.others name) := by
      refine taken.mono fun x => Nat.le_of_eq ?_
      have perm := (perm_of_cell? sound.distinct found).cons cell
      exact ((List.Perm.swap cell old _).trans perm.symm).count_eq x
    obtain ⟨sound', keeps⟩ := Pool.release_spec taken'
    have own := keeps.kept cell (Pool.lt_length_of_holders (taken.held List.mem_cons_self))
      (sound'.held List.mem_cons_self)
    have keeps' := grows.toKeeps.trans keeps
    refine ⟨frames_of_kept (sound_move sound found sound')
      (fun n different => (cell?_move h _ n).trans (if_neg different)) fun x member =>
      keeps'.kept x (sound.inside member), ?_⟩
    have moved : (h.move name (q.release old) cell).value? name = some (q.value cell) := by
      rw [value?, cell?_move, if_pos rfl, found]
      exact congrArg some own.2
    exact moved

theorem drop_frames (sound : h.Sound) (found : h.cell? name = some i) :
    h.Frames { pool := h.pool.release i, names := h.names.filter fun (m, _) => m != name } name ∧
      Handles.value? { pool := h.pool.release i, names := h.names.filter fun (m, _) => m != name }
        name = none := by
  obtain ⟨sound', keeps⟩ := Pool.release_spec (sound.split found)
  have after : Handles.Sound
      { pool := h.pool.release i, names := h.names.filter fun (m, _) => m != name } := by
    refine ⟨?_, sound'⟩
    exact sound.distinct.sublist (List.filter_sublist.map Prod.fst)
  refine ⟨frames_of_kept after (fun n different => by rw [cell?_drop, if_neg different])
    fun x member => keeps.kept x (sound.inside member), ?_⟩
  rw [value?, cell?_drop, if_pos rfl]
  rfl

theorem look_frames (sound : h.Sound) {keep : Pool → Nat → Pool}
    (kept : ∀ i, h.cell? name = some i → Pool.Sound (keep h.pool i) (h.names.map Prod.snd) ∧
      h.pool.Grows (keep h.pool i)) :
    h.Frames (h.look name keep) name ∧ (h.look name keep).value? name = h.value? name := by
  rw [look]
  cases found : h.cell? name with
  | none => exact ⟨⟨sound, fun _ _ => rfl, fun _ _ _ => rfl⟩, rfl⟩
  | some i =>
    obtain ⟨sound', grows⟩ := kept i found
    refine ⟨frames_of_kept ⟨sound.distinct, sound'⟩ (fun _ _ => rfl) fun x member =>
      grows.kept x (sound.inside member), ?_⟩
    have found' : h.names.lookup name = some i := found
    simp [value?, cell?, found', grows.value (sound.held found)]

/-! ### What operations make of texts -/

theorem text?_eq (sound : h.Sound) (n : String) : h.text? n = (h.value? n).map Value.str := by
  rw [text?, value?, Option.map_map]
  cases h.cell? n with
  | none => rfl
  | some i => exact congrArg some (Pool.lookText_spec i sound.pool).1

theorem items?_eq (sound : h.Sound) (n : String) :
    h.items? n = (h.text? n).map ListText.split := by
  rw [text?_eq sound, items?, value?, Option.map_map]
  cases found : h.cell? n with
  | none => rfl
  | some i =>
    obtain ⟨sound', _, _, view⟩ := Pool.lookItems_spec sound.pool (sound.held found)
    refine congrArg some (Eq.trans ?_ view)
    dsimp only
    generalize h.pool.lookItems i = looked at sound' ⊢
    obtain ⟨result, q⟩ := looked
    cases result with
    | error e => rfl
    | ok cells =>
      refine congrArg Except.ok (List.map_congr_left fun y _ => ?_)
      exact (Pool.lookText_spec y sound').1

namespace Op

/-- The name whose handle an operation changes. -/
def target : Op → String
  | .new name _ | .clone name _ | .drop name | .append name _ | .push name _ | .pushHandle name _
  | .setNumber name _ | .exclusive name | .lookText name | .lookNumber name | .lookTruth name
  | .lookItems name => name

/-- A list text with one more element. -/
def pushed : Option String → Option String → Except ListText.Error (Option String)
  | some old, some element =>
    (ListText.split old).map fun texts => some (ListText.join (texts ++ [element]))
  | old, _ => .ok old

/-- What an operation makes of the text of its handle, if each name has a text of its own. -/
def meaning (text? : String → Option String) : Op → Except ListText.Error (Option String)
  | .new _ v => .ok (some v.str)
  | .clone name source => .ok ((text? source).or (text? name))
  | .drop _ => .ok none
  | .append name more => .ok ((text? name).map (· ++ more))
  | .push name v => pushed (text? name) (some v.str)
  | .pushHandle name source => pushed (text? name) (text? source)
  | .setNumber name n => .ok ((text? name).map fun _ => n.text)
  | .exclusive name | .lookText name | .lookNumber name | .lookTruth name | .lookItems name =>
    .ok (text? name)

end Op

/-- The result and the handles are those that the meaning of the operation gives. -/
structure Effect (h : Handles) (op : Op) (done : Except ListText.Error Unit) (h' : Handles) :
    Prop where
  frames : h.Frames h' op.target
  done : done = (op.meaning h.text?).map fun _ => ()
  ok : ∀ text, op.meaning h.text? = .ok text → h'.text? op.target = text
  error : ∀ e, op.meaning h.text? = .error e → h'.text? op.target = h.text? op.target

theorem effect_ok {op : Op} {text : Option String} (frames : h.Frames h' op.target)
    (meaning : op.meaning h.text? = .ok text) (after : (h'.value? op.target).map Value.str = text) :
    h.Effect op (.ok ()) h' := by
  refine ⟨frames, by rw [meaning]; rfl, fun t same => ?_, fun e same => ?_⟩
  · rw [text?_eq frames.sound, after, Except.ok.inj (same.symm.trans meaning)]
  · rw [meaning] at same
    cases same

theorem effect_error {op : Op} {e : ListText.Error} (sound : h.Sound)
    (frames : h.Frames h' op.target) (meaning : op.meaning h.text? = .error e)
    (after : h'.value? op.target = h.value? op.target) : h.Effect op (.error e) h' := by
  refine ⟨frames, by rw [meaning]; rfl, fun t same => ?_, fun e _ => ?_⟩
  · rw [meaning] at same
    cases same
  · rw [text?_eq frames.sound, after, text?_eq sound]

theorem effect_none {op : Op} (sound : h.Sound) (meaning : op.meaning h.text? = .ok (h.text? op.target)) :
    h.Effect op (.ok ()) h :=
  effect_ok ⟨sound, fun _ _ => rfl, fun _ _ _ => rfl⟩ meaning (text?_eq sound _).symm

theorem text?_of_none (missing : h.cell? n = none) : h.text? n = none := by rw [text?, missing]; rfl

theorem text?_of_some (sound : h.Sound) (found : h.cell? n = some i) :
    h.text? n = some (h.pool.value i).str := by
  rw [text?_eq sound, value?, found]
  rfl

theorem move_effect {op : Op} {v : Value} (sound : h.Sound) (found : h.cell? op.target = some i)
    (meaning : op.meaning h.text? = .ok (some v.str))
    (moved : h.pool.Changes q i j (h.others op.target) ∧ q.value j = v) :
    h.Effect op (.ok ()) (h.move op.target q j) := by
  obtain ⟨changes, value⟩ := moved
  obtain ⟨frames, after⟩ := move_frames sound found changes
  exact effect_ok frames meaning (by rw [after, value]; rfl)

theorem push_effect {op : Op} {element : Nat} {text : String} (sound : h.Sound)
    (found : h.cell? op.target = some i)
    (meaning : op.meaning h.text? = Op.pushed (h.text? op.target) (some text))
    (grows : h.pool.Grows q) (sound' : Pool.Sound q (i :: element :: h.others op.target))
    (value : (q.value element).str = text) :
    h.Effect op (q.push i element).1
      (h.move op.target (q.push i element).2.1 (q.push i element).2.2) := by
  have same := grows.value (sound.held found)
  rw [text?_of_some sound found, Op.pushed] at meaning
  cases split : ListText.split (h.pool.value i).str with
  | error e =>
    rw [split] at meaning
    rw [← same] at split
    obtain ⟨r, pushed, after, keeps⟩ := Pool.push_error sound' split
    rw [pushed]
    obtain ⟨frames, kept⟩ := keeps_frames sound found after (grows.toKeeps.trans keeps)
    exact effect_error sound frames meaning kept
  | ok texts =>
    rw [split] at meaning
    rw [← same] at split
    obtain ⟨r, j, pushed, changes, str⟩ := Pool.push_ok sound' split
    rw [pushed]
    obtain ⟨frames, after⟩ := move_frames sound found (grows.changes changes)
    refine effect_ok frames meaning ?_
    rw [after, Option.map_some, str, value]

theorem look_effect {op : Op} (sound : h.Sound) (keep : Pool → Nat → Pool)
    (meaning : op.meaning h.text? = .ok (h.text? op.target))
    (kept : ∀ i, h.cell? op.target = some i →
      Pool.Sound (keep h.pool i) (h.names.map Prod.snd) ∧ h.pool.Grows (keep h.pool i)) :
    h.Effect op (.ok ()) (h.look op.target keep) := by
  obtain ⟨frames, after⟩ := look_frames sound kept
  exact effect_ok frames meaning (by rw [after, text?_eq sound])

/-- One step: an operation does what its meaning says. -/
theorem apply_effect (sound : h.Sound) (op : Op) : h.Effect op (h.apply op).1 (h.apply op).2 := by
  cases op with
  | new name v =>
    obtain ⟨taken, grows, value⟩ := Pool.store_spec v sound.pool
    obtain ⟨frames, after⟩ := bind_frames sound taken grows
    refine effect_ok frames rfl ((congrArg (Option.map Value.str) after).trans ?_)
    rw [value]
    rfl
  | clone name source =>
    rw [apply]
    cases found : h.cell? source with
    | none => exact effect_none sound (by simp [Op.meaning, Op.target, text?_of_none found])
    | some i =>
      obtain ⟨taken, grows⟩ := Pool.retain_spec sound.pool (sound.held found)
      obtain ⟨frames, after⟩ := bind_frames sound taken grows
      refine effect_ok frames rfl ?_
      rw [Op.target, after, text?_of_some sound found, grows.value (sound.held found)]
      rfl
  | drop name =>
    rw [apply]
    cases found : h.cell? name with
    | none => exact effect_none sound (by simp [Op.meaning, Op.target, text?_of_none found])
    | some i =>
      obtain ⟨frames, after⟩ := drop_frames sound found
      exact effect_ok frames rfl (by rw [Op.target, after]; rfl)
  | append name more =>
    rw [apply]
    cases found : h.cell? name with
    | none => exact effect_none sound (by simp [Op.meaning, Op.target, text?_of_none found])
    | some i =>
      refine move_effect sound found ?_ (Pool.append_spec more (sound.split found))
      rw [Op.meaning, text?_of_some sound found]
      rfl
  | push name v =>
    rw [apply]
    cases found : h.cell? name with
    | none =>
      exact effect_none sound (by simp [Op.meaning, Op.pushed, Op.target, text?_of_none found])
    | some i =>
      obtain ⟨taken, grows, value⟩ := Pool.store_spec v (sound.split found)
      refine push_effect sound found rfl grows (taken.mono fun x => Nat.le_of_eq ?_)
        (congrArg Value.str value)
      exact (List.Perm.swap _ _ _).count_eq x
  | pushHandle name source =>
    rw [apply]
    cases found : h.cell? name with
    | none =>
      exact effect_none sound (by simp [Op.meaning, Op.pushed, Op.target, text?_of_none found])
    | some i =>
      cases shared : h.cell? source with
      | none =>
        exact effect_none sound (by simp [Op.meaning, Op.pushed, Op.target, text?_of_none shared])
      | some element =>
        obtain ⟨taken, grows⟩ := Pool.retain_spec (sound.split found) (sound.held shared)
        refine push_effect sound found ?_ grows (taken.mono fun x => Nat.le_of_eq ?_)
          (congrArg Value.str (grows.value (sound.held shared)))
        · rw [Op.meaning, Op.target, text?_of_some sound shared]
        · exact (List.Perm.swap _ _ _).count_eq x
  | setNumber name n =>
    rw [apply]
    cases found : h.cell? name with
    | none => exact effect_none sound (by simp [Op.meaning, Op.target, text?_of_none found])
    | some i =>
      refine move_effect sound found ?_ (Pool.setNumber_spec n (sound.split found))
      rw [Op.meaning, text?_of_some sound found]
      cases n <;> rfl
  | exclusive name =>
    rw [apply]
    cases found : h.cell? name with
    | none => exact effect_none sound rfl
    | some i =>
      refine move_effect sound found ?_ (Pool.exclusive_spec (sound.split found))
      exact congrArg Except.ok (text?_of_some sound found)
  | lookText name =>
    refine look_effect sound (fun p i => (p.lookText i).2) rfl fun i _ => ?_
    obtain ⟨_, sound', same⟩ := Pool.lookText_spec i sound.pool
    exact ⟨sound', Pool.grows_of_shape same sound.pool.grounded⟩
  | lookNumber name =>
    refine look_effect sound (fun p i => (p.lookNumber i).2) rfl fun i found => ?_
    have inside := Pool.lt_length_of_holders (sound.held found)
    obtain ⟨_, sound', same⟩ := Pool.lookNumber_spec sound.pool inside
    exact ⟨sound', Pool.grows_of_shape same sound.pool.grounded⟩
  | lookTruth name =>
    refine look_effect sound (fun p i => (p.lookTruth i).2) rfl fun i found => ?_
    have inside := Pool.lt_length_of_holders (sound.held found)
    obtain ⟨_, sound', same⟩ := Pool.lookTruth_spec sound.pool inside
    exact ⟨sound', Pool.grows_of_shape same sound.pool.grounded⟩
  | lookItems name =>
    refine look_effect sound (fun p i => (p.lookItems i).2) rfl fun i found => ?_
    obtain ⟨sound', grows, _⟩ := Pool.lookItems_spec sound.pool (sound.held found)
    exact ⟨sound', grows⟩

theorem run_sound (ops : List Op) : (run ops).Sound := by
  have steps : ∀ (ops : List Op) (h : Handles), h.Sound →
      (ops.foldl (fun h op => (h.apply op).2) h).Sound := by
    intro ops
    induction ops with
    | nil => exact fun _ sound => sound
    | cons op ops ih => exact fun h sound => ih _ (apply_effect sound op).frames.sound
  exact steps ops {} ⟨List.nodup_nil, Pool.sound_empty⟩

/-- After any operations, one more changes the text of its own handle as its meaning says and no
other: the other names and all cells in lists keep their texts, and a failed one changes none. -/
theorem operations_stay_private (ops : List Op) (op : Op) :
    let before := run ops
    let done := (before.apply op).1
    let after := (before.apply op).2
    (∀ name, name ≠ op.target → after.text? name = before.text? name) ∧
    (∀ cell ∈ before.pool.edges, 0 < after.pool.holders cell →
      (after.pool.lookText cell).1 = (before.pool.lookText cell).1) ∧
    done = (op.meaning before.text?).map (fun _ => ()) ∧
    (∀ text, op.meaning before.text? = .ok text → after.text? op.target = text) ∧
    (∀ e, done = .error e → ∀ name, after.text? name = before.text? name) ∧
    ∀ name, before.items? name = (before.text? name).map ListText.split := by
  intro before done after
  have sound := run_sound ops
  have effect := apply_effect sound op
  have sound' := effect.frames.sound
  have others : ∀ name, name ≠ op.target → after.text? name = before.text? name := by
    intro name different
    rw [text?_eq sound', text?_eq sound, effect.frames.names name different]
  refine ⟨others, ?_, effect.done, effect.ok, ?_, items?_eq sound⟩
  · intro cell stored held
    rw [(Pool.lookText_spec cell sound'.pool).1, (Pool.lookText_spec cell sound.pool).1,
      effect.frames.stored cell stored held]
  · intro e failed name
    by_cases same : name = op.target
    · subst same
      cases meaning : op.meaning before.text? with
      | error e => exact effect.error e meaning
      | ok text =>
        have done_ok := effect.done.symm.trans failed
        rw [meaning] at done_ok
        cases done_ok
    · exact others name same

/-- A list with itself as an element, an older list that shares its elements, and a text that is no
list but an element of the older list. -/
def tangledOps : List Op :=
  [.new "whole" (.list [.text "x", .int 1]), .clone "part" "whole", .pushHandle "whole" "whole",
    .lookItems "part", .new "brace" (.text "\x7b"), .pushHandle "part" "brace", .lookText "whole"]

theorem tangledOps_stay_private :
    (let before := run tangledOps
     let after := (before.apply (.append "brace" "z")).2
     after.text? "part" = before.text? "part" ∧
       4 ∈ before.pool.edges ∧ (after.pool.lookText 4).1 = (before.pool.lookText 4).1 ∧
       after.text? "brace" = some "\x7bz") ∧
    (let before := run tangledOps
     let after := (before.apply (.push "brace" (.int 2))).2
     (before.apply (.push "brace" (.int 2))).1 = .error .unmatchedBrace ∧
       ∀ name, after.text? name = before.text? name) := by
  have append := operations_stay_private tangledOps (.append "brace" "z")
  have push := operations_stay_private tangledOps (.push "brace" (.int 2))
  have stored : 4 ∈ (run tangledOps).pool.edges := by decide +kernel
  have held : 0 < ((run tangledOps).apply (.append "brace" "z")).2.pool.holders 4 := by
    decide +kernel
  have failed : ((run tangledOps).apply (.push "brace" (.int 2))).1 = .error .unmatchedBrace := by
    decide +kernel
  refine ⟨⟨append.1 "part" (by decide), stored, append.2.1 4 stored held, ?_⟩, failed,
    push.2.2.2.2.1 _ failed⟩
  exact append.2.2.2.1 _ (by decide +kernel)

end CommandVM.Handles
