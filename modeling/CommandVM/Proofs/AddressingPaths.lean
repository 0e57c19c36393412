import CommandVM.Proofs.Machine.Courses
import CommandVM.Proofs.Machine.Sites
import CommandVM.Proofs.Variables.Instructions
import CommandVM.Proofs.Variables.Unobserved

/-!
# Ways to a variable

A frame looks for the variables of its slots once, when it is entered. From then on the scope only
grows, whatever commands and observers do, and its index grows with it: a slot keeps the variable of
its name, and it makes no difference whether an instruction goes by the slot, by the name, or by a
text that has to be taken apart.
-/

namespace CommandVM

/-! ### What happens to the store in a run -/

/-- Code lets the current scope grow. -/
def growth : Course where
  rel := Store.Grows
  refl := .refl
  trans := .trans
  request r s := by
    rw [← Store.performBy_scripted]
    exact Store.performBy_grows r
  resolve name s := Store.resolve_grows name
  call {s s'} grown := by
    -- The scopes of the callers are as they were, so the caller finds its own again.
    have left : s'.popScope = { s' with current := s.current, callers := s.callers } := by
      rw [Store.popScope, grown.callers]
      rfl
    rw [left]
    exact .of_traits rfl fun _ => rfl

/-- Code leads from reachable stores to reachable ones. -/
def reachability : Course where
  rel s s' := s.Reachable scripted → s'.Reachable scripted
  refl _ := id
  trans first second := second ∘ first
  request r s reachable := by
    rw [← Store.performBy_scripted]
    exact .request r reachable
  resolve name _ reachable := .resolve name reachable
  call inside reachable := .popScope (inside (.pushScope reachable))

variable {fuel level : Nat} {invoke : Invoke} {u : CompiledUnit} {m : Machine} {c c' : Moment}
  {past : List (Moment × Move)} {move : Move}

theorem Moment.Moves.slots (moved : c.Moves invoke move c') : c'.frame.slots = c.frame.slots := by
  cases moved with
  | next _ _ =>
    unfold Frame.saveHeight
    split <;> rfl
  | exit _ _ _ => rfl
  | handler _ _ _ => rfl

theorem Run.slots (reached : Run invoke u m past c) :
    c.frame.slots = (Store.resolveAll u.locals m.store).1 := by
  induction reached with
  | enter => rfl
  | go _ moved ih => exact moved.slots.trans ih

theorem Run.reachable (reached : Run (invoker fuel level) u m past c)
    (before : m.store.Reachable scripted) : c.machine.store.Reachable scripted := by
  have entered : (Store.resolveAll u.locals m.store).2.Reachable scripted :=
    reachability.resolveAll u.locals m.store before
  have since : reachability.rel (Store.resolveAll u.locals m.store).2 c.machine.store :=
    reached.abides (invoker_abides fuel level)
  exact since entered

/-- A procedure that is called from a reachable store starts in one. -/
theorem Moment.Calls.reachable {name : String} {body : CompiledUnit} {inner : Machine}
    (called : c.Calls name body inner) (before : c.machine.store.Reachable scripted) :
    inner.store.Reachable scripted := by
  cases called with
  | @mk i word args params _ _ _ _ _ _ bound =>
    have after : reachability.rel c.machine.deeper.entered.store
        (Command.bindParams (params.zip args) c.machine.deeper.entered).2.store :=
      Command.bindParams_abides _
    rw [bound] at after
    exact after (.pushScope before)

/-- A slot has the variable of its name, at every moment and as long as the scope then grows. -/
theorem Run.slot_named (reached : Run (invoker fuel level) u m past c) {s : Store}
    (grown : c.machine.store.Grows s) {k : Nat} {n : String} (named : u.locals[k]? = some n) :
    ∃ var v, c.frame.slots[k]? = some var ∧ s.var? var = some v ∧ v.name = n := by
  obtain ⟨var, v, found, there, name⟩ := Store.resolveAll_named (s := m.store) named
  -- The slots are filled at entry; all that happens since lets the scope grow.
  have sinceEntry : growth.rel (Store.resolveAll u.locals m.store).2 c.machine.store :=
    reached.abides (invoker_abides fuel level)
  obtain ⟨v', there', same⟩ := (Store.Grows.trans sinceEntry grown).kept there
  rw [← reached.slots] at found
  exact ⟨var, v', found, there', (congrArg Traits.name same).trans name⟩

/-! ### Agreement -/

/-- All ways to a variable agree, in a frame with these names for its slots. -/
structure Frame.WaysAgree (f : Frame) (invoke : Invoke) (locals : List String) (s : Store) :
    Prop where
  /-- The index of names and the variables are inverse, and a name that is there is found. -/
  indexed : ∀ n var,
    (s.current.byName.lookup n = some var ↔ ∃ v, s.var? var = some v ∧ v.name = n) ∧
      (s.resolve n = (var, s) ↔ ∃ v, s.var? var = some v ∧ v.name = n)
  slot : ∀ (k : Nat) (n : String), locals[k]? = some n →
    ∃ var, f.slots[k]? = some var ∧ s.resolve n = (var, s)
  /-- Instructions that differ in how they name the variable complete alike. -/
  instruction : ∀ (k : Nat) (n : String), locals[k]? = some n →
    ∀ rest ops op operands index asked,
    Addressing rest ops op operands index asked →
      (∀ slotOp ∈ ops,
        f.EndsAs invoke ⟨slotOp, k :: rest⟩ operands s (s.comply n index asked)) ∧
      ∀ name : Value, name.str = n →
        f.EndsAs invoke ⟨op, rest⟩ (operands ++ [name]) s (s.comply n index asked)
  /-- The text `n(x)` stands for the element `x` of `n`. -/
  text : ∀ n x, n ≠ "" → '(' ∉ n.toList → ∀ full : Value, full.str = n ++ "(" ++ x ++ ")" →
    ∀ rest, f.EndsAs invoke ⟨.loadStk, rest⟩ [full] s (s.accessParts n (some x) .read) ∧
      ∀ op mode v, WritesNamed op mode →
        f.EndsAs invoke ⟨op, rest⟩ [v, full] s (s.accessParts n (some x) (.write v mode))
  /-- Without observers the direct way is the way around them. -/
  direct : ∀ var v index access, s.var? var = some v → v.observers = [] →
    s.access var index access =
      Store.accessObserved (Store.fireTo s.observed) var index access s

/-- Code and observers let the scope grow, from one reachable store to another; and as long as it
grows, the ways to a variable agree. -/
theorem addressing_paths_agree (reachable : m.store.Reachable scripted)
    (reached : Run (invoker fuel level) u m past c) :
    c.machine.store.Reachable scripted ∧
      (∀ name body inner, c.Calls name body inner → inner.store.Reachable scripted) ∧
      (∀ argv, c.machine.store.Grows (invoker fuel level argv c.machine).2.store) ∧
      ∀ s, c.machine.store.Grows s →
        c.frame.WaysAgree (invoker fuel level) u.locals s := by
  have now := reached.reachable reachable
  refine ⟨now, fun name body inner called => called.reachable now, ?_, fun s grown => ?_⟩
  · intro argv
    have grows : growth.rel c.machine.store (invoker fuel level argv c.machine).2.store :=
      invoker_abides fuel level argv c.machine
    exact grows
  have slot (k : Nat) (n : String) (named : u.locals[k]? = some n) :
      ∃ var, c.frame.slots[k]? = some var ∧ s.resolve n = (var, s) := by
    obtain ⟨var, v, found, there, name⟩ := reached.slot_named grown named
    exact ⟨var, found, Store.resolve_eq_iff.mpr ⟨v, there, name⟩⟩
  refine ⟨fun n var => ⟨Scope.lookup_eq_some_iff, Store.resolve_eq_iff⟩, slot, ?_, ?_, ?_⟩
  · intro k n named rest ops op operands index asked asks
    obtain ⟨var, found, resolved⟩ := slot k n named
    exact ⟨fun slotOp member => Frame.slot_endsAs asks found resolved member,
      fun name same => Frame.named_endsAs asks same⟩
  · intro n x nonempty plain full same rest
    have split : splitName full.str = (n, some x) := by
      rw [same]
      exact splitName_indexed nonempty plain x
    exact ⟨Frame.loadStk_endsAs split,
      fun op mode v writes => Frame.storeNamed_endsAs writes split v⟩
  · intro var v index access found unobserved
    rw [Store.accessObserved_alone (Store.fireTo_skips _) found unobserved]
    exact Store.accessWith_alone (Store.fireTo_skips _) found unobserved

/-- A unit with a local of its own. -/
def addsVariable : CompiledUnit where
  code := [0x01, 0, 0x00]
  literals := [.text "done"]
  locals := ["y"]
  maxStack := 1

/-- Two of the three slots share a name, and a command is invoked that adds a variable. -/
def sharedName : CompiledUnit where
  code := [0x01, 0, 0x07, 1, 0x00]
  literals := [.text "add"]
  locals := ["x", "a", "x"]
  maxStack := 1

/-- A machine with an observed variable. -/
def sharedNameMachine : Machine where
  store := Store.observe "a" ⟨true, true, [.write "z" (.text "seen") .set]⟩ {}
  commands := [("add", .execute addsVariable)]

theorem sharedName_ways_agree : sharedNameMachine.store.Reachable scripted ∧
    ∃ past c, Run (invoker 9 3) sharedName sharedNameMachine past c ∧ past.length = 2 ∧
      c.frame.slots = [1, 0, 1] ∧ c.machine.store.resolve "y" = (2, c.machine.store) ∧
      ∀ v x : Value, c.frame.EndsAs (invoker 9 3) ⟨.storeArray1, [1]⟩ [v, x] c.machine.store
          (c.machine.store.accessParts "a" (some x.str) (.write v .set)) ∧
        c.frame.EndsAs (invoker 9 3) ⟨.storeArrayStk, []⟩ [v, x, .text "a"] c.machine.store
          (c.machine.store.accessParts "a" (some x.str) (.write v .set)) := by
  have reachable : sharedNameMachine.store.Reachable scripted := .observe _ _ .empty
  let entry := Moment.start sharedName sharedNameMachine
  let named : Machine :=
    { entry.machine with stack := { entry.machine.stack with slots := [.text "add"] } }
  have pushed : entry.Moves (invoker 9 3) .next ⟨entry.frame, 2, named⟩ :=
    .next (i := ⟨.push1, [0]⟩) rfl rfl
  let after : Machine := (entry.frame.perform (invoker 9 3) 2 ⟨.invokeStk1, [1]⟩ named).2
  have invoked : Moment.Moves (invoker 9 3) ⟨entry.frame, 2, named⟩ .next
      ⟨entry.frame, 4, after⟩ := .next (i := ⟨.invokeStk1, [1]⟩) rfl rfl
  have reached : Run (invoker 9 3) sharedName sharedNameMachine _ ⟨entry.frame, 4, after⟩ :=
    .go (.go .enter pushed) invoked
  obtain ⟨_, _, _, agree⟩ := addressing_paths_agree reachable reached
  have ways := agree _ (.refl _)
  refine ⟨reachable, _, _, reached, rfl, rfl, rfl, fun v x => ?_⟩
  obtain ⟨bySlot, byName⟩ := ways.instruction 1 "a" rfl [] _ _ _ _ _ (.storeElement v x)
  exact ⟨bySlot .storeArray1 List.mem_cons_self, byName (.text "a") rfl⟩

end CommandVM
