import CommandVM.Proofs.ContainerRoundTrip
import CommandVM.Proofs.Erasure.Runs

/-!
# Execution through a container

A container keeps literals as texts. A unit that is decoded from one has texts where the original
held integers and lists, and yet nothing that it does can be told from what the original does.
-/

namespace CommandVM

/-- The value without its representation. -/
def Value.bare (v : Value) : Value := .text v.str

/-- All that can be told of an outcome without looking at representations: how the action ended,
with the text of its value, or with the code, the trace, the location and the text of an exception;
and the machine afterwards, with all that was written and recorded, and the text of the result, of
every variable and of every array element. -/
def Action.told : Except Stop Value × Machine → Except Stop String × Machine
  | (.ok v, m) => (.ok v.str, m.map Value.bare)
  | (.error stop, m) => (.error (stop.map Value.bare), m.map Value.bare)

/-! ### Erasure cannot be told -/

section

variable {f : Value → Value} (blind : ∀ v, f v.erase = f v)
include blind

theorem Binding.map_erase (b : Binding) : b.erase.map f = b.map f := by
  cases b with
  | undefined => rfl
  | scalar v => exact congrArg Binding.scalar (blind v)
  | array elements =>
    simp only [erase, map, List.map_map, Function.comp_def, blind]

theorem Variable.map_erase (v : Variable) : v.erase.map f = v.map f := by
  rw [map, map]
  exact congrArg (fun b => { v with binding := b }) (Binding.map_erase blind v.binding)

theorem Scope.map_erase (s : Scope) : s.erase.map f = s.map f := by
  refine Scope.eq_of_vars ?_
  show (s.vars.map Variable.erase).map (Variable.map f) = _
  rw [List.map_map]
  exact List.map_congr_left fun v _ => Variable.map_erase blind v

theorem Store.map_erase (s : Store) : s.erase.map f = s.map f := by
  have callers : (s.callers.map Scope.erase).map (Scope.map f) = s.callers.map (Scope.map f) := by
    rw [List.map_map]
    exact List.map_congr_left fun scope _ => Scope.map_erase blind scope
  show Store.mk (s.current.erase.map f) ((s.callers.map Scope.erase).map (Scope.map f)) s.log = _
  rw [callers, Scope.map_erase blind]
  rfl

theorem Stack.map_erase (s : Stack) : s.erase.map f = s.map f := by
  simp only [erase, map, List.map_map, Function.comp_def, blind]

theorem Exception.map_erase (e : Exception) : e.erase.map f = e.map f := by
  simp only [erase, map, blind]

theorem Stop.map_erase (stop : Stop) : stop.erase.map f = stop.map f := by
  cases stop with
  | exception e => exact congrArg Stop.exception (Exception.map_erase blind e)
  | _ => rfl

theorem Machine.map_erase (m : Machine) : m.erase.map f = m.map f := by
  show ({ m with stack := m.stack.erase.map f, store := m.store.erase.map f,
                 result := f m.result.erase } : Machine) = _
  rw [Stack.map_erase blind, Store.map_erase blind, blind]
  rfl

end

theorem Value.bare_erase (v : Value) : v.erase.bare = v.bare := congrArg Value.text v.str_erase

theorem Action.told_congr {x y : Except Stop Value × Machine}
    (same : seen Value.erase x = seen Value.erase y) : told x = told y := by
  have machines {m m' : Machine} (same : m.erase = m'.erase) :
      m.map Value.bare = m'.map Value.bare := by
    rw [← Machine.map_erase Value.bare_erase, same, Machine.map_erase Value.bare_erase]
  rcases seen_cases same with ⟨v, w, m, m', rfl, rfl, values, after⟩ |
    ⟨stop, stop', m, m', rfl, rfl, stops, after⟩
  · rw [told, told, Value.str_congr values, machines after]
  · rw [told, told, machines after, ← Stop.map_erase Value.bare_erase, stops,
      Stop.map_erase Value.bare_erase]

/-! ### Decoded units -/

namespace Container

theorem plain_erase {u : CompiledUnit} (doubleFree : ∀ v ∈ u.literals, v.holdsDouble = false) :
    (plain u).erase = u.erase := by
  have literals : ((Value.strs u.literals).map Value.text).map Value.erase =
      u.literals.map Value.erase := by
    rw [Value.strs_eq_map, List.map_map, List.map_map]
    refine List.map_congr_left fun v member => ?_
    rw [Value.erase_of_plain v (doubleFree v member)]
    rfl
  exact congrArg (fun literals => { u with literals }) literals

end Container

/-- A unit whose literals hold no double can be stored in a container, whatever digest of the right
size protects it: the decoded copy has texts for literals, and from any machine, with any fuel,
nothing tells its execution or evaluation from that of the original. -/
theorem container_execution_unobservable (digest : List UInt8 → List UInt8)
    (sized : ∀ bytes, (digest bytes).length = Container.digestSize) (u : CompiledUnit)
    (fits : Container.Fits u) (doubleFree : ∀ v ∈ u.literals, v.holdsDouble = false) :
    ∃ copy, Container.decodeWith digest (Container.encodeWith digest u) = .ok copy ∧
      copy.literals = u.literals.map Value.bare ∧
      ∀ fuel m,
        Action.told (Machine.execute fuel copy m) = Action.told (Machine.execute fuel u m) ∧
          Action.told (Machine.eval fuel copy m) = Action.told (Machine.eval fuel u m) := by
  have same := Container.plain_erase doubleFree
  refine ⟨Container.plain u, Container.decodeWith_encodeWith sized fits, ?_, ?_⟩
  · show (Value.strs u.literals).map Value.text = _
    rw [Value.strs_eq_map, List.map_map]
    rfl
  · intro fuel m
    exact ⟨Action.told_congr (Machine.execute_agree fuel same m m rfl),
      Action.told_congr (Machine.eval_agree fuel same m m rfl)⟩

/-- Adds a native and a wide integer, appends to a nested list, and takes an element of it. -/
def tallyUnit : CompiledUnit where
  code := [0x01, 0, 0x01, 1, 0x3a, 0x10, 0, 0x03, 0x01, 2, 0x10, 1, 0x03, 0x09, 0, 0x23, 1, 0x01, 3,
    0x55, 0x45, 0x00]
  literals := [.int 40, .wide 2, .list [.int 1, .list [.text "a b", .wide 3]], .text "end"]
  maxStack := 2
  locals := ["sum", "items"]

theorem tallyUnit_fits : Container.Fits tallyUnit where
  code := by decide
  literals := by decide
  ranges := by decide
  locals := by decide
  foreachInfos := by decide
  commands := by decide
  source := by decide

theorem tallyUnit_execution_unobservable :
    Container.Fits tallyUnit ∧ (∀ v ∈ tallyUnit.literals, v.holdsDouble = false) ∧
      ∃ copy, CompiledUnit.decode tallyUnit.encode = .ok copy ∧
        copy.literals = [.text "40", .text "2", .text "1 {{a b} 3}", .text "end"] ∧
        (∀ fuel m,
          Action.told (Machine.execute fuel copy m) =
            Action.told (Machine.execute fuel tallyUnit m)) ∧
        (Action.told (Machine.execute 30 copy Machine.standard)).1 = .ok "42" := by
  have doubleFree : ∀ v ∈ tallyUnit.literals, v.holdsDouble = false := by decide
  obtain ⟨copy, decoded, texts, same⟩ :=
    container_execution_unobservable Blake3.hash Container.length_hash tallyUnit tallyUnit_fits
      doubleFree
  refine ⟨tallyUnit_fits, doubleFree, copy, decoded, texts, fun fuel m => (same fuel m).1, ?_⟩
  rw [(same 30 Machine.standard).1]
  rfl

end CommandVM
