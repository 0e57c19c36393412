import CommandVM.Proofs.Erasure.Values

/-!
# Representations cannot be observed

Values that hold no double are known by their texts. Whether one is held as a text, as an integer of
either width or as a list, every view, operator and change gives the same answer, the same error, or
results with the same text.
-/

namespace CommandVM

/-- Results that agree in one view agree in every view that this one decides. -/
theorem map_eq_of_map_eq {ε α β γ : Type} {x y : Except ε α} {f : α → β} {g : α → γ}
    (decides : ∀ a b, f a = f b → g a = g b) (same : x.map f = y.map f) : x.map g = y.map g := by
  rcases map_eq_cases same with ⟨a, b, rfl, rfl, alike⟩ | ⟨e, rfl, rfl⟩
  · exact congrArg Except.ok (decides a b alike)
  · rfl

theorem Number.text_congr {n k : Number} (same : n.widen = k.widen) : n.text = k.text := by
  rw [← text_widen n, same, text_widen k]

namespace Value

variable {v w : Value}

/-- Without doubles, values with one text are the same after erasure. -/
theorem erase_eq_of_str (same : v.str = w.str) (left : v.holdsDouble = false)
    (right : w.holdsDouble = false) : v.erase = w.erase := by
  rw [erase_of_plain v left, erase_of_plain w right, same]

end Value

namespace Operator

variable {v v' w w' : Value}

/-- A binary operator on the numeric views of two values. -/
def binaryOf (op : BinaryOp) (symbol : String) (v w : Value) : Except Fault Number := do
  let a ← operand v symbol
  let b ← operand w symbol
  binary op a b

/-- A unary operator on the numeric view of a value. -/
def unaryOf (op : UnaryOp) (symbol : String) (v : Value) : Except Fault Number := do
  let a ← operand v symbol
  unary op symbol a

theorem bind_widen_congr {x y : Except Fault Number} {f g : Number → Except Fault Number}
    (same : x.map Number.widen = y.map Number.widen)
    (next : ∀ a b, a.widen = b.widen → (f a).map Number.widen = (g b).map Number.widen) :
    (x >>= f).map Number.widen = (y >>= g).map Number.widen := by
  rcases map_eq_cases same with ⟨a, b, rfl, rfl, alike⟩ | ⟨e, rfl, rfl⟩
  · exact next a b alike
  · rfl

theorem binaryOf_congr (op : BinaryOp) (symbol : String) (left : v.erase = v'.erase)
    (right : w.erase = w'.erase) :
    (binaryOf op symbol v w).map Number.widen = (binaryOf op symbol v' w').map Number.widen :=
  bind_widen_congr (operand_congr left symbol) fun _ _ first =>
    bind_widen_congr (operand_congr right symbol) fun _ _ second => binary_congr op first second

theorem unaryOf_congr (op : UnaryOp) (symbol : String) (same : v.erase = v'.erase) :
    (unaryOf op symbol v).map Number.widen = (unaryOf op symbol v').map Number.widen :=
  bind_widen_congr (operand_congr same symbol) fun _ _ => unary_congr op symbol

end Operator

/-- Nothing that is done with values depends on how they are held, as long as no double is. -/
theorem representations_unobservable {v v' w w' : Value} (left : v.str = v'.str)
    (right : w.str = w'.str) (plain : ∀ u ∈ [v, v', w, w'], u.holdsDouble = false) :
    (∀ op symbol, (Operator.binaryOf op symbol v w).map Number.text =
      (Operator.binaryOf op symbol v' w').map Number.text) ∧
    (∀ op symbol, (Operator.unaryOf op symbol v).map Number.text =
      (Operator.unaryOf op symbol v').map Number.text) ∧
    (∀ symbol, Operator.truth v symbol = Operator.truth v' symbol) ∧
    Operator.compare v w = Operator.compare v' w' ∧
    (v.append w.str).str = (v'.append w'.str).str ∧
    (v.push w).map Value.str = (v'.push w').map Value.str ∧
    v.items.map (List.map Value.str) = v'.items.map (List.map Value.str) ∧
    v.truth? = v'.truth? := by
  have first : v.erase = v'.erase :=
    Value.erase_eq_of_str left (plain v (by simp)) (plain v' (by simp))
  have second : w.erase = w'.erase :=
    Value.erase_eq_of_str right (plain w (by simp)) (plain w' (by simp))
  refine ⟨fun op symbol => ?_, fun op symbol => ?_, Operator.truth_congr first,
    Operator.compare_congr first second, ?_, ?_, ?_, Value.truth?_congr first⟩
  · exact map_eq_of_map_eq (fun _ _ => Number.text_congr)
      (Operator.binaryOf_congr op symbol first second)
  · exact map_eq_of_map_eq (fun _ _ => Number.text_congr) (Operator.unaryOf_congr op symbol first)
  · rw [right]
    exact Value.str_congr (Value.append_congr first _)
  · exact map_eq_of_map_eq (fun _ _ => Value.str_congr) (Value.push_congr first second)
  · refine map_eq_of_map_eq (fun vs ws alike => ?_) (Value.items_congr first)
    rw [← Value.strs_eq_map, ← Value.strs_eq_map, Value.strs_congr alike]

/-- A wide nine and a list of one native nine, beside a list and its text. -/
theorem nines_unobservable :
    (Value.wide 9).str = (Value.list [.int 9]).str ∧
      (Value.list [.text "a b", .wide 3]).str = (Value.text "{a b} 3").str ∧
      ((Value.wide 9).push (.list [.text "a b", .wide 3])).map Value.str =
        ((Value.list [.int 9]).push (.text "{a b} 3")).map Value.str ∧
      (Operator.unaryOf .bitnot "~" (.wide 9)).map Number.text =
        (Operator.unaryOf .bitnot "~" (.list [.int 9])).map Number.text := by
  have nine : (Value.wide 9).str = (Value.list [.int 9]).str := by decide +kernel
  have pair : (Value.list [.text "a b", .wide 3]).str = (Value.text "{a b} 3").str := by
    decide +kernel
  obtain ⟨-, unary, -, -, -, push, -⟩ := representations_unobservable nine pair
    (by simp [Value.holdsDouble, Value.anyDouble])
  exact ⟨nine, pair, push, unary _ _⟩

end CommandVM
