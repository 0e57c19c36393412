import CommandVM.Machine.Arithmetic
import CommandVM.Operator
import CommandVM.Proofs.Machine.Variables

/-!
# Faults of operators and math functions

Operators and math functions fail over their operands only.
-/

namespace CommandVM

variable {f : Fault} {n : Number} {v : Value} {symbol : String}

theorem Fault.ofReadError_ordinary {e : Number.ReadError} :
    (Fault.ofReadError symbol e).Ordinary := by
  intro d same
  cases e <;> cases same

namespace Operator

theorem operand_ordinary (failed : operand v symbol = .error f) : f.Ordinary := by
  unfold operand at failed
  split at failed <;> cases failed
  exact Fault.ofReadError_ordinary

theorem truth_ordinary (failed : truth v symbol = .error f) : f.Ordinary := by
  unfold truth at failed
  split at failed
  · cases failed
  · split at failed <;> cases failed
    · exact Fault.ofReadError_ordinary
    · exact nofun

theorem integerBinary_ordinary {op : BinaryOp} {x y : Int64}
    (failed : integerBinary op x y = .error f) : f.Ordinary := by
  intro d same
  subst same
  cases op <;> simp only [integerBinary] at failed <;> (try split at failed) <;> cases failed

theorem checkedDouble_ordinary {lost : Bool} {x : Float}
    (failed : checkedDouble lost x = .error f) :
    f.Ordinary := by
  intro d same
  subst same
  unfold checkedDouble at failed
  repeat' split at failed
  all_goals cases failed

theorem doubleBinary_ordinary {op : BinaryOp} {x y : Float}
    (failed : doubleBinary op x y = .error f) : f.Ordinary := by
  unfold doubleBinary at failed
  split at failed
  · exact checkedDouble_ordinary failed
  · exact checkedDouble_ordinary failed
  · exact checkedDouble_ordinary failed
  · split at failed
    · cases failed
      exact nofun
    · exact checkedDouble_ordinary failed
  · cases failed
    exact nofun

theorem binary_ordinary {op : BinaryOp} {a b : Number} (failed : binary op a b = .error f) :
    f.Ordinary := by
  unfold binary at failed
  split at failed
  · rename_i x y _ _
    cases result : integerBinary op x y with
    | ok z =>
      rw [result] at failed
      cases failed
    | error g =>
      rw [result] at failed
      cases failed
      exact integerBinary_ordinary result
  · exact doubleBinary_ordinary failed

theorem unary_ordinary {op : UnaryOp} (failed : unary op symbol n = .error f) : f.Ordinary := by
  intro d same
  subst same
  unfold unary at failed
  split at failed <;> cases failed

end Operator

namespace MathFunction

theorem nativeInt_ordinary {x : Int} (failed : nativeInt x = .error f) : f.Ordinary := by
  unfold nativeInt at failed
  split at failed <;> cases failed
  exact nofun

theorem doubleToInt_ordinary {x : Double} (failed : doubleToInt x = .error f) : f.Ordinary := by
  unfold doubleToInt at failed
  split at failed
  · exact nativeInt_ordinary failed
  · cases failed
    exact nofun

theorem doubleToWide_ordinary {x : Double} (failed : doubleToWide x = .error f) : f.Ordinary := by
  intro d same
  subst same
  unfold doubleToWide at failed
  repeat' split at failed
  all_goals cases failed

theorem toInt_ordinary (failed : toInt n = .error f) : f.Ordinary := by
  cases n with
  | int x => cases failed
  | wide x => exact nativeInt_ordinary failed
  | double x => exact doubleToInt_ordinary failed

theorem toWide_ordinary (failed : toWide n = .error f) : f.Ordinary := by
  cases n with
  | int x => cases failed
  | wide x => cases failed
  | double x => exact doubleToWide_ordinary failed

theorem convertValue_ordinary {kind : ArgKind} (failed : convertValue kind v = .error f) :
    f.Ordinary := by
  unfold convertValue at failed
  split at failed
  · cases kind with
    | either => cases failed
    | double => cases failed
    | int => exact toInt_ordinary failed
    | wide => exact toWide_ordinary failed
  · cases failed
    exact nofun

theorem mapM_error {α β : Type} {convert : α → Except Fault β} {items : List α}
    (failed : items.mapM convert = .error f) : ∃ item ∈ items, convert item = .error f := by
  induction items with
  | nil => cases failed
  | cons item items ih =>
    rw [List.mapM_cons] at failed
    cases first : convert item with
    | error g =>
      rw [first] at failed
      cases failed
      exact ⟨item, List.mem_cons_self, first⟩
    | ok b =>
      rw [first] at failed
      cases rest : items.mapM convert with
      | error g =>
        simp only [bind, Except.bind, rest] at failed
        cases failed
        obtain ⟨other, member, found⟩ := ih rest
        exact ⟨other, List.mem_cons_of_mem _ member, found⟩
      | ok bs =>
        simp only [bind, Except.bind, rest] at failed
        cases failed

theorem convertAll_ordinary {kinds : List ArgKind} {vs : List Value}
    (failed : convertAll kinds vs = .error f) : f.Ordinary := by
  unfold convertAll at failed
  split at failed
  · cases failed
    exact nofun
  · split at failed
    · cases failed
      exact nofun
    · obtain ⟨pair, _, found⟩ := mapM_error failed
      exact convertValue_ordinary found

theorem checkedResult_ordinary {x : Double} (failed : checkedResult x = .error f) : f.Ordinary := by
  intro d same
  subst same
  unfold checkedResult at failed
  repeat' split at failed
  all_goals cases failed

theorem rounded_ordinary (failed : rounded n = .error f) : f.Ordinary := by
  unfold rounded at failed
  split at failed
  · exact doubleToInt_ordinary failed
  · cases failed

theorem apply_ordinary {function : MathFunction} {args : List Number} {clock : Int64}
    {seed : Option Nat} (failed : (function.apply args clock seed).1 = .error f) :
    f.Ordinary := by
  unfold apply at failed
  dsimp only at failed
  split at failed
  · cases failed
  · exact toInt_ordinary failed
  · exact rounded_ordinary failed
  · exact toWide_ordinary failed
  · exact checkedResult_ordinary failed
  · exact checkedResult_ordinary failed
  · exact checkedResult_ordinary failed

theorem call_ordinary {function : MathFunction} {vs : List Value} {clock : Int64}
    {seed : Option Nat} (failed : (function.call vs clock seed).1 = .error f) : f.Ordinary := by
  unfold call at failed
  split at failed
  · rename_i refused
    cases failed
    exact convertAll_ordinary refused
  · exact apply_ordinary failed

end MathFunction

end CommandVM
