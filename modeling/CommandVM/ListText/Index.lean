import CommandVM.ListText.Split
import CommandVM.Number.Read

/-!
# List indices

An index is an integer in any number text, or `end` with an optional offset.
-/

namespace CommandVM.ListText

/-- The position that an index names in a list of `size` elements, which it may lie outside of. It
is computed in 64 bits. -/
def resolveIndex (spec : String) (size : Nat) : Except Error Int :=
  let last := Int64.ofNat size - 1
  let found := match Text.trim spec.toList with
    | ['e', 'n', 'd'] => some last
    | 'e' :: 'n' :: 'd' :: '-' :: ds => (Text.int64? 10 ds).map fun n => last - Int64.ofInt n
    | 'e' :: 'n' :: 'd' :: '+' :: ds => (Text.int64? 10 ds).map fun n => last + Int64.ofInt n
    | 'e' :: 'n' :: 'd' :: _ => none
    | cs => match Number.readChars cs with
      | .ok n => n.toInt64?
      | .error _ => none
  match found with
  | some i => .ok i.toInt
  | none => .error (.badIndex spec)

def itemAt? {α : Type} (items : List α) (index : Int) : Option α :=
  if index < 0 then none else items[index.toNat]?

end CommandVM.ListText
