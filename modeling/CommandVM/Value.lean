import CommandVM.ListText.Quote
import CommandVM.ListText.Split
import CommandVM.Number.Read
import CommandVM.Number.Write

/-!
# Values

Every value is a text. A value may hold a number or a list instead, from which its text follows, and
each value has a numeric and a list view where its text has one.
-/

namespace CommandVM

/-- A value with its representation. -/
inductive Value where
  | text (chars : String)
  | int (value : Int32)
  | wide (value : Int64)
  | double (value : Double)
  | list (items : List Value)

namespace Value

instance : Inhabited Value := ⟨.text ""⟩

def empty : Value := .text ""

def ofNumber : Number → Value
  | .int v => .int v
  | .wide v => .wide v
  | .double v => .double v

def ofInt64 (v : Int64) : Value := ofNumber (Number.ofInt64 v)

def ofBool (b : Bool) : Value := ofNumber (Number.ofBool b)

mutual

def str : Value → String
  | .text s => s
  | .int v => Number.text (.int v)
  | .wide v => Number.text (.wide v)
  | .double v => Number.text (.double v)
  | .list items => ListText.join (strs items)

def strs : List Value → List String
  | [] => []
  | v :: vs => v.str :: strs vs

end

/-- The number that the representation holds. -/
def held? : Value → Option Number
  | .int v => some (.int v)
  | .wide v => some (.wide v)
  | .double v => some (.double v)
  | _ => none

def isNumeric (v : Value) : Bool := v.held?.isSome

def number (v : Value) : Except Number.ReadError Number :=
  match v.held? with
  | some n => .ok n
  | none => Number.read v.str

def integer? (v : Value) : Option Int64 :=
  match v.number with
  | .ok n => n.toInt64?
  | .error _ => none

/-- The truth view: a number is true when it is not zero; otherwise a truth word. -/
def truth? (v : Value) : Option Bool :=
  match v.number with
  | .ok n => some (!n.isZero)
  | .error _ => Number.truthWord? v.str.toList

def items (v : Value) : Except ListText.Error (List Value) :=
  match v with
  | .list items => .ok items
  | v => (ListText.split v.str).map fun texts => texts.map Value.text

def append (v : Value) (more : String) : Value := .text (v.str ++ more)

def push (v : Value) (element : Value) : Except ListText.Error Value :=
  v.items.map fun items => .list (items ++ [element])

end Value

end CommandVM
