import CommandVM.Value

/-!
# Compiled units

A compiled unit is code with the tables that it refers to: literals, exception ranges, names of
local variables, foreach descriptors and the source spans of commands.
-/

namespace CommandVM

/-- What an exception range handles. -/
inductive RangeKind where
  /-- `break` and `continue`. -/
  | loop
  /-- Every completion that is not normal. -/
  | catch
deriving Repr, DecidableEq

def RangeKind.name : RangeKind → String
  | .loop => "loop"
  | .catch => "catch"

/-- An interval of code with the offsets at which its exceptions resume. A range stands in its table
after the ranges that enclose it. -/
structure ExceptionRange where
  kind : RangeKind
  level : UInt32
  start : UInt32
  size : UInt32
  breakTarget : Option UInt32
  continueTarget : Option UInt32
  catchTarget : Option UInt32
deriving Repr, DecidableEq

namespace ExceptionRange

/-- The offset after the last byte of a range, reduced to 32 bits. -/
def stop (r : ExceptionRange) : Nat := (r.start + r.size).toNat

theorem stop_eq {r : ExceptionRange} (fits : r.start.toNat + r.size.toNat < UInt32.size) :
    r.stop = r.start.toNat + r.size.toNat :=
  (UInt32.toNat_add _ _).trans (Nat.mod_eq_of_lt fits)

/-- The range covers an offset. Nothing is reduced here. -/
def contains (r : ExceptionRange) (offset : Nat) : Bool :=
  r.start.toNat ≤ offset && offset < r.start.toNat + r.size.toNat

/-- By their first and last offsets, the range covers all that `inner` covers. -/
def encloses (r inner : ExceptionRange) : Bool :=
  r.start.toNat ≤ inner.start.toNat && inner.stop ≤ r.stop

/-- By their first and last offsets, the ranges have no byte in common. -/
def disjoint (r s : ExceptionRange) : Bool :=
  r.stop ≤ s.start.toNat || s.stop ≤ r.start.toNat

end ExceptionRange

/-- An interval of code and the source text that it was compiled from. -/
structure CommandLocation where
  codeStart : UInt32
  codeSize : UInt32
  sourceStart : UInt32
  sourceSize : UInt32
deriving Repr, DecidableEq

def CommandLocation.contains (l : CommandLocation) (offset : Nat) : Bool :=
  l.codeStart.toNat ≤ offset && offset < l.codeStart.toNat + l.codeSize.toNat

/-- A list that a foreach loop runs over: the slot of the list and the slots assigned from it. -/
structure ForeachList where
  listSlot : UInt32
  varSlots : List UInt32
deriving Repr, DecidableEq

structure ForeachInfo where
  counterSlot : UInt32
  lists : List ForeachList
deriving Repr, DecidableEq

/-- Code and the tables that it refers to. -/
structure CompiledUnit where
  code : List UInt8 := []
  literals : List Value := []
  ranges : List ExceptionRange := []
  maxStack : UInt32 := 0
  locals : List String := []
  foreachInfos : List ForeachInfo := []
  commands : List CommandLocation := []
  source : Option String := none

instance : Inhabited CompiledUnit := ⟨{}⟩

namespace CompiledUnit

def shorter (a b : CommandLocation) : CommandLocation :=
  if b.codeSize < a.codeSize then b else a

/-- The innermost command that covers an offset: the first of the shortest locations. -/
def commandAt (u : CompiledUnit) (offset : Nat) : Option CommandLocation :=
  match u.commands.filter (·.contains offset) with
  | [] => none
  | l :: ls => some (ls.foldl shorter l)

/-- A character of some UTF-8 bytes starts at `offset`, or they end there. -/
def isCharStart (bytes : List UInt8) (offset : Nat) : Bool :=
  match bytes[offset]? with
  | some b => b.toNat / 64 != 2
  | none => offset == bytes.length

/-- Some bytes of a text, if they are whole characters of it. -/
def byteSpan? (text : String) (start size : Nat) : Option String :=
  let bytes := text.toUTF8.toList
  if isCharStart bytes start && isCharStart bytes (start + size) then
    String.fromUTF8? ⟨((bytes.drop start).take size).toArray⟩
  else none

def snippet (u : CompiledUnit) (l : CommandLocation) : Option String :=
  u.source.bind fun text => byteSpan? text l.sourceStart.toNat l.sourceSize.toNat

/-- Two units with the same fields, where literals count by their texts. -/
def Same (u v : CompiledUnit) : Prop :=
  u.code = v.code ∧ Value.strs u.literals = Value.strs v.literals ∧ u.ranges = v.ranges ∧
    u.maxStack = v.maxStack ∧ u.locals = v.locals ∧ u.foreachInfos = v.foreachInfos ∧
    u.commands = v.commands ∧ u.source = v.source

end CompiledUnit

end CommandVM
