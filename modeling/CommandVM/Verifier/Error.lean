import CommandVM.CompiledUnit
import CommandVM.DecodeError

/-!
# Verification errors

Errors of instructions carry an offset, errors of tables an index.
-/

namespace CommandVM.Verifier

inductive Target where
  | breakTarget
  | continueTarget
  | catchTarget
deriving Repr, DecidableEq

def Target.word : Target → String
  | .breakTarget => "break"
  | .continueTarget => "continue"
  | .catchTarget => "catch"

inductive Error where
  | decode (error : DecodeError)
  | emptyCode
  | missingTerminal (offset : Nat)
  | literalOutOfRange (offset index : Nat)
  | localOutOfRange (offset index : Nat)
  | foreachOutOfRange (offset index : Nat)
  | foreachSlotOutOfRange (info : Nat) (slot : UInt32)
  | unknownBuiltin (offset index : Nat)
  | zeroArgCount (offset : Nat)
  | badCatchRange (offset range : Nat)
  | badJumpTarget (offset : Nat) (target : Int)
  | rangeOutOfBounds (range : Nat)
  | missingTarget (range : Nat) (kind : RangeKind) (target : Target)
  | badRangeTarget (range : Nat) (target : Target) (offset : UInt32)
  | rangeOrder (range other : Nat)
  | nestingLevel (range : Nat) (expected found : UInt32)
  | commandOutOfBounds (index : Nat)
  | stackUnderflow (offset depth needed : Nat)
  | unbalancedLoopExit (offset range depth expected : Nat)
  | inconsistentDepth (offset expected found : Nat)
  | unbalancedDone (offset depth : Nat)
  | maxDepthTooSmall (declared : UInt32) (required : Nat)
deriving Repr, DecidableEq

def Error.message : Error → String
  | .decode error => error.message
  | .emptyCode => "unit has no code"
  | .missingTerminal offset =>
    s!"code does not end in a terminal instruction (last instruction at {offset})"
  | .literalOutOfRange offset index => s!"literal index {index} out of range at offset {offset}"
  | .localOutOfRange offset index => s!"local slot {index} out of range at offset {offset}"
  | .foreachOutOfRange offset index => s!"foreach info {index} out of range at offset {offset}"
  | .foreachSlotOutOfRange info slot =>
    let slot := slot.toNat
    s!"foreach info {info} refers to local slot {slot}, which does not exist"
  | .unknownBuiltin offset index =>
    s!"unknown built-in math function {index} at offset {offset}"
  | .zeroArgCount offset => s!"zero argument count at offset {offset}"
  | .badCatchRange offset range =>
    s!"BEGIN_CATCH4 at offset {offset} refers to range {range}, which is not a catch range"
  | .badJumpTarget offset target =>
    s!"jump at offset {offset} targets {target}, which is not an instruction boundary"
  | .rangeOutOfBounds range =>
    s!"exception range {range} lies outside the code or splits an instruction"
  | .missingTarget range kind target =>
    let kind := kind.name
    let target := target.word
    s!"{kind} range {range} has no {target} target"
  | .badRangeTarget range target offset =>
    let target := target.word
    let offset := offset.toNat
    s!"exception range {range} has {target} target {offset}, which is not an instruction boundary"
  | .rangeOrder range other =>
    s!"exception range {range} is out of nesting order with range {other}"
  | .nestingLevel range expected found =>
    let found := found.toNat
    let expected := expected.toNat
    s!"exception range {range} has nesting level {found}, expected {expected}"
  | .commandOutOfBounds index => s!"command location {index} lies outside the code or source"
  | .stackUnderflow offset depth needed =>
    s!"stack underflow at offset {offset}: depth {depth}, instruction needs {needed}"
  | .unbalancedLoopExit offset range depth expected =>
    s!"loop exit at offset {offset} leaves depth {depth}, " ++
      s!"but range {range} starts at depth {expected}"
  | .inconsistentDepth offset expected found =>
    s!"inconsistent stack depth at offset {offset}: {expected} on one path, {found} on another"
  | .unbalancedDone offset depth =>
    s!"unbalanced stack at DONE (offset {offset}): depth {depth}, expected 1"
  | .maxDepthTooSmall declared required =>
    let declared := declared.toNat
    s!"declared max stack depth {declared} is below the required {required}"

end CommandVM.Verifier
