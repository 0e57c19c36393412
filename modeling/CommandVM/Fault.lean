import CommandVM.DecodeError
import CommandVM.ListText.Split
import CommandVM.Number.Read

/-!
# Faults

The error conditions of the machine, each with its text and its class.
-/

namespace CommandVM

inductive OperandProblem where
  | emptyString
  | nonNumeric
  | invalidOctal
  | floatingPoint
deriving Repr, DecidableEq

def OperandProblem.message : OperandProblem → String
  | .emptyString => "empty string"
  | .nonNumeric => "non-numeric string"
  | .invalidOctal => "invalid octal number"
  | .floatingPoint => "floating-point value"

inductive VariableAction where
  | read
  | set
deriving Repr, DecidableEq

def VariableAction.word : VariableAction → String
  | .read => "read"
  | .set => "set"

/-- The two ways out of a loop iteration. -/
inductive LoopExit where
  | breakLoop
  | continueLoop
deriving Repr, DecidableEq

def LoopExit.word : LoopExit → String
  | .breakLoop => "break"
  | .continueLoop => "continue"

/-- An error condition of the machine. -/
inductive Fault where
  | divideByZero
  | domainError
  | floatOverflow
  | floatUnderflow
  | integerTooLarge
  | negativeShift
  | illegalOperand (problem : OperandProblem) (operator : String)
  | expectedInteger (text : String)
  | expectedBoolean (text : String)
  | unknownCommand (name : String)
  | unknownMathFunction (name : String)
  | tooFewMathArgs
  | tooManyMathArgs
  | nonNumericMathArg
  | variableAccess (action : VariableAction) (name : String) (reason : String)
  | nestingLimit
  | outsideLoop (exit : LoopExit)
  | wrongArgs (usage : String)
  | list (error : ListText.Error)
  /-- Raised by a command or an observer with a message of its own. -/
  | delegate (message : String)
  /-- The code or a table of a unit failed while it ran. -/
  | malformed (error : DecodeError)
deriving Repr, DecidableEq

namespace Fault

def message : Fault → String
  | .divideByZero => "divide by zero"
  | .domainError => "domain error: argument not in valid range"
  | .floatOverflow => "floating-point value too large to represent"
  | .floatUnderflow => "floating-point value too small to represent"
  | .integerTooLarge => "integer value too large to represent"
  | .negativeShift => "negative shift argument"
  | .illegalOperand problem operator =>
    "can't use " ++ problem.message ++ " as operand of \"" ++ operator ++ "\""
  | .expectedInteger text => s!"expected integer but got \"{text}\""
  | .expectedBoolean text => s!"expected boolean value but got \"{text}\""
  | .unknownCommand name => s!"invalid command name \"{name}\""
  | .unknownMathFunction name => s!"unknown math function \"{name}\""
  | .tooFewMathArgs => "too few arguments for math function"
  | .tooManyMathArgs => "too many arguments for math function"
  | .nonNumericMathArg => "argument to math function didn't have numeric value"
  | .variableAccess action name reason =>
    "can't " ++ action.word ++ " \"" ++ name ++ "\": " ++ reason
  | .nestingLimit => "too many nested evaluations (infinite loop?)"
  | .outsideLoop exit => "invoked \"" ++ exit.word ++ "\" outside of a loop"
  | .wrongArgs usage => s!"wrong # args: should be \"{usage}\""
  | .list error => error.message
  | .delegate message => message
  | .malformed error => "malformed compiled unit: " ++ error.message

def errorCode : Fault → String
  | .divideByZero => "ARITH DIVZERO"
  | .domainError => "ARITH DOMAIN"
  | .floatOverflow => "ARITH OVERFLOW"
  | .floatUnderflow => "ARITH UNDERFLOW"
  | .integerTooLarge => "ARITH IOVERFLOW"
  | _ => "NONE"

def ofReadError (operator : String) : Number.ReadError → Fault
  | .empty => .illegalOperand .emptyString operator
  | .notNumeric => .illegalOperand .nonNumeric operator
  | .invalidOctal => .illegalOperand .invalidOctal operator
  | .tooLarge => .integerTooLarge
  | .doubleTooLarge => .floatOverflow

end Fault

end CommandVM
