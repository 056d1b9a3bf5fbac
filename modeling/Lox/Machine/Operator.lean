import Lox.Fault
import Lox.Value

/-!
Operators on values. Division by zero is no fault: it gives what binary floating point gives.
-/

namespace Lox.Machine

def applyUnary (operator : Token) (operand : Value) : Except RuntimeFault Value :=
  match operator.kind, operand with
  | .symbol .minus, .number x => .ok (.number (-x))
  | .symbol .minus, _ => .error (.typeMismatch .number operator.line)
  | _, operand => .ok (.bool (!operand.isTruthy))

/-- What an operator makes of two numbers. -/
def onNumbers? : Symbol → Option (Float → Float → Value)
  | .minus => some fun a b => .number (a - b)
  | .star => some fun a b => .number (a * b)
  | .slash => some fun a b => .number (a / b)
  | .greater => some fun a b => .bool (b < a)
  | .greaterEqual => some fun a b => .bool (b ≤ a)
  | .less => some fun a b => .bool (a < b)
  | .lessEqual => some fun a b => .bool (a ≤ b)
  | _ => none

def applyNumeric (symbol : Symbol) (line : Nat) (left right : Value) : Except RuntimeFault Value :=
  match onNumbers? symbol, left, right with
  | some apply, .number a, .number b => .ok (apply a b)
  | _, _, _ => .error (.typeMismatch .numbers line)

def applyPlus (line : Nat) (left right : Value) : Except RuntimeFault Value :=
  match left, right with
  | .number a, .number b => .ok (.number (a + b))
  | .string a, .string b => .ok (.string (a ++ b))
  | _, _ => .error (.typeMismatch .numbersOrStrings line)

def applyBinary (operator : Token) (left right : Value) : Except RuntimeFault Value :=
  match operator.kind with
  | .symbol .equalEqual => .ok (.bool (left.equals right))
  | .symbol .bangEqual => .ok (.bool (!left.equals right))
  | .symbol .plus => applyPlus operator.line left right
  | .symbol symbol => applyNumeric symbol operator.line left right
  | _ => .error (.typeMismatch .numbers operator.line)

/-- Whether the left operand of `and` or `or` already settles the result. -/
def settles (operator : Token) (left : Value) : Bool :=
  if operator.kind = .keyword .or then left.isTruthy else !left.isTruthy

end Lox.Machine
