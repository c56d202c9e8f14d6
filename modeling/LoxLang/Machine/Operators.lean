/-
LoxLang.Machine.Operators: what the operators do to values.

The kind of an operator's token decides, whatever it was written as.

* `applyUnary`, `applyBinary`: the operators that evaluate all their operands.
* `settles`: whether the left side of a logical operator is its value.

An operator of a kind that means nothing yields nil, a binary one only for two numbers.
-/
import LoxLang.Value.Text

namespace LoxLang

/-- Applies a prefix operator. -/
def applyUnary (op : Token) (v : Value) : Except Failure Value :=
  match op.kind with
  | .minus =>
    match v with
    | .number x => .ok (.number (-x))
    | _ => .error (.runtime (some op) .operandNotNumber)
  | .bang => .ok (.bool !v.isTruthy)
  | _ => .ok .nil

/-- Adds two numbers, or appends the text of a value to a string. -/
def applyPlus (op : Token) (left right : Value) : Except Failure Value :=
  match left, right with
  | .number x, .number y => .ok (.number (x + y))
  | .string s, _ => .ok (.string (s ++ right.text))
  | _, _ => .error (.runtime (some op) .operandsNotAddable)

/-- Applies an operator to two numbers.  Dividing by zero of either sign fails. -/
def applyNumeric (op : Token) (x y : Float) : Except Failure Value :=
  match op.kind with
  | .minus => .ok (.number (x - y))
  | .star => .ok (.number (x * y))
  | .slash => if y == 0 then .error (.runtime (some op) .divisionByZero) else .ok (.number (x / y))
  | .greater => .ok (.bool (x > y))
  | .greaterEqual => .ok (.bool (x ≥ y))
  | .less => .ok (.bool (x < y))
  | .lessEqual => .ok (.bool (x ≤ y))
  | _ => .ok .nil

/-- Applies a binary operator. -/
def applyBinary (left : Value) (op : Token) (right : Value) : Except Failure Value :=
  match op.kind with
  | .plus => applyPlus op left right
  | .equalEqual => .ok (.bool (left.equals right))
  | .bangEqual => .ok (.bool !left.equals right)
  | _ =>
    match left, right with
    | .number x, .number y => applyNumeric op x y
    | _, _ => .error (.runtime (some op) .operandsNotNumbers)

/-- The left side of a logical operator is its value: a true one for `or`, and otherwise a false
one. -/
def settles (op : Token) (left : Value) : Bool :=
  if op.kind = .orWord then left.isTruthy else !left.isTruthy

end LoxLang
