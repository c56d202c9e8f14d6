/-
LoxLang.Value.Text: how values are tested, compared and shown.

* `Value.isTruthy`: only nil and false are false.
* `Value.equals`: values of different sorts differ; closures and objects are compared by identity.
* `Value.text`, `Value.inspect`: the text that is printed, and the one that is echoed.
-/
import LoxLang.Number.Text
import LoxLang.Value.Basic

namespace LoxLang.Value

/-- Only nil and false count as false. -/
def isTruthy : Value → Bool
  | .nil => false
  | .bool b => b
  | _ => true

/-- Equality as the program sees it.  A number that is not one differs from itself. -/
def equals : Value → Value → Bool
  | .nil, .nil => true
  | .bool a, .bool b => a == b
  | .number a, .number b => a == b
  | .string a, .string b => a == b
  | .function a, .function b => a.id == b.id
  | .clock, .clock => true
  | .class a, .class b => a.id == b.id
  | .instance a, .instance b => a.id == b.id
  | _, _ => false

/-- The text that is printed for a value. -/
def text : Value → String
  | .nil => "nil"
  | .bool true => "true"
  | .bool false => "false"
  | .number x => Number.shortText x
  | .string s => s
  | .function f =>
    match f.name with
    | some name => "<fn " ++ name.lexeme ++ ">"
    | none => "<anonymous fn>"
  | .clock => "<native fn>"
  | .class c => c.name
  | .instance o => o.cls.name ++ " instance"

/-- The text that is echoed for a value: strings are quoted. -/
def inspect : Value → String
  | .string s => "\"" ++ s ++ "\""
  | v => v.text

end LoxLang.Value
