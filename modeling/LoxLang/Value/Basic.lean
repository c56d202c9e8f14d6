/-
LoxLang.Value.Basic: the values of a running program.

* `Closure`: a routine with the environment it was created in.  Every closure has a number of its
  own, and two closures are the same only if they have the same number.
* `Class`: a class with its parents, its methods and its metaclass.  A metaclass is a class whose
  methods are the static methods; it has no metaclass itself.
* `Instance`: an object that a class created.
* `Value`: nil, booleans, numbers, strings and the above.

Fields are not part of an object; they change, and live in the machine under the object's number.
-/
import LoxLang.Binding.Distances
import LoxLang.Store.Basic

namespace LoxLang

/-- What calling a closure means. -/
inductive ClosureKind where
  | plain
  /-- Yields the object that it is bound to, whatever it returns. -/
  | initializer
  /-- Is called by reading the property. -/
  | getter
  deriving DecidableEq, Repr

/-- A routine with the environment that it was created in. -/
structure Closure where
  id : Nat
  /-- The name that it was declared with, if it has one. -/
  name : Option Token
  params : List Token
  body : List (Stmt Distance)
  environment : Environment
  kind : ClosureKind

/-- The number of arguments that a closure takes. -/
def Closure.arity (f : Closure) : Nat := f.params.length

/-- The number under which the machine keeps the fields of an object. -/
abbrev ObjectId := Nat

/-- A class, or a metaclass if it has no metaclass itself. -/
structure Class where
  id : ObjectId
  name : String
  superclass : Option Class
  mixins : List Class
  methods : List (String × Closure)
  metaclass : Option Class

/-- An object that a class created. -/
structure Instance where
  id : ObjectId
  cls : Class

/-- The values of a running program. -/
inductive Value where
  | nil
  | bool (b : Bool)
  | number (x : Float)
  | string (s : String)
  | function (f : Closure)
  /-- The clock, the only routine that is not written in the language. -/
  | clock
  | class (c : Class)
  | instance (o : Instance)

/-- The value of a literal. -/
def Literal.value : Literal → Value
  | .nil => .nil
  | .bool b => .bool b
  | .number x => .number x
  | .string s => .string s

/-- What a value does as the holder of properties: the number of its fields and the class that its
methods come from.  Instances are such holders, and so are classes, whose methods come from the
metaclass. -/
structure Receiver where
  id : ObjectId
  cls : Option Class

/-- The holder of properties that a value is, if it is one. -/
def Value.receiver? : Value → Option Receiver
  | .instance o => some ⟨o.id, some o.cls⟩
  | .class c => some ⟨c.id, c.metaclass⟩
  | _ => none

end LoxLang
