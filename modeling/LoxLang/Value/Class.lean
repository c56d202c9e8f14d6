/-
LoxLang.Value.Class: where the methods of a class come from.

A method is looked for in the class itself, then in the whole order of its superclass, and then in
that of each mixin in turn.  The metaclass of a class has the metaclasses of its parents as parents,
so static methods are found in the same order.

* `Class.findMethod`: the look-up.
* `Class.order`: the classes in the order in which they are searched.
* `Class.build`: makes a class together with its metaclass.
-/
import LoxLang.Value.Basic

namespace LoxLang

namespace Class

/-- The method that the class itself declares under a name. -/
def ownMethod (c : Class) (name : String) : Option Closure := entryOf? c.methods name

mutual

/-- The method of a name that the class declares or inherits. -/
def findMethod (name : String) : Class → Option Closure
  | ⟨_, _, none, mixins, methods, _⟩ => (entryOf? methods name).or (findMethodIn name mixins)
  | ⟨_, _, some superclass, mixins, methods, _⟩ =>
    ((entryOf? methods name).or (superclass.findMethod name)).or (findMethodIn name mixins)

/-- The method of a name in the first of some classes that has one. -/
def findMethodIn (name : String) : List Class → Option Closure
  | [] => none
  | c :: cs => (c.findMethod name).or (findMethodIn name cs)

end

mutual

/-- The class and its parents in the order in which methods are looked for. -/
def order : Class → List Class
  | ⟨id, name, none, mixins, methods, metaclass⟩ =>
    ⟨id, name, none, mixins, methods, metaclass⟩ :: orderOf mixins
  | ⟨id, name, some superclass, mixins, methods, metaclass⟩ =>
    ⟨id, name, some superclass, mixins, methods, metaclass⟩ :: (superclass.order ++ orderOf mixins)

/-- The orders of some classes one after the other. -/
def orderOf : List Class → List Class
  | [] => []
  | c :: cs => c.order ++ orderOf cs

end

/-- The number of arguments for making an instance: those of the initializer, if there is one. -/
def arity (c : Class) : Nat := ((c.findMethod initName).map Closure.arity).getD 0

/-- Makes a class and its metaclass.  The parents of the metaclass are the metaclasses of the
parents. -/
def build (id metaId : ObjectId) (name : String) (superclass : Option Class) (mixins : List Class)
    (methods statics : List (String × Closure)) : Class :=
  ⟨id, name, superclass, mixins, methods,
    some ⟨metaId, name ++ " metaclass", superclass.bind Class.metaclass,
      mixins.filterMap Class.metaclass, statics, none⟩⟩

end Class

end LoxLang
