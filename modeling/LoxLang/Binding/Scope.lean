/-
LoxLang.Binding.Scope: the names that one scope declares.

A scope remembers for each of its names the latest declaration and how far the name has come: only
declared, defined, or read somewhere.  A name keeps the position of its first declaration, so the
complaints about names that were never read come in the order in which the names first appeared.

* `Status`, `Binding`, `Scope`: the record.
* `declare`, `define`, `use`: its changes.
* `unused`: the names to complain about when the scope ends.

Main statements: what each change does to the binding that `find?` yields (`find?_declare_self`,
`find?_declare_of_ne` and so on).
-/
import LoxLang.Token.Basic

namespace LoxLang

/-- How far a declared name has come. -/
inductive Status where
  | declared | defined | used
  deriving DecidableEq, Repr

/-- What a scope knows about a name.  The names `this` and `super` are bound without a token. -/
structure Binding where
  name : String
  status : Status
  token : Option Token

/-- The names of one scope, in the order of their first declarations. -/
structure Scope where
  bindings : List Binding

namespace Scope

/-- The scope without names. -/
def empty : Scope := ⟨[]⟩

/-- What the scope knows about a name. -/
def find? (s : Scope) (name : String) : Option Binding := s.bindings.find? (·.name == name)

/-- The scope declares the name. -/
def contains (s : Scope) (name : String) : Bool := (s.find? name).isSome

/-- How far a name has come; nothing if it is not declared. -/
def status? (s : Scope) (name : String) : Option Status := (s.find? name).map Binding.status

/-- Puts a binding in the place of the one of the same name, or at the end. -/
def place (b : Binding) : List Binding → List Binding
  | [] => [b]
  | first :: rest => if first.name = b.name then b :: rest else first :: place b rest

/-- Changes the first binding of a name, if there is one. -/
def adjust (f : Binding → Binding) (name : String) : List Binding → List Binding
  | [] => []
  | first :: rest => if first.name = name then f first :: rest else first :: adjust f name rest

/-- Declares a name.  A name that was declared before is replaced where it stands. -/
def declare (s : Scope) (b : Binding) : Scope := ⟨place b s.bindings⟩

/-- A definition raises a name that was only declared; a name that has been read already stays
so. -/
def Binding.defined (b : Binding) : Binding :=
  if b.status = .declared then { b with status := .defined } else b

/-- A read raises a name for good. -/
def Binding.used (b : Binding) : Binding := { b with status := .used }

/-- Marks a declared name as defined. -/
def define (s : Scope) (name : String) : Scope := ⟨adjust Binding.defined name s.bindings⟩

/-- Marks a declared name as read. -/
def use (s : Scope) (name : String) : Scope := ⟨adjust Binding.used name s.bindings⟩

/-- The names with a token that were never read, with the tokens of their latest declarations. -/
def unused (s : Scope) : List (String × Token) :=
  s.bindings.filterMap fun b =>
    if b.status = .used then none else b.token.map fun t => (b.name, t)

/-! ## What the changes do to a look-up -/

theorem find?_place_self (b : Binding) (bs : List Binding) :
    (place b bs).find? (·.name == b.name) = some b := by
  induction bs with
  | nil => simp [place]
  | cons first rest ih =>
    by_cases h : first.name = b.name
    · simp [place, h]
    · simp [place, h, ih]

theorem find?_place_of_ne {b : Binding} {name : String} (h : name ≠ b.name) (bs : List Binding) :
    (place b bs).find? (·.name == name) = bs.find? (·.name == name) := by
  induction bs with
  | nil => simp [place, Ne.symm h]
  | cons first rest ih =>
    by_cases same : first.name = b.name
    · simp [place, same, Ne.symm h]
    · by_cases hit : first.name = name
      · simp [place, hit, h]
      · simp [place, same, hit, ih]

theorem find?_adjust_self {f : Binding → Binding} (keep : ∀ b, (f b).name = b.name)
    (name : String) (bs : List Binding) :
    (adjust f name bs).find? (·.name == name) = (bs.find? (·.name == name)).map f := by
  induction bs with
  | nil => rfl
  | cons first rest ih =>
    by_cases h : first.name = name
    · simp [adjust, h, keep]
    · simp [adjust, h, ih]

theorem find?_adjust_of_ne {f : Binding → Binding} (keep : ∀ b, (f b).name = b.name)
    {name other : String} (h : other ≠ name) (bs : List Binding) :
    (adjust f name bs).find? (·.name == other) = bs.find? (·.name == other) := by
  induction bs with
  | nil => rfl
  | cons first rest ih =>
    by_cases same : first.name = name
    · simp [adjust, same, keep, Ne.symm h]
    · by_cases hit : first.name = other
      · simp [adjust, hit, h]
      · simp [adjust, same, hit, ih]

@[simp] theorem name_defined (b : Binding) : (Binding.defined b).name = b.name := by
  unfold Binding.defined
  split <;> rfl

@[simp] theorem name_used (b : Binding) : (Binding.used b).name = b.name := rfl

@[simp] theorem find?_declare_self (s : Scope) (b : Binding) :
    (s.declare b).find? b.name = some b :=
  find?_place_self b s.bindings

theorem find?_declare_of_ne (s : Scope) {b : Binding} {name : String} (h : name ≠ b.name) :
    (s.declare b).find? name = s.find? name :=
  find?_place_of_ne h s.bindings

@[simp] theorem find?_define_self (s : Scope) (name : String) :
    (s.define name).find? name = (s.find? name).map Binding.defined :=
  find?_adjust_self name_defined name s.bindings

theorem find?_define_of_ne (s : Scope) {name other : String} (h : other ≠ name) :
    (s.define name).find? other = s.find? other :=
  find?_adjust_of_ne name_defined h s.bindings

@[simp] theorem find?_use_self (s : Scope) (name : String) :
    (s.use name).find? name = (s.find? name).map Binding.used :=
  find?_adjust_self name_used name s.bindings

theorem find?_use_of_ne (s : Scope) {name other : String} (h : other ≠ name) :
    (s.use name).find? other = s.find? other :=
  find?_adjust_of_ne name_used h s.bindings

end Scope

end LoxLang
