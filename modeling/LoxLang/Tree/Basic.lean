/-
LoxLang.Tree.Basic: the trees that programs are read into.

A tree is generic in the mark that its references carry.  Reading a text marks each reference with
a `Site`, a number of its own; binding replaces it by the number of scopes between the reference
and its declaration.  Two references with the same name and line stay distinguishable by their
marks.

* `Reference`: a token that stands for a binding, with its mark.
* `Expr`, `Stmt`, `Routine`: expressions, statements and named routines.
* `Expr.references` and its companions: all references of a tree, in the order of its parts.
-/
import LoxLang.Token.Basic

namespace LoxLang

/-- A number that tells one reference of a program from all others. -/
abbrev Site := Nat

/-- A token that stands for a binding: a name, `this` or `super`. -/
structure Reference (ρ : Type) where
  token : Token
  mark : ρ
  deriving Repr

/-- The name that is bound. -/
def Reference.name {ρ : Type} (r : Reference ρ) : String := r.token.lexeme

mutual

/-- Expressions. -/
inductive Expr (ρ : Type) where
  | literal (value : Literal)
  | grouping (inner : Expr ρ)
  | unary (operator : Token) (right : Expr ρ)
  | binary (left : Expr ρ) (operator : Token) (right : Expr ρ)
  | logical (left : Expr ρ) (operator : Token) (right : Expr ρ)
  | variable (ref : Reference ρ)
  | assign (ref : Reference ρ) (value : Expr ρ)
  | call (callee : Expr ρ) (paren : Token) (arguments : List (Expr ρ))
  | get (object : Expr ρ) (name : Token)
  | set (object : Expr ρ) (name : Token) (value : Expr ρ)
  | this (ref : Reference ρ)
  | super (ref : Reference ρ) (method : Token)
  /-- A routine without a name. -/
  | function (keyword : Token) (params : List Token) (body : List (Stmt ρ))

/-- Statements and declarations. -/
inductive Stmt (ρ : Type) where
  /-- The place of a statement that could not be read. -/
  | missing
  | expression (e : Expr ρ)
  | print (e : Expr ρ)
  | var (name : Token) (init : Option (Expr ρ))
  | block (body : List (Stmt ρ))
  | ifElse (condition : Expr ρ) (thenBranch : Stmt ρ) (elseBranch : Option (Stmt ρ))
  | whileLoop (condition : Expr ρ) (body : Stmt ρ)
  | ret (keyword : Token) (value : Option (Expr ρ))
  /-- `break`, or otherwise `continue`. -/
  | loopExit (keyword : Token)
  | function (routine : Routine ρ)
  | classDecl (name : Token) (superclass : Option (Reference ρ)) (mixins : List (Reference ρ))
      (methods statics : List (Routine ρ))

/-- A named routine: a function, or a method or static method of a class.  A getter is declared
without a parameter list. -/
structure Routine (ρ : Type) where
  name : Token
  params : List Token
  body : List (Stmt ρ)
  getter : Bool

end

instance {ρ : Type} : Inhabited (Expr ρ) := ⟨.literal .nil⟩

instance {ρ : Type} : Inhabited (Stmt ρ) := ⟨.missing⟩

instance {ρ : Type} : Inhabited (Routine ρ) := ⟨⟨default, [], [], false⟩⟩

/-- A loop exit ends the loop exactly if its keyword is `break`. -/
def Token.isBreak (keyword : Token) : Bool := keyword.kind = .breakWord

/-! ## Names with a meaning -/

/-- The name under which a method finds the object that it is bound to. -/
def thisName : String := "this"

/-- The name under which the methods of a class find its superclass. -/
def superName : String := "super"

/-- The name of the method that a new instance is passed through. -/
def initName : String := "init"

/-! ## References -/

/-- The part that a reference plays in its expression. -/
inductive ReferenceRole where
  | variable | assign | this | super
  deriving DecidableEq, Repr

/-- An occurrence of a reference. -/
abbrev Occurrence (ρ : Type) := ReferenceRole × Reference ρ

mutual

/-- The references of an expression; that of an assignment comes before those of its value. -/
def Expr.references {ρ : Type} : Expr ρ → List (Occurrence ρ)
  | .literal _ => []
  | .grouping e => e.references
  | .unary _ e => e.references
  | .binary l _ r => l.references ++ r.references
  | .logical l _ r => l.references ++ r.references
  | .variable r => [(.variable, r)]
  | .assign r e => (.assign, r) :: e.references
  | .call f _ es => f.references ++ Expr.referencesAll es
  | .get e _ => e.references
  | .set e _ v => e.references ++ v.references
  | .this r => [(.this, r)]
  | .super r _ => [(.super, r)]
  | .function _ _ body => Stmt.referencesAll body

def Expr.referencesAll {ρ : Type} : List (Expr ρ) → List (Occurrence ρ)
  | [] => []
  | e :: es => e.references ++ Expr.referencesAll es

/-- The references of a statement. -/
def Stmt.references {ρ : Type} : Stmt ρ → List (Occurrence ρ)
  | .missing => []
  | .expression e => e.references
  | .print e => e.references
  | .var _ none => []
  | .var _ (some e) => e.references
  | .block body => Stmt.referencesAll body
  | .ifElse c t none => c.references ++ t.references
  | .ifElse c t (some e) => c.references ++ t.references ++ e.references
  | .whileLoop c b => c.references ++ b.references
  | .ret _ none => []
  | .ret _ (some e) => e.references
  | .loopExit _ => []
  | .function r => r.references
  | .classDecl _ superclass mixins methods statics =>
    (superclass.toList ++ mixins).map (.variable, ·) ++ Routine.referencesAll methods
      ++ Routine.referencesAll statics

def Stmt.referencesAll {ρ : Type} : List (Stmt ρ) → List (Occurrence ρ)
  | [] => []
  | s :: ss => s.references ++ Stmt.referencesAll ss

/-- The references of a routine. -/
def Routine.references {ρ : Type} : Routine ρ → List (Occurrence ρ)
  | ⟨_, _, body, _⟩ => Stmt.referencesAll body

def Routine.referencesAll {ρ : Type} : List (Routine ρ) → List (Occurrence ρ)
  | [] => []
  | r :: rs => r.references ++ Routine.referencesAll rs

end

end LoxLang
