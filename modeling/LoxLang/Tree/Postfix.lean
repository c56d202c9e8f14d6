/-
LoxLang.Tree.Postfix: expressions with the operator after its operands.

`1 + 2 * 3` is written `1 2 3 * +`, without parentheses and without a sign for groupings.  Calls,
properties and routines have no such form and are written as in `LoxLang.Tree.Print`.

* `Expr.postfixChars`, `Expr.postfixText`: the written form.
-/
import LoxLang.Tree.Print

namespace LoxLang

/-- The postfix form of an expression. -/
def Expr.postfixChars {ρ : Type} : Expr ρ → List Char
  | .binary l op r => words [l.postfixChars, r.postfixChars, op.chars]
  | .logical l op r => words [l.postfixChars, r.postfixChars, op.chars]
  | .unary op e => words [e.postfixChars, op.chars]
  | .grouping e => e.postfixChars
  | .assign r e => words [r.token.chars, e.postfixChars, "=".toList]
  | e => e.chars

/-- The postfix form of an expression. -/
def Expr.postfixText {ρ : Type} (e : Expr ρ) : String := String.ofList e.postfixChars

end LoxLang
