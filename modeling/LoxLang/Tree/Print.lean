/-
LoxLang.Tree.Print: programs written with all their parentheses.

An expression is written with its operator first, `(+ 1 (* 2 3))`, and a statement as a bracketed
form that begins with a keyword of its own.  Statement lists stand between braces.

* `Expr.chars`, `Stmt.chars`: the written form.
* `Expr.text`, `programText`: the same as strings; the statements of a program are on lines of
  their own, and one that is missing is written `(error)`.
-/
import LoxLang.Number.Text
import LoxLang.Tree.Basic

namespace LoxLang

/-- The written form of a literal: a number without a final `.0`, a string without quotes. -/
def Literal.chars : Literal → List Char
  | .nil => "nil".toList
  | .bool true => "true".toList
  | .bool false => "false".toList
  | .number x => Number.dropIntegralTail (Number.textChars x)
  | .string s => s.toList

/-- The characters of a token as it is written. -/
def Token.chars (t : Token) : List Char := t.lexeme.toList

/-- Parts separated by single blanks. -/
def words (parts : List (List Char)) : List Char := [' '].intercalate parts

/-- Parts between parentheses. -/
def parens (parts : List (List Char)) : List Char := '(' :: (words parts ++ [')'])

/-- Parts between braces. -/
def braces (parts : List (List Char)) : List Char := '\x7b' :: (words parts ++ ['\x7d'])

mutual

/-- The written form of an expression. -/
def Expr.chars {ρ : Type} : Expr ρ → List Char
  | .literal v => v.chars
  | .grouping e => parens ["group".toList, e.chars]
  | .unary op e => parens [op.chars, e.chars]
  | .binary l op r => parens [op.chars, l.chars, r.chars]
  | .logical l op r => parens [op.chars, l.chars, r.chars]
  | .variable r => r.token.chars
  | .assign r e => parens ["=".toList, r.token.chars, e.chars]
  | .call f _ es => parens ("call".toList :: f.chars :: Expr.charsAll es)
  | .get e name => parens [".".toList, e.chars, name.chars]
  | .set e name v => parens ["=".toList, parens [".".toList, e.chars, name.chars], v.chars]
  | .this _ => "this".toList
  | .super _ method => parens ["super".toList, method.chars]
  | .function _ params body =>
    parens ["fun".toList, parens (params.map Token.chars), braces (Stmt.charsAll body)]

def Expr.charsAll {ρ : Type} : List (Expr ρ) → List (List Char)
  | [] => []
  | e :: es => e.chars :: Expr.charsAll es

/-- The written form of a statement. -/
def Stmt.chars {ρ : Type} : Stmt ρ → List Char
  | .missing => parens ["error".toList]
  | .expression e => parens [";".toList, e.chars]
  | .print e => parens ["print".toList, e.chars]
  | .var name none => parens ["var".toList, name.chars]
  | .var name (some e) => parens ["var".toList, name.chars, e.chars]
  | .block body => parens ["block".toList, braces (Stmt.charsAll body)]
  | .ifElse c t none => parens ["if".toList, c.chars, t.chars]
  | .ifElse c t (some e) => parens ["if".toList, c.chars, t.chars, e.chars]
  | .whileLoop c b => parens ["while".toList, c.chars, b.chars]
  | .ret _ none => parens ["return".toList]
  | .ret _ (some e) => parens ["return".toList, e.chars]
  | .loopExit keyword => parens [keyword.chars]
  | .function r => r.chars
  | .classDecl name superclass mixins methods statics =>
    parens ("class".toList :: name.chars
      :: ((superclass.map fun r => ["<".toList, r.token.chars]).getD []
        ++ (if mixins.isEmpty then [] else "<=".toList :: mixins.map (·.token.chars))
        ++ Routine.charsAll methods
        ++ (Routine.charsAll statics).map fun cs => parens ["static".toList, cs]))

def Stmt.charsAll {ρ : Type} : List (Stmt ρ) → List (List Char)
  | [] => []
  | s :: ss => s.chars :: Stmt.charsAll ss

/-- The written form of a routine; a getter has a keyword of its own. -/
def Routine.chars {ρ : Type} : Routine ρ → List Char
  | ⟨name, params, body, getter⟩ =>
    parens [(if getter then "getter" else "fun").toList, name.chars,
      parens (params.map Token.chars), braces (Stmt.charsAll body)]

def Routine.charsAll {ρ : Type} : List (Routine ρ) → List (List Char)
  | [] => []
  | r :: rs => r.chars :: Routine.charsAll rs

end

/-- The written form of an expression. -/
def Expr.text {ρ : Type} (e : Expr ρ) : String := String.ofList e.chars

/-- The written form of a statement. -/
def Stmt.text {ρ : Type} (s : Stmt ρ) : String := String.ofList s.chars

/-- The written form of a program, one statement a line. -/
def programText {ρ : Type} (program : List (Stmt ρ)) : String :=
  String.ofList (['\n'].intercalate (program.map Stmt.chars))

end LoxLang
