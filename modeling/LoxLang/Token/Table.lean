/-
LoxLang.Token.Table: the table of the tokens of a text.

One row per token: its line, the name of its kind, the text it was written as and the value it
denotes.  A long text is cut, and one with newlines or tabs is shown escaped; the columns are
padded by code points.

* `Token.row`: the row of a token.
* `tokenTable`: the whole table.
-/
import LoxLang.Number.Text
import LoxLang.Text.Quoted
import LoxLang.Token.Basic

namespace LoxLang

/-- Fills a text with blanks on the right up to a width. -/
def padRight (width : Nat) (cs : List Char) : List Char :=
  cs ++ List.replicate (width - cs.length) ' '

/-- The width of the column of lines. -/
def lineWidth : Nat := 6

/-- The width of the column of kinds. -/
def kindWidth : Nat := 14

/-- The width of the column of lexemes. -/
def lexemeWidth : Nat := 30

/-- A text that does not fit into the lexeme column is cut so that it does with three dots. -/
def cutLexeme (cs : List Char) : List Char :=
  if lexemeWidth < cs.length then cs.take (lexemeWidth - 3) ++ ['.', '.', '.'] else cs

/-- How a lexeme is shown: cut first, and then escaped if a newline or a tab is left in it. -/
def shownLexeme (cs : List Char) : List Char :=
  let cut := cutLexeme cs
  if cut.contains '\n' || cut.contains '\t' then Text.escape cut else cut

/-- How a literal is shown: numbers in full, strings as they are, and nothing for no value. -/
def Literal.shown : Literal → List Char
  | .nil => []
  | .bool b => (if b then "true" else "false").toList
  | .number x => Number.textChars x
  | .string s => s.toList

/-- A row from the texts of its four columns. -/
def tableRow (line kind lexeme literal : List Char) : List Char :=
  padRight lineWidth line ++ ['|', ' '] ++ padRight kindWidth kind ++ ['|', ' ']
    ++ padRight lexemeWidth lexeme ++ ['|', ' '] ++ literal

/-- The row of a token. -/
def Token.row (t : Token) : List Char :=
  tableRow (Number.digitsOf t.line) t.kind.name.toList (shownLexeme t.lexeme.toList)
    t.literal.shown

/-- The two lines above the rows. -/
def tableHeader : List (List Char) :=
  [tableRow "Line".toList "Token".toList "Lexeme".toList "Literal".toList, List.replicate 78 '-']

/-- The table of a list of tokens; an empty list has no table. -/
def tokenTable (tokens : List Token) : String :=
  if tokens.isEmpty then "No tokens found!\n"
  else String.ofList ((tableHeader ++ tokens.map Token.row).flatMap (· ++ ['\n']))

end LoxLang
