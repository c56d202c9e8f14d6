/-
LoxLang.Token.Basic: the tokens of the language.

* `Kind`: what a token is.  Beside the kinds that a scan yields there is `other`, for tokens that
  somebody built by hand.
* `Literal`: the values that can be written down in a program.
* `Token`: a kind, the text it was written as, the value it denotes and the line it ends on.
-/

namespace LoxLang

/-- What a token is. -/
inductive Kind where
  | andWord | breakWord | classWord | continueWord | elseWord | falseWord | forWord | funWord
  | ifWord | nilWord | orWord | printWord | returnWord | superWord | thisWord | trueWord
  | varWord | whileWord
  | identifier | number | string
  | equalEqual | bangEqual | lessEqual | greaterEqual
  | plus | minus | star | slash | equal | less | greater | bang
  | leftParen | rightParen | leftBrace | rightBrace
  | semicolon | comma | dot
  | endOfInput
  | other (name : String)
  deriving DecidableEq, Repr, Inhabited

namespace Kind

/-- The keywords with their kinds. -/
def keywords : List (String × Kind) :=
  [("and", andWord), ("break", breakWord), ("class", classWord), ("continue", continueWord),
    ("else", elseWord), ("false", falseWord), ("for", forWord), ("fun", funWord), ("if", ifWord),
    ("nil", nilWord), ("or", orWord), ("print", printWord), ("return", returnWord),
    ("super", superWord), ("this", thisWord), ("true", trueWord), ("var", varWord),
    ("while", whileWord)]

/-- The kind of a word: a keyword's own, and otherwise an identifier. -/
def ofWord (word : String) : Kind := (keywords.lookup word).getD identifier

/-- The name by which a kind is shown. -/
def name : Kind → String
  | andWord => "AND" | breakWord => "BREAK" | classWord => "CLASS" | continueWord => "CONTINUE"
  | elseWord => "ELSE" | falseWord => "FALSE" | forWord => "FOR" | funWord => "FUN"
  | ifWord => "IF" | nilWord => "NIL" | orWord => "OR" | printWord => "PRINT"
  | returnWord => "RETURN" | superWord => "SUPER" | thisWord => "THIS" | trueWord => "TRUE"
  | varWord => "VAR" | whileWord => "WHILE"
  | identifier => "ID" | number => "NUMBER" | string => "STRING"
  | equalEqual => "EQ_EQ" | bangEqual => "NOT_EQ" | lessEqual => "LESS_EQ"
  | greaterEqual => "GREATER_EQ"
  | plus => "PLUS" | minus => "MINUS" | star => "MULT" | slash => "DIV" | equal => "EQ"
  | less => "LESS_THAN" | greater => "GREATER_THAN" | bang => "NOT"
  | leftParen => "LPAREN" | rightParen => "RPAREN" | leftBrace => "LCURLYEBR"
  | rightBrace => "RCURLYEBR"
  | semicolon => "SEMI_COLON" | comma => "COMMA" | dot => "DOT"
  | endOfInput => "EOF"
  | other name => name

/-- Every kind that has a name of its own. -/
def named : List Kind :=
  [andWord, breakWord, classWord, continueWord, elseWord, falseWord, forWord, funWord, ifWord,
    nilWord, orWord, printWord, returnWord, superWord, thisWord, trueWord, varWord, whileWord,
    identifier, number, string, equalEqual, bangEqual, lessEqual, greaterEqual, plus, minus, star,
    slash, equal, less, greater, bang, leftParen, rightParen, leftBrace, rightBrace, semicolon,
    comma, dot, endOfInput]

/-- The kind shown by a name; a name that no kind has belongs to an `other` one. -/
def ofName (s : String) : Kind := (named.find? fun k => k.name = s).getD (other s)

/-- The kinds of two characters, tried before those of one. -/
def ofPair? : Char → Char → Option Kind
  | '=', '=' => some equalEqual
  | '!', '=' => some bangEqual
  | '<', '=' => some lessEqual
  | '>', '=' => some greaterEqual
  | _, _ => none

/-- The kinds of one character. -/
def ofChar? : Char → Option Kind
  | '+' => some plus
  | '-' => some minus
  | '*' => some star
  | '/' => some slash
  | '=' => some equal
  | '<' => some less
  | '>' => some greater
  | '!' => some bang
  | '(' => some leftParen
  | ')' => some rightParen
  | '\x7b' => some leftBrace
  | '\x7d' => some rightBrace
  | ';' => some semicolon
  | ',' => some comma
  | '.' => some dot
  | _ => none

/-- The keywords that begin a declaration or a statement; after an error, reading goes on before
one of them. -/
def beginsStatement : Kind → Bool
  | classWord | funWord | varWord | forWord | ifWord | whileWord | printWord | returnWord => true
  | _ => false

end Kind

/-- A value that can be written down in a program. -/
inductive Literal where
  | nil
  | bool (b : Bool)
  | number (x : Float)
  | string (s : String)
  deriving Repr, Inhabited

/-- A token: what it is, how it was written, the value it denotes (`nil` unless it is a number or a
string) and the line on which it ends. -/
structure Token where
  kind : Kind
  lexeme : String
  literal : Literal
  line : Nat
  deriving Repr, Inhabited

/-- The token that stands for the end of the text on its last line. -/
def Token.endOfInput (line : Nat) : Token := ⟨.endOfInput, "", .nil, line⟩

end LoxLang
