/-
LoxLang.Fault.Diagnostic: complaints with their place in the text, and failures of a run.

* `Fault`: a cause of any of the five groups.
* `Diagnostic`: a fault with its line and place, as it is reported.
* `Failure`: how a run ends early.  A run that nests too deeply, and one that was stopped by the
  bound on loop turns, are failures of their own and carry no token.
-/
import LoxLang.Fault.Basic

namespace LoxLang

/-- A cause of a complaint. -/
inductive Fault where
  | lexical (fault : LexicalFault)
  | grammatical (fault : SyntaxFault)
  | binding (fault : BindingFault)
  | runtime (fault : RuntimeFault)
  | internal (fault : InternalFault)
  deriving DecidableEq, Repr

/-- The wording of a fault. -/
def Fault.message : Fault → String
  | lexical f => f.message
  | grammatical f => f.message
  | binding f => f.message
  | runtime f => f.message
  | internal f => f.message

/-- Where in its line a complaint points. -/
inductive Place where
  | unspecified
  | atEnd
  | atLexeme (lexeme : String)
  deriving DecidableEq, Repr

/-- The words for a place; they follow the word `Error`. -/
def Place.text : Place → String
  | unspecified => ""
  | atEnd => " at end"
  | atLexeme lexeme => " at '" ++ lexeme ++ "'"

/-- A complaint about a token points at it, or at the end if it stands for the end. -/
def Place.ofToken (t : Token) : Place := if t.kind = .endOfInput then atEnd else atLexeme t.lexeme

/-- A reported complaint. -/
structure Diagnostic where
  line : Nat
  place : Place
  fault : Fault
  deriving DecidableEq, Repr

namespace Diagnostic

/-- A complaint about a line. -/
def onLine (line : Nat) (fault : Fault) : Diagnostic := ⟨line, .unspecified, fault⟩

/-- A complaint about a token. -/
def onToken (t : Token) (fault : Fault) : Diagnostic := ⟨t.line, Place.ofToken t, fault⟩

/-- The wording of the complaint itself. -/
def message (d : Diagnostic) : String := d.fault.message

/-- The line that is shown for a complaint. -/
def text (d : Diagnostic) : String :=
  "[line " ++ toString d.line ++ "] Error" ++ d.place.text ++ ": " ++ d.message

end Diagnostic

/-- How a run ends early. -/
inductive Failure where
  /-- The program did something that fails; the token is the one to blame, if there is one. -/
  | runtime (token : Option Token) (fault : RuntimeFault)
  /-- A promise of the static rules was broken. -/
  | internal (token : Option Token) (fault : InternalFault)
  /-- The nesting bound was reached; the innermost call in progress turns it into a fault. -/
  | overflow
  /-- The bound on the turns of one loop was reached. -/
  | unfinished
  deriving Repr

/-- The line to blame for a failure at a token; zero without one. -/
def Failure.lineOf (token : Option Token) : Nat := (token.map Token.line).getD 0

/-- The complaint that reports a failure; a run that was stopped is not complained about. -/
def Failure.diagnostic? : Failure → Option Diagnostic
  | runtime token fault => some (.onLine (lineOf token) (.runtime fault))
  | internal token fault => some (.onLine (lineOf token) (.internal fault))
  | overflow => some (.onLine 0 (.runtime .stackOverflow))
  | unfinished => none

end LoxLang
