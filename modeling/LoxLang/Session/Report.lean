/-
LoxLang.Session.Report: what a session tells beside its output.

* `Note`: a line of the log, about the progress of a text through the stages.
* `Report`: a complaint or a note; both kinds keep their common order.
* `reportText`: the lines that are shown for reports, with the log or without.
-/
import LoxLang.Fault.Diagnostic

namespace LoxLang

/-- A line of the log. -/
inductive Note where
  /-- A text was scanned; the token for its end is counted too. -/
  | scanned (tokens : Nat)
  | parsed (statements : Nat)
  | bound (statements complaints : Nat)
  /-- A text was not run because of complaints about it. -/
  | skipped
  /-- A program was halted by a failure. -/
  | halted (message : String)
  deriving DecidableEq, Repr

/-- The wording of a note, with the stage that it is from. -/
def Note.text : Note → String
  | scanned n => "lexer: scanned " ++ toString n ++ " tokens"
  | parsed n => "parser: parsed " ++ toString n ++ " statements"
  | bound n k =>
    "resolver: resolved " ++ toString n ++ " statements, " ++ toString k ++ " errors"
  | skipped => "lox: static errors, skipping execution"
  | halted message => "interpreter: runtime error halted the program: " ++ message

/-- A complaint or a note. -/
inductive Report where
  | complaint (d : Diagnostic)
  | note (n : Note)
  deriving DecidableEq, Repr

/-- The complaint that a report is, if it is one. -/
def Report.diagnostic? : Report → Option Diagnostic
  | complaint d => some d
  | note _ => none

/-- The line that a report shows; notes are shown only with the log. -/
def Report.line? (withLog : Bool) : Report → Option String
  | complaint d => some d.text
  | note n => if withLog then some n.text else none

/-- The lines that reports show. -/
def reportText (withLog : Bool) (reports : List Report) : String :=
  String.join ((reports.filterMap (Report.line? withLog)).map (· ++ "\n"))

end LoxLang
