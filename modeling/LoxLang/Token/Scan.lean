/-
LoxLang.Token.Scan: the tokens and lexical complaints of a text.

Both are read off the list of segments in one walk that knows the line.  The line moves on behind a
run of newlines, a string and a block comment, and nothing else is searched for newlines.  What a
segment yields carries the line on which the segment ends, so a string that spans lines carries its
last one.

* `Segment.newlinesCounted`, `Segment.endLine`: by how much a segment moves the line on.
* `Segment.token?`, `Segment.diagnostic?`: what one segment yields.
* `Scan`: the tokens, the complaints and the last line of a text; `Scan.ofString` computes it.
-/
import LoxLang.Fault.Diagnostic
import LoxLang.Number.Nearest
import LoxLang.Number.Text
import LoxLang.Token.Segment

namespace LoxLang

/-- The number of newlines in a text. -/
def newlineCount (cs : List Char) : Nat := cs.count '\n'

/-- The newlines that are met on the way through the inside of a block comment, where the two
characters of an opening or a closing are passed at once. -/
def commentNewlines : List Char → Nat
  | [] => 0
  | '/' :: '*' :: cs => commentNewlines cs
  | '*' :: '/' :: cs => commentNewlines cs
  | c :: cs => commentNewlines cs + if c = '\n' then 1 else 0

/-- By how many lines a segment moves the line on: by the length of a run of newlines, and by the
newlines in a string or in a block comment behind its opening. -/
def Segment.newlinesCounted : Segment → Nat
  | .newlines run => run.length
  | .blockComment text => commentNewlines (text.drop 2)
  | .token .string text | .openString text => newlineCount text
  | _ => 0

/-- The line on which a segment ends that begins on the given one. -/
def Segment.endLine (s : Segment) (line : Nat) : Nat := line + s.newlinesCounted

/-- The number that a numeral denotes: the double nearest to its decimal value. -/
def numeralValue (cs : List Char) : Float :=
  let whole := (cs.takeWhile (· ≠ '.')).filterMap Text.digitValue?
  let fraction := ((cs.dropWhile (· ≠ '.')).drop 1).filterMap Text.digitValue?
  Number.ofDecimal (Number.valueOf (whole ++ fraction)) (-(fraction.length : Int))

/-- The value that a token denotes: a number, or the text between the quotes of a string. -/
def literalOf (kind : Kind) (lexeme : List Char) : Literal :=
  match kind with
  | .number => .number (numeralValue lexeme)
  | .string => .string (String.ofList (lexeme.drop 1).dropLast)
  | _ => .nil

/-- The token that a segment yields when it ends on a line. -/
def Segment.token? (line : Nat) : Segment → Option Token
  | .token kind lexeme => some ⟨kind, String.ofList lexeme, literalOf kind lexeme, line⟩
  | _ => none

/-- The complaint that a segment yields when it ends on a line. -/
def Segment.diagnostic? (line : Nat) : Segment → Option Diagnostic
  | .unexpected c => some (.onLine line (.lexical (.unexpectedCharacter c)))
  | .openString _ => some (.onLine line (.lexical .unterminatedString))
  | _ => none

/-- Pairs every segment with the line on which it ends. -/
def withEndLines (line : Nat) : List Segment → List (Segment × Nat)
  | [] => []
  | s :: rest => (s, s.endLine line) :: withEndLines (s.endLine line) rest

/-- What a scan finds in a text. -/
structure Scan where
  tokens : List Token
  diagnostics : List Diagnostic
  /-- The line on which the text ends. -/
  endLine : Nat

/-- Reads tokens and complaints off the segments of a text; the first line is line one. -/
def Scan.ofSegments (segments : List Segment) : Scan :=
  let located := withEndLines 1 segments
  { tokens := located.filterMap fun (s, line) => s.token? line
    diagnostics := located.filterMap fun (s, line) => s.diagnostic? line
    endLine := segments.foldl (fun line s => s.endLine line) 1 }

/-- Scans a text. -/
def Scan.ofString (source : String) : Scan := .ofSegments (segments source.toList)

/-- The tokens followed by the one that stands for the end. -/
def Scan.allTokens (s : Scan) : List Token := s.tokens ++ [.endOfInput s.endLine]

end LoxLang
