/-
LoxLang.Tree.Cursor: the position of a reader of tokens.

A reader consumes tokens one by one and looks at no more than the next.  It complains as it goes
and gives up at the first fault; whoever called it may skip ahead and go on.

* `Cursor`: the tokens left, the next free site and the complaints so far.
* `Read`: a computation that moves a cursor and may give up.
* `peek`, `takeIf`, `take?`, `expect`, `expectName`: the moves.
* `Cursor.skipFaulty`: where reading goes on after a fault.
-/
import LoxLang.Fault.Diagnostic
import LoxLang.Tree.Basic

namespace LoxLang

/-- The state of a reader. -/
structure Cursor where
  /-- The tokens not consumed yet, without the one that stands for the end. -/
  rest : List Token
  /-- The line on which the text ends. -/
  endLine : Nat
  nextSite : Site
  diagnostics : List Diagnostic

/-- Why a reader gave up. -/
inductive GaveUp where
  /-- The tokens are no phrase of the grammar; this has been complained about. -/
  | atFault
  /-- The bound on nesting was too small for the text. -/
  | atBound
  deriving DecidableEq, Repr

/-- A computation that reads tokens. -/
abbrev Read (α : Type) := ExceptT GaveUp (StateM Cursor) α

/-! ## Looking and moving -/

/-- The next token, which is the one for the end if none is left. -/
def Cursor.next (c : Cursor) : Token := c.rest.head?.getD (.endOfInput c.endLine)

/-- The next token. -/
def peek : Read Token := return (← get).next

/-- The next token is there and of the kind. -/
def Cursor.at (c : Cursor) (kind : Kind) : Bool := c.rest.head?.any (·.kind == kind)

/-- The next token is of the kind. -/
def isAt (kind : Kind) : Read Bool := return (← get).at kind

/-- No token is left. -/
def isAtEnd : Read Bool := return (← get).rest.isEmpty

/-- Consumes the next token if it is there and its kind is accepted. -/
def takeIf (accept : Kind → Bool) : Read (Option Token) := do
  let c ← get
  match c.rest with
  | [] => return none
  | t :: rest =>
    if accept t.kind then
      set { c with rest }
      return some t
    else return none

/-- Consumes the next token if it is of the kind. -/
def take? (kind : Kind) : Read (Option Token) := takeIf (· == kind)

/-- Marks a token with a site of its own. -/
def newReference (t : Token) : Read (Reference Site) :=
  modifyGet fun c => (⟨t, c.nextSite⟩, { c with nextSite := c.nextSite + 1 })

/-- Runs a computation that takes sites. -/
def withSites {α : Type} (act : StateM Site α) : Read α :=
  modifyGet fun c =>
    let (a, next) := act.run c.nextSite
    (a, { c with nextSite := next })

/-! ## Faults -/

/-- Gives up without a complaint because the nesting bound is spent. -/
def outOfBound {α : Type} : Read α := throw .atBound

/-- Complains about a token and gives up. -/
def failAt {α : Type} (t : Token) (fault : SyntaxFault) : Read α := do
  modify fun c => { c with diagnostics := c.diagnostics ++ [.onToken t (.grammatical fault)] }
  throw .atFault

/-- Complains about the next token and gives up. -/
def fail {α : Type} (fault : SyntaxFault) : Read α := do failAt (← peek) fault

/-- Consumes a token of the kind, or gives up with the fault. -/
def require (kind : Kind) (fault : SyntaxFault) : Read Token := do
  match ← take? kind with
  | some t => return t
  | none => fail fault

/-- Consumes a mark that has to stand at a place. -/
def expect (mark : Mark) (gap : Gap) : Read Token := require mark.kind (.missingMark mark gap)

/-- Consumes an identifier that names something. -/
def expectName (role : NameRole) : Read Token := require .identifier (.missingName role)

/-! ## Going on after a fault -/

/-- Skips at least one token, and then goes on skipping until just after a semicolon, or before a
keyword that begins a statement, or to the end. -/
def skipFaulty : List Token → List Token
  | [] => []
  | t :: rest =>
    if t.kind = .semicolon ∨ rest.head?.any (·.kind.beginsStatement) then rest
    else skipFaulty rest

/-- Reads a statement; if it is faulty, it is missing and reading goes on behind it. -/
def recovering (read : Read (Stmt Site)) : Read (Stmt Site) :=
  tryCatch read fun
    | .atFault => do
      modify fun c => { c with rest := skipFaulty c.rest }
      return .missing
    | .atBound => outOfBound

end LoxLang
