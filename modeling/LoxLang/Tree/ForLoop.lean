/-
LoxLang.Tree.ForLoop: `for` loops in terms of `while` loops.

`for (init; condition; increment) body` runs as a block with the initial statement and a `while`
loop whose body ends with the increment.  A `continue` in the body would skip it, so a copy of the
increment is put in front of every `continue` that belongs to this loop; a `break` leaves the
increment out.  Nested loops and routines keep their own loop exits.  Each copy has sites of its
own, since the same name may be bound at another distance where it stands.

* `Stmt.withIncrement`: a body with its copies.
* `forLoop`: the whole construct.
-/
import LoxLang.Tree.Marks

namespace LoxLang

mutual

/-- Puts a copy of the increment in front of every `continue` of the loop that this is the body
of. -/
def Stmt.withIncrement (increment : Expr Site) : Stmt Site → StateM Site (Stmt Site)
  | .block body => return .block (← Stmt.withIncrementAll increment body)
  | .loopExit keyword =>
    if keyword.isBreak then return .loopExit keyword
    else return .block [.expression (← increment.number), .loopExit keyword]
  | .ifElse c t none => return .ifElse c (← t.withIncrement increment) none
  | .ifElse c t (some e) =>
    return .ifElse c (← t.withIncrement increment) (some (← e.withIncrement increment))
  | s => return s

def Stmt.withIncrementAll (increment : Expr Site) :
    List (Stmt Site) → StateM Site (List (Stmt Site))
  | [] => return []
  | s :: ss => return (← s.withIncrement increment) :: (← Stmt.withIncrementAll increment ss)

end

/-- The body of the `while` loop: the increment follows the body and every `continue` in it. -/
def loopBody (increment : Option (Expr Site)) (body : Stmt Site) : StateM Site (Stmt Site) :=
  match increment with
  | none => return body
  | some e => return .block [← body.withIncrement e, .expression e]

/-- The `while` loop that a `for` loop stands for.  Without a condition it runs for ever, and
without an initial statement it needs no block around it. -/
def forLoop (init : Option (Stmt Site)) (condition : Option (Expr Site))
    (increment : Option (Expr Site)) (body : Stmt Site) : StateM Site (Stmt Site) := do
  let loop := Stmt.whileLoop (condition.getD (.literal (.bool true))) (← loopBody increment body)
  match init with
  | none => return loop
  | some s => return .block [s, loop]

end LoxLang
