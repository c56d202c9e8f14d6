/-
LoxLang.Proofs.Session.Scoping: what a session records for the references of a text.

A reference means the innermost scope around it that has its name so far; a read in a variable's own
initial value passes over the scope of the variable.  The table says so for every reference of every
text, with one exception that `Position.Reread` describes: once a routine in the initial value has
read the variable, the next read there is bound to the variable itself, though the scope should have
been passed over as before.

Main statement: `distances_lexical`.
-/
import Mathlib
import LoxLang.Proofs.Binding.Recorded
import LoxLang.Proofs.Session.History

namespace LoxLang

variable {ed : Edition} {p : Position}

/-- A reference that is not reread has the distance of the innermost scope with its name. -/
theorem Edition.get?_table_iff (distinct : ed.Distinct) (fresh : ed.Fresh) (mem : p ∈ ed.positions)
    (plain : ¬ p.Reread) (d : Nat) : ed.table.get? p.ref.mark = some d ↔ p.Lexical d := by
  rw [ed.get?_table distinct fresh mem]
  exact p.distance_eq_some_iff plain d

/-- A reference has no distance if and only if no scope has its name. -/
theorem Edition.get?_table_eq_none_iff (distinct : ed.Distinct) (fresh : ed.Fresh)
    (mem : p ∈ ed.positions) (plain : ¬ p.Reread) :
    ed.table.get? p.ref.mark = none ↔ ∀ d, ¬ p.Lexical d := by
  rw [Option.eq_none_iff_forall_ne_some]
  exact forall_congr' fun d => not_congr (Edition.get?_table_iff distinct fresh mem plain d)

/-- Every reference of a text has a position, and the table says which scope it means: the innermost
one that has the name so far, unless the reference is reread.  What was recorded when the walk left
a node stays, through the rest of the text and whatever happens in the session later. -/
theorem distances_lexical (bounds : Bounds) (now : Clock) (history : List Move)
    (tokens : List Token) (endLine : Nat) :
    let s := (Session.start bounds now).after history
    let ed := s.edition tokens endLine
    (occurrencesOf ed.positions).Perm (Stmt.referencesAll ed.program) ∧
      (∀ p ∈ ed.positions, ¬ p.Reread → ∀ d, ed.table.get? p.ref.mark = some d ↔ p.Lexical d) ∧
      (∀ p ∈ ed.positions, ¬ p.Reread →
        (ed.table.get? p.ref.mark = none ↔ ∀ d, ¬ p.Lexical d)) ∧
      (∀ p ∈ ed.positions, p.Reread → ed.table.get? p.ref.mark = some 0 ∧ ¬ p.Lexical 0) ∧
      (∀ v, ed.Visits v → ∀ site ∈ v.item.sites,
        ed.table.get? site = v.after.distances.get? site) ∧
      ∀ later, ∀ site ∈ sitesOf (Stmt.referencesAll ed.program),
        (s.after (.force tokens endLine :: later)).distances.get? site = ed.table.get? site := by
  intro s ed
  have distinct : ed.Distinct := s.distinct_edition tokens endLine
  have fresh : ed.Fresh := (Session.numbered_after bounds now history).fresh tokens endLine
  refine ⟨positions_stmts .top ed.program, fun p mem plain d => ?_, fun p mem plain => ?_,
    fun p mem reread => ?_, fun v visits site mem => ?_, fun later site mem => ?_⟩
  · exact Edition.get?_table_iff distinct fresh mem plain d
  · exact Edition.get?_table_eq_none_iff distinct fresh mem plain
  · rw [ed.get?_table distinct fresh mem]
    exact p.distance_of_reread reread
  · exact visits.recorded distinct mem
  · exact s.get?_after tokens endLine later mem

/-- A variable that is compared with a routine that reads it, in its own initial value. -/
def selfCompared : List Token :=
  let word (kind : Kind) (lexeme : String) : Token := ⟨kind, lexeme, .nil, 1⟩
  [word .leftBrace "\x7b", word .varWord "var", word .identifier "x", word .equal "=",
    word .leftParen "(", word .funWord "fun", word .leftParen "(", word .rightParen ")",
    word .leftBrace "\x7b", word .returnWord "return", word .identifier "x", word .semicolon ";",
    word .rightBrace "\x7d", word .rightParen ")", word .equalEqual "==", word .identifier "x",
    word .semicolon ";", word .rightBrace "\x7d"]

/-- The right side of the comparison is bound to the variable itself, against the rule. -/
theorem distances_selfCompared :
    let ed := ((Session.start ⟨0, 0⟩ 0).after []).edition selfCompared 1
    ∃ p ∈ ed.positions, p.Reread ∧ ed.table.get? p.ref.mark = some 0 ∧ ¬ p.Lexical 0 := by
  intro ed
  have positions : ed.positions =
      [⟨.variable, ⟨⟨.identifier, "x", .nil, 1⟩, 0⟩, ⟨[[], ["x"]], false, none, false⟩⟩,
        ⟨.variable, ⟨⟨.identifier, "x", .nil, 1⟩, 1⟩, ⟨[["x"]], false, some "x", true⟩⟩] := by
    cbv
  let p : Position :=
    ⟨.variable, ⟨⟨.identifier, "x", .nil, 1⟩, 1⟩, ⟨[["x"]], false, some "x", true⟩⟩
  have mem : p ∈ ed.positions := by simp [positions, p]
  have reread : p.Reread := ⟨⟨rfl, rfl⟩, rfl, ["x"], rfl, by decide⟩
  exact ⟨p, mem, reread, (distances_lexical ⟨0, 0⟩ 0 [] selfCompared 1).2.2.2.1 p mem reread⟩

end LoxLang
