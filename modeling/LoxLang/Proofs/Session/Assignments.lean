/-
LoxLang.Proofs.Session.Assignments: what a session records for an assignment, and for a read in its
place.

The text of a session is read and bound as it stands, and again with a read of the variable in the
place of one of its assignments.  The two mean the same declaration at every position but one: where
the assignment stands in the initial value of the variable it assigns to, it means that variable,
and the read means the next one outwards, unless something there has read the variable before.

Main statement: `reads_agree_with_assignments`.
-/
import Mathlib
import LoxLang.Proofs.Binding.Unassigned
import LoxLang.Proofs.Session.History

namespace LoxLang

/-- A read in the place of an assignment is bound to the same declaration, in every text and
wherever it stands there.  It is not if it passes over the scope of the variable: then the
assignment means the variable itself, and the read the innermost of the scopes around it that has
the name. -/
theorem reads_agree_with_assignments (bounds : Bounds) (now : Clock) (history : List Move)
    (tokens : List Token) (endLine : Nat) (q : Position) :
    let ed := ((Session.start bounds now).after history).edition tokens endLine
    let ed' := ed.unassign q.ref.mark
    q ∈ ed.positions → q.role = .assign →
      ∃ p ∈ ed'.positions, p.ReadsFor q ∧
        (¬ p.PassesOver → ed'.table.get? q.ref.mark = ed.table.get? q.ref.mark) ∧
        (p.PassesOver → ed.table.get? q.ref.mark = some 0 ∧
          ed'.table.get? q.ref.mark ≠ some 0 ∧
          ∀ d, ed'.table.get? q.ref.mark = some d ↔ p.Lexical d) := by
  intro ed ed' mem role
  have distinct : ed.Distinct := Session.distinct_edition _ tokens endLine
  have fresh : ed.Fresh := (Session.numbered_after bounds now history).fresh tokens endLine
  obtain ⟨p, mem', reads⟩ := Edition.positions_unassign distinct mem role
  have assigned : ed.table.get? q.ref.mark = q.distance := ed.get?_table distinct fresh mem
  have read : ed'.table.get? q.ref.mark = p.distance := by
    rw [← reads.ref]
    exact ed'.get?_table distinct.unassign fresh.unassign mem'
  rw [assigned, read]
  refine ⟨p, mem', reads, (Position.distance_eq_iff reads role).mpr, fun passes => ?_⟩
  have itself : q.distance = some 0 := Position.distance_assign_of_passesOver reads role passes
  refine ⟨itself, ?_, p.distance_eq_some_iff passes.plain⟩
  rw [← itself]
  exact fun same => (Position.distance_eq_iff reads role).mp same passes

/-- A variable that is assigned to in its own initial value, inside a variable of the same name:
`\x7b var x; \x7b var x = x = nil; print x; \x7d print x; \x7d`. -/
def selfAssigned : List Token :=
  let word (kind : Kind) (lexeme : String) : Token := ⟨kind, lexeme, .nil, 1⟩
  [word .leftBrace "\x7b", word .varWord "var", word .identifier "x", word .semicolon ";",
    word .leftBrace "\x7b", word .varWord "var", word .identifier "x", word .equal "=",
    word .identifier "x", word .equal "=", word .nilWord "nil", word .semicolon ";",
    word .printWord "print", word .identifier "x", word .semicolon ";", word .rightBrace "\x7d",
    word .printWord "print", word .identifier "x", word .semicolon ";", word .rightBrace "\x7d"]

set_option maxRecDepth 2048 in
/-- Both the assignment and a read in its place are accepted.  The assignment means the inner
variable, and the read the outer one. -/
theorem reads_disagree_with_selfAssigned :
    let s := (Session.start ⟨0, 0⟩ 0).after []
    let ed := s.edition selfAssigned 1
    ∃ q ∈ ed.positions, q.role = .assign ∧ (s.reading selfAssigned 1).diagnostics = [] ∧
      ed.walked.complaints = [] ∧ (ed.unassign q.ref.mark).walked.complaints = [] ∧
      ed.table.get? q.ref.mark = some 0 ∧
      (ed.unassign q.ref.mark).table.get? q.ref.mark = some 1 := by
  intro s ed
  have distinct : ed.Distinct := s.distinct_edition selfAssigned 1
  have fresh : ed.Fresh := (Session.numbered_after ⟨0, 0⟩ 0 []).fresh selfAssigned 1
  let x (site : Site) : Reference Site := ⟨⟨.identifier, "x", .nil, 1⟩, site⟩
  have program : ed.program =
      [.block
        [.var (x 0).token none, .block [.var (x 0).token (some (.assign (x 0) (.literal .nil))),
        .print (.variable (x 1))], .print (.variable (x 2))]] := by
    cbv
  let q : Position :=
    ⟨.assign, ⟨⟨.identifier, "x", .nil, 1⟩, 0⟩, ⟨[["x"], ["x"]], false, some "x", false⟩⟩
  let p : Position := { q with role := .variable }
  let rest : List Position :=
    [⟨.variable, ⟨⟨.identifier, "x", .nil, 1⟩, 1⟩, ⟨[["x"], ["x"]], false, none, false⟩⟩,
      ⟨.variable, ⟨⟨.identifier, "x", .nil, 1⟩, 2⟩, ⟨[["x"]], false, none, false⟩⟩]
  have assigned : ed.positions = q :: rest := by
    rw [Edition.positions, program]
    rfl
  have read : (ed.unassign 0).positions = p :: rest := by
    rw [Edition.positions, Edition.unassign, program]
    rfl
  have mem : q ∈ ed.positions := assigned ▸ List.mem_cons_self
  have mem' : p ∈ (ed.unassign 0).positions := read ▸ List.mem_cons_self
  refine ⟨q, mem, rfl, ?_, ?_, ?_, ?_, ?_⟩
  · cbv
  · rw [Edition.walked, program]
    rfl
  · rw [Edition.walked, Edition.unassign, program]
    rfl
  · rw [ed.get?_table distinct fresh mem]
    rfl
  · exact ((ed.unassign 0).get?_table distinct.unassign fresh.unassign mem').trans rfl

/-- The theorem at the assignment of that text. -/
theorem reads_agree_with_assignments_selfAssigned :
    let ed := ((Session.start ⟨0, 0⟩ 0).after []).edition selfAssigned 1
    ∃ q ∈ ed.positions, q.role = .assign ∧
    ∃ p ∈ (ed.unassign q.ref.mark).positions, p.ReadsFor q := by
  intro ed
  obtain ⟨q, mem, role, _⟩ := reads_disagree_with_selfAssigned
  obtain ⟨p, mem', reads, _⟩ := reads_agree_with_assignments ⟨0, 0⟩ 0 [] selfAssigned 1 q mem role
  exact ⟨q, mem, role, p, mem', reads⟩

end LoxLang
