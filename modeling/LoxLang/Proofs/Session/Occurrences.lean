/-
LoxLang.Proofs.Session.Occurrences: the references of all programs that a session reads.

Distances are kept by site.  That a distance belongs to one reference rests on two facts: no tree
has a site twice, although a `for` loop copies its increment, and no two trees of a session share
one.  Then the walk never comes to a reference that has a distance already, and what it records
stays.

* `Move.tokens?`: what a move reads.
* `Session.programs`: the programs that are read in the course of a history.

Main statement: `occurrences_distinct`.
-/
import LoxLang.Proofs.Session.History

namespace LoxLang

/-! ## The walk -/

/-- What the walk over an item records is recorded for its own references. -/
theorem Visit.later (v : Visit) : v.walk.Later v.item.sites v.after := by
  obtain ⟨around, levels, item, w⟩ := v
  cases item with
  | expr e => exact .of_step (step_bindExpr around e w)
  | stmt s => exact .of_step (step_bindStmt around s w)
  | stmts ss => exact .of_step (step_bindStmts around ss w)
  | header cls fault ref => exact .of_step (step_bindParent around cls fault ref w)

namespace Edition

variable {ed : Edition} {v : Visit}

/-- What was recorded before the walk comes to an item is recorded behind the item, and in the
end. -/
theorem Visits.kept (visits : ed.Visits v) (distinct : ed.Distinct) (fresh : ed.Fresh)
    {site : Site} {d : Nat} (recorded : v.walk.distances.get? site = some d) :
    v.after.distances.get? site = some d ∧ ed.table.get? site = some d := by
  obtain ⟨before, behind, perm, into, out⟩ := visits.holds
  have apart : site ∉ v.item.sites := fun mem => by
    rw [visits.unrecorded distinct fresh mem] at recorded
    cases recorded
  have still : v.after.distances.get? site = some d :=
    (v.later.distances site apart).trans recorded
  refine ⟨still, (out.distances site fun later => ?_).trans still⟩
  -- A reference behind the item has no distance yet.
  have nodup : (before ++ (v.item.sites ++ behind)).Nodup := perm.nodup_iff.mpr distinct
  have unrecorded : v.walk.distances.get? site = none := by
    rw [into.distances site fun earlier => ?_]
    · exact fresh site (perm.subset (by simp [later]))
    · exact (List.nodup_append.mp nodup).2.2 site earlier site (by simp [later]) rfl
  rw [unrecorded] at recorded
  cases recorded

end Edition

/-! ## Histories -/

/-- The tokens that a move reads, if it reads any, and the line on which they end. -/
def Move.tokens? : Move → Option (List Token × Nat)
  | run source | runLine source | check source | read source =>
    some ((Scan.ofString source).tokens, (Scan.ofString source).endLine)
  | force tokens endLine => some (tokens, endLine)
  | say _ | resetFlags | clearTranscript => none

namespace Session

/-- What a move reads, as the session binds it. -/
def edition? (s : Session) (move : Move) : Option Edition :=
  move.tokens?.map fun (tokens, endLine) => s.edition tokens endLine

/-- The programs that are read in the course of a history. -/
def programs (s : Session) : List Move → List Program
  | [] => []
  | move :: history =>
    ((s.edition? move).map Edition.program).toList ++ (move.play s).2.programs history

/-- What becomes of the sites and the distances when a move reads tokens. -/
structure Took (s : Session) (tokens : List Token) (endLine : Nat) (s' : Session) : Prop where
  sites : s'.nextSite = (s.reading tokens endLine).nextSite
  distances : s'.distances = s.distances ∨ s'.distances = (s.edition tokens endLine).table

variable {s s' : Session} {tokens : List Token} {endLine : Nat}

theorem Checked.took {source : String} (checked : s.Checked source s') :
    s.Took (Scan.ofString source).tokens (Scan.ofString source).endLine s' := by
  cases checked with
  | unbound _ _ sites distances _ => exact ⟨sites, .inl distances⟩
  | bound _ _ sites distances _ => exact ⟨sites, .inr distances⟩

theorem Took.execute (took : s.Took tokens endLine s') (program : Program) :
    s.Took tokens endLine (execute program s').2 := by
  obtain ⟨_, _, run⟩ := run_execute program s'
  rw [run]
  exact ⟨took.sites, took.distances⟩

theorem Took.executeLine (took : s.Took tokens endLine s') (program : Program) :
    s.Took tokens endLine (executeLine program s').2 := by
  have echoed (e : Expr Distance) : s.Took tokens endLine (echo e s').2 := by
    obtain ⟨_, _, _, run⟩ := run_echo e s'
    rw [run]
    exact ⟨took.sites, took.distances⟩
  obtain ⟨behind, line, takes⟩ : ∃ behind : List (Stmt Distance) → Dialogue (Option Failure),
      Session.executeLine program = prepared program >>= behind ∧
        ∀ ss, s.Took tokens endLine (behind ss s').2 := by
    refine ⟨_, rfl, fun ss => ?_⟩
    rcases ss with _ | ⟨first, _ | ⟨second, rest⟩⟩
    · exact took.execute program
    · cases first
      case expression e => exact echoed e
      all_goals exact took.execute program
    · cases first <;> exact took.execute program
  rw [line]
  exact takes _

/-- A move that reads tokens gives out their sites, and records their distances or none. -/
theorem took_play (s : Session) {move : Move} (reads : move.tokens? = some (tokens, endLine)) :
    s.Took tokens endLine (move.play s).2 := by
  cases move with
  | run source =>
    cases reads
    have checked := (s.check_outcome source).took
    show s.Took _ _ (Session.run source s).2
    rw [run_eq]
    split
    · exact ⟨checked.sites, checked.distances⟩
    · exact checked.execute _
  | runLine source =>
    cases reads
    have checked := (s.check_outcome source).took
    show s.Took _ _ (Session.runLine source s).2
    rw [runLine_eq]
    split
    · exact checked
    · exact checked.executeLine _
  | check source =>
    cases reads
    exact (s.check_outcome source).took
  | read source =>
    cases reads
    exact ⟨rfl, .inl rfl⟩
  | force tokens endLine =>
    cases reads
    have bound : s.Took tokens endLine
        (bind (s.edition tokens endLine).program
          { s with nextSite := (s.reading tokens endLine).nextSite }).2 := ⟨rfl, .inr rfl⟩
    exact bound.execute _
  | say _ | resetFlags | clearTranscript => cases reads

/-- The references of all programs of a history have sites of their own. -/
theorem fresh_programs (s : Session) (history : List Move) :
    LoxLang.Fresh s.nextSite (s.after history).nextSite
      (sitesOf ((s.programs history).flatMap Stmt.referencesAll)) := by
  induction history generalizing s with
  | nil => exact .nil
  | cons move history ih =>
    have rest := ih (move.play s).2
    have onward := ((move.play s).2.onward_after history).sites
    rw [programs, List.flatMap_append, sitesOf_append, after_cons]
    rcases reads : move.tokens? with _ | ⟨tokens, endLine⟩
    · rw [edition?, reads]
      exact rest.widen (s.played move).onward.sites (Nat.le_refl _)
    · obtain ⟨given, fresh⟩ := s.fresh_edition tokens endLine
      rw [← (s.took_play reads).sites] at given fresh
      rw [edition?, reads]
      refine Fresh.append ?_ rest given onward
      simpa using fresh

/-- A distance that was recorded for a reference is never taken back or overwritten. -/
theorem Numbered.kept (numbered : s.Numbered) {site : Site} {d : Nat}
    (recorded : s.distances.get? site = some d) (later : List Move) :
    (s.after later).distances.get? site = some d := by
  have given : site < s.nextSite := by
    refine Nat.lt_of_not_le fun beyond => ?_
    rw [numbered site beyond] at recorded
    cases recorded
  exact ((s.onward_after later).kept site given).trans recorded

/-- Each reference occurs once: in a tree that is read from tokens, and among all trees of a
session.  So the walk finds no distance for the references it is about to visit, keeps those it has
recorded, and what the session has recorded stays whatever happens next. -/
theorem occurrences_distinct (bounds : Bounds) (now : Clock) (history : List Move) :
    let s := (start bounds now).after history
    (∀ tokens endLine first,
      (sitesOf (Stmt.referencesAll (Program.ofTokens tokens endLine first).result)).Nodup) ∧
    (sitesOf (((start bounds now).programs history).flatMap Stmt.referencesAll)).Nodup ∧
    (∀ move ed, s.edition? move = some ed →
      ((move.play s).2.distances = s.distances ∨ (move.play s).2.distances = ed.table) ∧
      ∀ v, ed.Visits v →
        (∀ site ∈ v.item.sites, v.walk.distances.get? site = none) ∧
        ∀ site d, v.walk.distances.get? site = some d →
          v.after.distances.get? site = some d ∧ ed.table.get? site = some d) ∧
    ∀ later site d, s.distances.get? site = some d →
      (s.after later).distances.get? site = some d := by
  intro s
  have numbered : s.Numbered := numbered_after bounds now history
  refine ⟨fun tokens endLine first => ?_, ((start bounds now).fresh_programs history).nodup,
    fun move ed reads => ?_, fun later site d recorded => numbered.kept recorded later⟩
  · exact (reads_program (T := fun _ _ => True) tokens endLine first fun _ _ => trivial).2.2.nodup
  · rcases took : move.tokens? with _ | ⟨tokens, endLine⟩ <;> rw [edition?, took] at reads <;>
      cases reads
    have distinct := s.distinct_edition tokens endLine
    have fresh := numbered.fresh tokens endLine
    refine ⟨(s.took_play took).distances, fun v visits => ⟨?_, ?_⟩⟩
    · exact fun site mem => visits.unrecorded distinct fresh mem
    · exact fun site d recorded => visits.kept distinct fresh recorded

end Session

end LoxLang
