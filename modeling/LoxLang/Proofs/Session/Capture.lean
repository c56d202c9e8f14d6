/-
LoxLang.Proofs.Session.Capture: which declarations the increment of a `for` loop acts on.

The increment at the end of a loop body stands outside of the body; its copies stand inside, each in
front of the `continue` that it belongs to.  Every reference of a copy is bound to what the same
reference of the increment is bound to, with one exception: a name that the body has declared before
the `continue`, in a block that is still open there, captures the copies of all references to a
declaration outside of the body.

Main statement: `copies_bound_alike_iff`.
-/
import Mathlib
import LoxLang.Proofs.Binding.Copies
import LoxLang.Proofs.Binding.Outlooks
import LoxLang.Proofs.Session.History

namespace LoxLang

/-- What is recorded for the references of a copy, by what is recorded for those of the
increment. -/
structure BoundAlike (table : Distances) (outer inner : List (List String)) (p p' : Position) :
    Prop where
  role : p'.role = p.role
  token : p'.ref.token = p.ref.token
  /-- Both mean the same declaration, or both mean the same global, unless the copy is captured. -/
  same_iff : table.get? p'.ref.mark =
    (table.get? p.ref.mark).past (p.depth - outer.length) inner.length ↔ ¬ p.Captured outer inner

/-- A copy is seen from further inside than the increment. -/
theorem widens_of_copy {T : Kind → Token → Prop} {increment : Expr Site} {body : Stmt Site}
    {first : Site} (formed : (body.withIncrement increment first).1.Formed T) {o : Outlook}
    {c : Copy} (mem : c ∈ body.copies increment (o.enter []) first) :
    ∃ inner, c.outlook.scopes = inner ++ ((o.enter []).introduce body.introduces).scopes ∧
      List.Forall₂ (Position.Widens ((o.enter []).introduce body.introduces).scopes inner)
        (increment.positions ((o.enter []).introduce body.introduces)) c.positions := by
  have closed : body.introduces = [] := isClosed_of_copies increment formed mem
  obtain ⟨⟨n, copy⟩, inner, outlook⟩ := copies_inside increment body formed mem
  have widens : Outlook.Widens (o.enter []).scopes inner [] (o.enter []) c.outlook := by
    rw [outlook]
    exact ⟨rfl, rfl, fun own => absurd rfl own, rfl, rfl, rfl⟩
  rw [closed, Outlook.introduce_nil, Copy.positions, copy]
  exact ⟨inner, by rw [outlook]; rfl, widens_number increment n widens⟩

/-- The parts of a loop from which its references come. -/
theorem positions_loop (o : Outlook) (condition increment : Expr Site) (body : Stmt Site)
    (first : Site) :
    ((Stmt.whileLoop condition (loopBody (some increment) body first).1).positions o).Perm
      (condition.positions o ++ (body.positions (o.enter []) ++
        (body.copies increment (o.enter []) first).flatMap Copy.positions ++
          increment.positions ((o.enter []).introduce body.introduces))) := by
  refine .append_left _ ?_
  show (_ ++ (increment.positions ((o.enter []).introduce _) ++ [])).Perm _
  rw [List.append_nil, introduces_withIncrement]
  exact (positions_withIncrement increment body (o.enter []) first).append_right _

variable {ed : Edition} {v : Visit}

/-- A loop that is visited, with the increment and its copies. -/
theorem Edition.Visits.boundAlike {T : Kind → Token → Prop} (distinct : ed.Distinct)
    (fresh : ed.Fresh) (formed : Stmt.FormedAll T ed.program) (visits : ed.Visits v)
    {condition increment : Expr Site} {body : Stmt Site} {first : Site}
    (loop : v.item = .stmt (.whileLoop condition (loopBody (some increment) body first).1)) :
    ∃ o, v.Shows o ∧
      v.item.positions o ⊆ ed.positions ∧
      ∀ c ∈ body.copies increment (o.enter []) first, ∃ inner,
        c.outlook.scopes = inner ++ ((o.enter []).introduce body.introduces).scopes ∧
          List.Forall₂ (BoundAlike ed.table ((o.enter []).introduce body.introduces).scopes inner)
            (increment.positions ((o.enter []).introduce body.introduces)) c.positions := by
  obtain ⟨o, shows, inside⟩ := visits.shows
  refine ⟨o, shows, inside, fun c mem => ?_⟩
  have sound := (visits.sound formed).formed
  rw [loop] at inside sound
  obtain ⟨inner, between, widens⟩ := widens_of_copy sound.2.1.1 mem
  have parts := (positions_loop o condition increment body first).symm.subset
  refine ⟨inner, between, ?_⟩
  -- All references of the increment and of the copy are references of the program.
  have trailing : ∀ p ∈ increment.positions ((o.enter []).introduce body.introduces),
      ed.table.get? p.ref.mark = p.distance := fun p mem =>
    ed.get?_table distinct fresh (inside (parts (by simp [mem])))
  have copied : ∀ p ∈ c.positions, ed.table.get? p.ref.mark = p.distance := fun p mem' => by
    refine ed.get?_table distinct fresh (inside (parts ?_))
    have : p ∈ (body.copies increment (o.enter []) first).flatMap Copy.positions :=
      List.mem_flatMap.mpr ⟨c, mem, mem'⟩
    simp [this]
  rw [List.forall₂_iff_get] at widens ⊢
  refine ⟨widens.1, fun i h h' => ?_⟩
  have step := widens.2 i h h'
  refine ⟨step.role, step.token, ?_⟩
  rw [trailing _ (List.get_mem _ _), copied _ (List.get_mem _ _)]
  exact step.distance_eq_iff

/-- Every copy of the increment of a loop stands in front of a `continue`, further inside than the
increment itself.  A reference of the copy is bound to the declaration that the same reference of
the increment is bound to, or to the same global, if and only if no scope in between captures it:
none that has the name of a reference to the outside. -/
theorem copies_bound_alike_iff (bounds : Bounds) (now : Clock) (history : List Move)
    (tokens : List Token) (endLine : Nat) :
    let s := (Session.start bounds now).after history
    let ed := s.edition tokens endLine
    ∀ v, ed.Visits v → ∀ (condition increment : Expr Site) (body : Stmt Site) (first : Site),
      v.item = .stmt (.whileLoop condition (loopBody (some increment) body first).1) →
        ∃ o, v.Shows o ∧
          let behind := (o.enter []).introduce body.introduces
          let copies := body.copies increment (o.enter []) first
          (v.item.positions o).Perm (condition.positions o ++ (body.positions (o.enter []) ++
            copies.flatMap Copy.positions ++ increment.positions behind)) ∧
          v.item.positions o ⊆ ed.positions ∧
          ∀ c ∈ copies, ∃ inner, c.outlook.scopes = inner ++ behind.scopes ∧
            List.Forall₂ (BoundAlike ed.table behind.scopes inner) (increment.positions behind)
              c.positions := by
  intro s ed v visits condition increment body first loop
  have distinct : ed.Distinct := s.distinct_edition tokens endLine
  have fresh : ed.Fresh := (Session.numbered_after bounds now history).fresh tokens endLine
  have formed : Stmt.FormedAll (fun _ _ => True) ed.program :=
    (reads_program tokens endLine s.nextSite fun _ _ => trivial).1
  obtain ⟨o, shows, inside, alike⟩ := visits.boundAlike distinct fresh formed loop
  refine ⟨o, shows, ?_, inside, alike⟩
  rw [loop]
  exact positions_loop o condition increment body first

/-- A loop whose body declares the name that the increment assigns to. -/
def redeclaring : List Token :=
  let word (kind : Kind) (lexeme : String) : Token := ⟨kind, lexeme, .nil, 1⟩
  [word .forWord "for", word .leftParen "(", word .semicolon ";", word .semicolon ";",
    word .identifier "i", word .equal "=", word .nilWord "nil", word .rightParen ")",
    word .leftBrace "\x7b", word .varWord "var", word .identifier "i", word .semicolon ";",
    word .continueWord "continue", word .semicolon ";", word .rightBrace "\x7d"]

/-- The increment of that loop. -/
def redeclaring.increment : Expr Site :=
  .assign ⟨⟨.identifier, "i", .nil, 1⟩, 0⟩ (.literal .nil)

/-- The body of that loop. -/
def redeclaring.body : Stmt Site :=
  .block [.var ⟨.identifier, "i", .nil, 1⟩ none, .loopExit ⟨.continueWord, "continue", .nil, 1⟩]

/-- The copy in that loop assigns to the variable of the body, the increment to a global. -/
theorem copies_bound_alike_redeclaring :
    let ed := ((Session.start ⟨0, 0⟩ 0).after []).edition redeclaring 1
    ∃ p p' : Position, BoundAlike ed.table [[]] [[], ["i"]] p p' ∧ p.Captured [[]] [[], ["i"]] ∧
      ed.table.get? p'.ref.mark ≠ (ed.table.get? p.ref.mark).past (p.depth - 1) 2 := by
  have alike := copies_bound_alike_iff ⟨0, 0⟩ 0 [] redeclaring 1
  have program : (((Session.start ⟨0, 0⟩ 0).after []).edition redeclaring 1).program =
      [.whileLoop (.literal (.bool true))
        (loopBody (some redeclaring.increment) redeclaring.body 1).1] := by
    cbv
  dsimp only at alike ⊢
  generalize ((Session.start ⟨0, 0⟩ 0).after []).edition redeclaring 1 = ed at alike program ⊢
  let loop : Visit := ⟨.top ed.isGlobal, [], .stmt (.whileLoop (.literal (.bool true))
      (loopBody (some redeclaring.increment) redeclaring.body 1).1), .start ed.before⟩
  have visits : ed.Visits loop := by
    refine Relation.ReflTransGen.single ?_
    rw [Edition.root, program]
    exact .first
  obtain ⟨⟨scopes, inClass, own, reread⟩, ⟨agrees, _⟩, _, _, alike⟩ := alike loop visits _ _ _ _ rfl
  obtain rfl : scopes = [] := List.eq_nil_of_length_eq_zero agrees.height.symm
  obtain ⟨inner, between, pairs⟩ := alike _ (List.mem_singleton_self _)
  have same : [[], ["i"]] ++ [[]] = inner ++ [[]] := between
  obtain rfl := List.append_cancel_right same
  let p : Position :=
    ⟨.assign, ⟨⟨.identifier, "i", .nil, 1⟩, 0⟩, ⟨[[]], inClass, none, false⟩⟩
  obtain ⟨p', _, pair, _, _⟩ := List.forall₂_cons_left_iff.mp pairs
  have pair : BoundAlike ed.table [[]] [[], ["i"]] p p' := pair
  have captured : p.Captured [[]] [[], ["i"]] := by
    have named : p.name ∈ ["i"] := by simp [p, Position.name, Reference.name]
    refine ⟨by simp [Position.IsStray, p], fun d found => ?_, ["i"], by simp, named⟩
    cases found
  exact ⟨p, p', pair, captured, fun same => pair.same_iff.mp same captured⟩

end LoxLang
