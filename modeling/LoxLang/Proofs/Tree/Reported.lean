/-
LoxLang.Proofs.Tree.Reported: complaints of the readers and holes in what they yield.

A reader that gives up has complained, and the declaration in which it gave up becomes a hole.  One
that succeeds has complained exactly if there is a hole inside of its result: no construct loses the
holes of its parts, whether it moves them to other places or copies them.

* `Cursor.Heard`: a later position, with or without new complaints.
* `Reveals`: what a reader with a number of tokens left comes to.
* `Reveals.andThen`, `Reveals.takeIf`, `Reveals.require`: one reader after another.

Main statements: `reveals_all`, `complained_iff_holed`.
-/
import LoxLang.Proofs.Tree.Exact
import LoxLang.Proofs.Tree.Holes
import LoxLang.Proofs.Tree.Reading

namespace LoxLang

/-- A later position of a cursor; `noisy` says whether there are new complaints. -/
structure Cursor.Heard (c c' : Cursor) (noisy : Bool) : Prop where
  rest : c'.rest.length ≤ c.rest.length
  complaints : c.diagnostics.length ≤ c'.diagnostics.length
  new : c.diagnostics.length < c'.diagnostics.length ↔ noisy = true

namespace Cursor.Heard

variable {c c' c'' : Cursor} {p q : Bool}

/-- What is heard on the way is what is heard on either part of it. -/
theorem trans (first : c.Heard c' p) (second : c'.Heard c'' q) : c.Heard c'' (p || q) where
  rest := Nat.le_trans second.rest first.rest
  complaints := Nat.le_trans first.complaints second.complaints
  new := by
    have kept := first.complaints
    have kept' := second.complaints
    rw [Bool.or_eq_true, ← first.new, ← second.new]
    omega

/-- A move without complaints. -/
theorem quiet (rest : c'.rest.length ≤ c.rest.length) (same : c.diagnostics = c'.diagnostics) :
    c.Heard c' false := ⟨rest, by simp [same], by simp [same]⟩

/-- Standing still, nothing is heard. -/
theorem refl (c : Cursor) : c.Heard c false := .quiet (Nat.le_refl _) rfl

end Cursor.Heard

/-! ## Readers -/

section Readers

variable {α β : Type}

/-- What a reader comes to: its result, the numbers of tokens left before and afterwards, and
whether it complained. -/
abbrev Verdict (α : Type) := α → Nat → Nat → Bool → Prop

/-- If the number of tokens left lies between two bounds, then a reader succeeds as told or gives up
with a complaint; the bound on nesting is not spent. -/
def Reveals (least bound : Nat) (read : Read α) (P : Verdict α) : Prop :=
  ∀ c, least ≤ c.rest.length → c.rest.length < bound → Ends read c
    (fun a c' => ∃ noisy, c.Heard c' noisy ∧ P a c.rest.length c'.rest.length noisy)
    (fun e c' => e = .atFault ∧ c.Heard c' true)

/-- A token was consumed, and the complaints are told by the holes of the result. -/
abbrev Bears (holed : α → Bool) : Verdict α := fun a before after noisy =>
  after < before ∧ noisy = holed a

/-- The complaints are told by the holes of the result. -/
abbrev Shows (holed : α → Bool) : Verdict α := fun a before after noisy =>
  after ≤ before ∧ noisy = holed a

namespace Reveals

variable {l l' k k' : Nat} {read : Read α} {next : α → Read β} {P P' : Verdict α} {Q : Verdict β}

/-- Less may be asked of the cursor, and less told of the result. -/
theorem mono (h : Reveals l k read P) (le : l ≤ l') (le' : k' ≤ k)
    (implies : ∀ a before after noisy, P a before after noisy → P' a before after noisy) :
    Reveals l' k' read P' := by
  intro c enough few
  refine (h c (by omega) (by omega)).mono ?_ fun _ _ err => err
  rintro a c' - ⟨noisy, heard, verdict⟩
  exact ⟨noisy, heard, implies _ _ _ _ verdict⟩

/-- With fewer tokens left there is less to show. -/
theorem fewer (h : Reveals l k read P) (le' : k' ≤ k) : Reveals l k' read P :=
  h.mono (Nat.le_refl l) le' fun _ _ _ _ verdict => verdict

/-- What is yielded at once was read in silence, and nothing was consumed. -/
theorem pure {a : α} (h : ∀ n, P a n n false) : Reveals l k (Pure.pure a) P :=
  fun c _ _ => ⟨false, .refl c, h _⟩

/-- One reader after another. -/
theorem andThen (first : Reveals l k read P)
    (shrinks : ∀ a before mid noisy, P a before mid noisy → l ≤ before → mid ≤ before →
      before < k → l' ≤ mid ∧ mid < k')
    (second : ∀ a, Reveals l' k' (next a) fun b mid after q =>
      ∀ before p, P a before mid p → Q b before after (p || q)) :
    Reveals l k (read >>= next) Q := by
  intro c enough few
  refine (first c enough few).bind ?_ fun _ _ err => err
  rintro a c' - ⟨p, heard, verdict⟩
  obtain ⟨enough', few'⟩ := shrinks a _ _ p verdict enough heard.rest few
  refine (second a c' enough' few').mono ?_ ?_
  · rintro b c'' - ⟨q, heard', verdict'⟩
    exact ⟨p || q, heard.trans heard', verdict' _ _ verdict⟩
  · rintro e c'' ⟨fault, heard'⟩
    exact ⟨fault, by simpa using heard.trans heard'⟩

/-- Another reader after one that need not consume a token. -/
theorem andThen' (first : Reveals l k read P)
    (second : ∀ a, Reveals 0 k (next a) fun b mid after q =>
      ∀ before p, P a before mid p → Q b before after (p || q)) :
    Reveals l k (read >>= next) Q :=
  first.andThen (fun _ _ _ _ _ _ _ _ => by omega) second

/-- Another reader after one that consumes a token. -/
theorem consuming {holed : α → Bool} (first : Reveals l k read (Bears holed))
    (second : ∀ a, Reveals 0 (k - 1) (next a) fun b mid after q =>
      ∀ before, mid < before → Q b before after (holed a || q)) :
    Reveals l k (read >>= next) Q := by
  refine first.andThen ?_ fun a => (second a).mono (Nat.le_refl _) (Nat.le_refl _) ?_
  · rintro a before mid noisy ⟨less, -⟩ _ _ few
    omega
  · rintro b mid after q verdict before p ⟨less, rfl⟩
    exact verdict before less

/-- What is made of a result shows the same. -/
theorem map {f : α → β} (h : Reveals l k read P)
    (implies : ∀ a before after noisy, P a before after noisy → Q (f a) before after noisy) :
    Reveals l k (f <$> read) Q := by
  rw [map_eq_pure_bind]
  refine h.andThen' fun a => .pure fun n before p verdict => ?_
  rw [Bool.or_false]
  exact implies _ _ _ _ verdict

/-! ### Looking, moving and giving up -/

/-- A token may follow. -/
theorem takeIf {accept : Kind → Bool} {next : Option Token → Read β}
    (without : Reveals l k (next none) Q)
    (with_ : ∀ t, accept t.kind = true → Reveals (l - 1) (k - 1) (next (some t))
      fun b before after noisy => Q b (before + 1) after noisy) :
    Reveals l k (LoxLang.takeIf accept >>= next) Q := by
  refine fun c enough few => ends_takeIf (fun _ => without c enough few) fun t ts next fits => ?_
  rw [next, List.length_cons] at enough few
  have moved : c.Heard { c with rest := ts } false :=
    .quiet (by simp [next]) rfl
  have enough' : l - 1 ≤ ts.length := by omega
  have few' : ts.length < k - 1 := by omega
  refine (with_ t fits { c with rest := ts } enough' few').mono ?_ ?_
  · rintro b c' - ⟨noisy, heard, verdict⟩
    refine ⟨noisy, by simpa using moved.trans heard, ?_⟩
    rw [next, List.length_cons]
    exact verdict
  · rintro e c' ⟨fault, heard⟩
    exact ⟨fault, by simpa using moved.trans heard⟩

/-- A reader that gives up has complained. -/
theorem failAt {t : Token} {fault : SyntaxFault} : Reveals l k (LoxLang.failAt t fault) P := by
  intro c _ _
  exact ⟨rfl, Nat.le_refl _, by simp, by simp⟩

theorem fail {fault : SyntaxFault} : Reveals l k (LoxLang.fail fault) P := by
  intro c enough few
  have failed : Reveals l k (LoxLang.failAt c.next fault) P := failAt
  exact failed c enough few

/-- And it does not go on. -/
theorem failThen {fault : SyntaxFault} : Reveals l k (LoxLang.fail fault >>= next) Q := by
  have failed : Reveals l k (LoxLang.fail fault) fun (_ : α) _ _ _ => False := fail
  have unreached (a : α) : Reveals 0 0 (next a) fun b mid after q =>
      ∀ before p, False → Q b before after (p || q) := fun c _ few => absurd few (Nat.not_lt_zero _)
  exact failed.andThen (fun _ _ _ _ never => never.elim) unreached

/-- The bound is only spent where no token is left. -/
theorem outOfBound (h : k = 0) : Reveals l k (LoxLang.outOfBound : Read α) P := by
  intro c _ few
  omega

/-- A token has to follow. -/
theorem require {kind : Kind} {fault : SyntaxFault} {next : Token → Read β}
    (with_ : ∀ t, t.kind = kind → Reveals (l - 1) (k - 1) (next t)
      fun b before after noisy => Q b (before + 1) after noisy) :
    Reveals l k (LoxLang.require kind fault >>= next) Q := by
  unfold LoxLang.require
  rw [bind_assoc]
  refine .takeIf ?_ fun t ok => ?_
  · exact failThen
  · rw [pure_bind]
    exact with_ t (beq_iff_eq.mp ok)

/-- An expected mark is one token less, or a complaint. -/
theorem expect {mark : Mark} {gap : Gap} {next : Token → Read β}
    (with_ : ∀ t, t.kind = mark.kind → Reveals (l - 1) (k - 1) (next t)
      fun b before after noisy => Q b (before + 1) after noisy) :
    Reveals l k (LoxLang.expect mark gap >>= next) Q := require with_

/-- So is an expected name. -/
theorem expectName {role : NameRole} {next : Token → Read β}
    (with_ : ∀ t, t.kind = .identifier → Reveals (l - 1) (k - 1) (next t)
      fun b before after noisy => Q b (before + 1) after noisy) :
    Reveals l k (LoxLang.expectName role >>= next) Q := require with_

/-- To look is silent, whatever is seen. -/
theorem isAt {kind : Kind} {next : Bool → Read β} (h : ∀ b, Reveals l k (next b) Q) :
    Reveals l k (LoxLang.isAt kind >>= next) Q :=
  fun c enough few => h (c.at kind) c enough few

/-- Where the text has not ended there is a token left. -/
theorem isAtEnd {next : Bool → Read β} (ended : Reveals l k (next true) Q)
    (going : Reveals 1 k (next false) Q) : Reveals l k (LoxLang.isAtEnd >>= next) Q := by
  intro ⟨tokens, line, n, ds⟩ enough few
  cases tokens with
  | nil => exact ended ⟨[], line, n, ds⟩ enough few
  | cons t ts => exact going ⟨t :: ts, line, n, ds⟩ (Nat.le_add_left 1 _) few

theorem newReference {t : Token} {next : Reference Site → Read β}
    (h : ∀ ref, Reveals l k (next ref) Q) : Reveals l k (LoxLang.newReference t >>= next) Q := by
  intro c enough few
  have moved : c.Heard { c with nextSite := c.nextSite + 1 } false :=
    .quiet (Nat.le_refl _) rfl
  refine (h ⟨t, c.nextSite⟩ { c with nextSite := c.nextSite + 1 } enough few).mono ?_ ?_
  · rintro b c' - ⟨noisy, heard, verdict⟩
    exact ⟨noisy, by simpa using moved.trans heard, verdict⟩
  · rintro e c' ⟨fault, heard⟩
    exact ⟨fault, by simpa using moved.trans heard⟩

/-- To number a tree is silent. -/
theorem withSites {act : StateM Site α} (h : ∀ n before, P (act n).1 before before false) :
    Reveals l k (LoxLang.withSites act) P :=
  fun c _ _ => ⟨false, .quiet (Nat.le_refl _) rfl, h c.nextSite _⟩

/-- A part that is there. -/
theorem some {holed : α → Bool} (h : Reveals l k read (Shows holed)) :
    Reveals l k (Option.some <$> read) (Shows (Option.any holed)) :=
  h.map fun _ _ _ _ verdict => verdict

end Reveals

end Readers

/-! ## Rules -/

section Rules

/-- A statement that is no declaration is there, and its holes tell about the complaints. -/
abbrev Occupies (anywhere : Bool) : Verdict (Stmt Site) := fun s before after noisy =>
  after < before ∧ s ≠ .missing ∧ noisy = s.holed anywhere

variable {anywhere : Bool} {k : Nat} {expression : Read (Expr Site)}
  {statement declaration : Read (Stmt Site)}

/-- A list of names has no hole, and complains only if the reader gives up. -/
theorem reveals_parameters : ∀ (allowed k : Nat),
    Reveals 0 k (readParameters allowed) (Shows fun _ => false)
  | 0, _ => .fail
  | allowed + 1, k => by
    refine .expectName fun name _ => ?_
    refine .takeIf ?_ fun comma _ => ?_
    · exact .pure fun n => ⟨Nat.le_succ n, rfl⟩
    · exact (reveals_parameters allowed _).map fun ps before after noisy ⟨le, quiet⟩ =>
        ⟨by omega, quiet⟩

theorem reveals_parameterList (k : Nat) :
    Reveals 0 k readParameterList (Shows fun _ => false) := by
  refine .isAt fun closes => ?_
  cases closes with
  | true => exact .pure fun n => ⟨Nat.le_refl n, rfl⟩
  | false => exact reveals_parameters maxListed k

/-- Neither has a list of mixins. -/
theorem reveals_mixins : ∀ {turns k : Nat}, k ≤ turns →
    Reveals 0 k (readMixins turns) (Shows fun _ => false)
  | 0, k, enough => .outOfBound (Nat.le_zero.mp enough)
  | turns + 1, k, enough => by
    refine .expectName fun name _ => ?_
    refine .newReference fun ref => ?_
    refine .takeIf ?_ fun comma _ => ?_
    · exact .pure fun n => ⟨Nat.le_succ n, rfl⟩
    · have enough' : k - 1 - 1 ≤ turns := by omega
      exact (reveals_mixins enough').map fun refs before after noisy ⟨le, quiet⟩ =>
        ⟨by omega, quiet⟩

/-! ### Bodies and routines -/

/-- A block has a hole if and only if one of its declarations was faulty. -/
theorem reveals_blockItems : ∀ {turns k : Nat}, k ≤ turns →
    Reveals 1 k declaration (Bears (Stmt.leavesHole anywhere)) →
      Reveals 0 k (readBlockItems declaration turns) (Shows (Stmt.holedAny anywhere))
  | 0, k, enough, _ => .outOfBound (Nat.le_zero.mp enough)
  | turns + 1, k, enough, decl => by
    refine .isAt fun closes => ?_
    have done {l : Nat} : Reveals l k (pure ([] : List (Stmt Site)))
        (Shows (Stmt.holedAny anywhere)) := .pure fun n => ⟨Nat.le_refl n, rfl⟩
    refine .isAtEnd (by simpa using done) ?_
    cases closes with
    | true => exact done
    | false =>
      have enough' : k - 1 ≤ turns := by omega
      refine decl.consuming fun first => ?_
      refine (reveals_blockItems enough' (decl.fewer (Nat.sub_le k 1))).map ?_
      rintro ss mid after noisy ⟨le, rfl⟩ before less
      exact ⟨by omega, rfl⟩

/-- A body behind its opening brace. -/
theorem reveals_body {bound : Nat} (enough : k ≤ bound)
    (decl : Reveals 1 k declaration (Bears (Stmt.leavesHole anywhere))) :
    Reveals 0 k (readBody bound declaration) (Shows (Stmt.holedAny anywhere)) := by
  refine (reveals_blockItems enough decl).andThen' fun items => ?_
  refine .expect fun closed _ => .pure fun n before noisy ⟨le, told⟩ => ?_
  exact ⟨by omega, by rw [told, Bool.or_false]⟩

/-- A routine without a name, behind its keyword. -/
theorem reveals_anonymous {bound : Nat} (enough : k - 1 ≤ bound)
    (decl : Reveals 1 (k - 1) declaration (Bears (Stmt.leavesHole anywhere))) (keyword : Token) :
    Reveals 0 k (readAnonymous bound declaration keyword) (Bears (Expr.holed anywhere)) := by
  refine .expect fun opened _ => ?_
  refine (reveals_parameterList _).andThen' fun params => ?_
  refine .expect fun closed _ => ?_
  refine .expect fun brace _ => ?_
  refine (reveals_body (by omega) (decl.fewer (by omega))).map ?_
  rintro body mid after _ ⟨le, rfl⟩ before _ ⟨le', rfl⟩
  exact ⟨by omega, rfl⟩

/-- A routine has a hole if and only if its body was faulty somewhere. -/
theorem reveals_routine {bound : Nat} (enough : k - 1 ≤ bound)
    (decl : Reveals 1 (k - 1) declaration (Bears (Stmt.leavesHole anywhere))) (role : RoutineRole) :
    Reveals 0 k (readRoutine bound declaration role) (Bears (Routine.holed anywhere)) := by
  refine .expectName fun name _ => ?_
  have bodies {k' : Nat} (le : k' ≤ k - 1) := reveals_body (Nat.le_trans le enough) (decl.fewer le)
  refine .takeIf ?_ fun opened _ => ?_
  · dsimp only
    split
    · exact .failThen
    · rw [pure_bind]
      refine .expect fun brace _ => (bodies (by omega)).map ?_
      rintro body before after _ ⟨le, rfl⟩
      exact ⟨by omega, rfl⟩
  · refine (reveals_parameterList _).andThen' fun params => ?_
    refine .expect fun closed _ => ?_
    rw [pure_bind]
    refine .expect fun brace _ => (bodies (by omega)).map ?_
    rintro body mid after _ ⟨le, rfl⟩ before _ ⟨le', rfl⟩
    exact ⟨by omega, rfl⟩

/-! ### Expressions -/

/-- Arguments have a hole if and only if there was a complaint in one of them. -/
theorem reveals_arguments : ∀ {allowed k : Nat},
    Reveals 0 k expression (Bears (Expr.holed anywhere)) →
      Reveals 0 k (readArguments expression allowed) (Shows (Expr.holedAny anywhere))
  | 0, _, _ => .fail
  | allowed + 1, k, expr => by
    refine expr.andThen' fun first => ?_
    refine .takeIf ?_ fun comma _ => ?_
    · refine .pure ?_
      rintro n before _ ⟨less, rfl⟩
      exact ⟨Nat.le_of_lt less, rfl⟩
    · refine (reveals_arguments (expr.fewer (Nat.sub_le k 1))).map ?_
      rintro es mid after _ ⟨le, rfl⟩ before _ ⟨less, rfl⟩
      exact ⟨by omega, rfl⟩

theorem reveals_argumentList (expr : Reveals 0 k expression (Bears (Expr.holed anywhere))) :
    Reveals 0 k (readArgumentList expression) (Shows (Expr.holedAny anywhere)) := by
  refine .isAt fun closes => ?_
  cases closes with
  | true => exact .pure fun n => ⟨Nat.le_refl n, rfl⟩
  | false => exact reveals_arguments expr

/-- The holes of an operand are those of the routine or the expression inside. -/
theorem reveals_primary {bound : Nat} (enough : k - 2 ≤ bound)
    (expr : Reveals 0 (k - 1) expression (Bears (Expr.holed anywhere)))
    (decl : Reveals 1 (k - 2) declaration (Bears (Stmt.leavesHole anywhere))) :
    Reveals 0 k (readPrimary bound expression declaration) (Bears (Expr.holed anywhere)) := by
  refine .takeIf .fail fun t _ => ?_
  have leaf {e : Expr Site} {k' : Nat} (whole : e.holed anywhere = false) : Reveals 0 k' (pure e)
      fun e' before after noisy => Bears (Expr.holed anywhere) e' (before + 1) after noisy :=
    .pure fun n => ⟨Nat.lt_succ_self n, whole.symm⟩
  dsimp only
  split
  · exact leaf rfl
  · exact leaf rfl
  · exact leaf rfl
  · refine expr.andThen' fun inner => ?_
    refine .expect fun closed _ => .pure ?_
    rintro n before _ ⟨less, rfl⟩
    exact ⟨by omega, Bool.or_false _⟩
  · refine .expect fun dot _ => ?_
    refine .expectName fun name _ => ?_
    exact .newReference fun ref => .pure fun n => ⟨by omega, rfl⟩
  · exact .newReference fun ref => leaf rfl
  · exact .newReference fun ref => leaf rfl
  · have less : k - 1 - 1 ≤ bound := by omega
    refine (reveals_anonymous less (decl.fewer (by omega)) t).mono (Nat.le_refl _)
      (Nat.le_refl _) ?_
    rintro e before after _ ⟨less, rfl⟩
    exact ⟨by omega, rfl⟩
  · exact leaf rfl

/-- The calls and property accesses behind an operand add their own holes to it. -/
theorem reveals_chain : ∀ {turns k : Nat} (e : Expr Site), k ≤ turns →
    Reveals 0 k expression (Bears (Expr.holed anywhere)) →
      Reveals 0 k (readChain expression turns e) fun e' before after noisy =>
        after ≤ before ∧ (e.holed anywhere || noisy) = e'.holed anywhere
  | 0, k, _, enough, _ => .outOfBound (Nat.le_zero.mp enough)
  | turns + 1, k, e, enough, expr => by
    refine .takeIf ?_ fun t _ => ?_
    · exact .pure fun n => ⟨Nat.le_refl n, Bool.or_false _⟩
    · have enough' : k - 1 - 1 ≤ turns := by omega
      dsimp only
      split
      · refine (reveals_argumentList (expr.fewer (Nat.sub_le k 1))).andThen' fun args => ?_
        refine .expect fun closed _ => ?_
        refine (reveals_chain (.call e closed args) enough' (expr.fewer (by omega))).mono
          (Nat.zero_le _) (Nat.le_refl _) ?_
        rintro e' mid after noisy ⟨le, told⟩ before _ ⟨le', rfl⟩
        exact ⟨by omega, by rw [← told, Expr.holed, Bool.or_assoc]⟩
      · refine .expectName fun name _ => ?_
        refine (reveals_chain (.get e name) enough' (expr.fewer (by omega))).mono
          (Nat.zero_le _) (Nat.le_refl _) ?_
        rintro e' before after noisy ⟨le, told⟩
        exact ⟨by omega, told⟩

/-- A sign adds no hole to its operand. -/
theorem reveals_unary {operand : Read (Expr Site)} : ∀ {turns k : Nat}, k ≤ turns →
    Reveals 0 k operand (Bears (Expr.holed anywhere)) →
      Reveals 0 k (readUnary operand turns) (Bears (Expr.holed anywhere))
  | 0, k, enough, _ => .outOfBound (Nat.le_zero.mp enough)
  | turns + 1, k, enough, operands => by
    refine .takeIf operands fun op _ => ?_
    have enough' : k - 1 ≤ turns := by omega
    refine (reveals_unary enough' (operands.fewer (Nat.sub_le k 1))).map ?_
    rintro e before after _ ⟨less, rfl⟩
    exact ⟨by omega, rfl⟩

/-- The holes of two operands that are joined are those of both. -/
theorem holed_combine (level : OperatorLevel) (l r : Expr Site) (op : Token) :
    (level.combine l op r).holed anywhere = (l.holed anywhere || r.holed anywhere) := by
  unfold OperatorLevel.combine
  split <;> rfl

/-- The left operand comes with the holes that were shown before. -/
theorem reveals_operatorTail {level : OperatorLevel} {operand : Read (Expr Site)} :
    ∀ {turns k : Nat} (e : Expr Site), k ≤ turns →
      Reveals 0 k operand (Bears (Expr.holed anywhere)) →
        Reveals 0 k (readOperatorTail level operand turns e) fun e' before after noisy =>
          after ≤ before ∧ (e.holed anywhere || noisy) = e'.holed anywhere
  | 0, k, _, enough, _ => .outOfBound (Nat.le_zero.mp enough)
  | turns + 1, k, e, enough, operands => by
    refine .takeIf ?_ fun op _ => ?_
    · exact .pure fun n => ⟨Nat.le_refl n, Bool.or_false _⟩
    · refine (operands.fewer (Nat.sub_le k 1)).andThen' fun right => ?_
      have enough' : k - 1 ≤ turns := by omega
      refine (reveals_operatorTail (level.combine e op right) enough'
        (operands.fewer (Nat.sub_le k 1))).mono (Nat.le_refl _) (Nat.le_refl _) ?_
      rintro e' mid after noisy ⟨le, told⟩ before _ ⟨less, rfl⟩
      exact ⟨by omega, by rw [← told, holed_combine, Bool.or_assoc]⟩

/-- The operators level by level. -/
theorem reveals_operators {bound : Nat} {operand : Read (Expr Site)} (enough : k ≤ bound)
    (operands : Reveals 0 k operand (Bears (Expr.holed anywhere))) :
    ∀ levels, Reveals 0 k (readOperators bound operand levels) (Bears (Expr.holed anywhere))
  | [] => operands
  | level :: levels => by
    have tight := reveals_operators enough operands levels
    refine tight.andThen' fun left => ?_
    refine (reveals_operatorTail left enough tight).mono (Nat.le_refl _) (Nat.le_refl _) ?_
    rintro e mid after noisy ⟨le, told⟩ before _ ⟨less, rfl⟩
    exact ⟨by omega, told⟩

/-- An assignment to what is no target is complained about, and gives up. -/
theorem reveals_assignment {bound : Nat} (enough : k ≤ bound)
    (expr : Reveals 0 (k - 1) expression (Bears (Expr.holed anywhere)))
    (decl : Reveals 1 (k - 2) declaration (Bears (Stmt.leavesHole anywhere))) :
    Reveals 0 k (readAssignment bound expression declaration) (Bears (Expr.holed anywhere)) := by
  have operands : Reveals 0 k (do
      readChain expression bound (← readPrimary bound expression declaration))
        (Bears (Expr.holed anywhere)) := by
    refine (reveals_primary (by omega) expr decl).consuming fun e => ?_
    refine (reveals_chain e (by omega) expr).mono (Nat.le_refl _) (Nat.le_refl _) ?_
    rintro e' mid after noisy ⟨le, told⟩ before less
    exact ⟨by omega, told⟩
  have targets := reveals_operators enough (reveals_unary enough operands) operatorLevels
  refine targets.andThen' fun target => ?_
  refine .takeIf ?_ fun equals _ => ?_
  · refine .pure ?_
    rintro n before _ ⟨less, rfl⟩
    exact ⟨less, Bool.or_false _⟩
  · refine expr.andThen' fun value => ?_
    split
    all_goals first
      | exact .failAt
      | refine .pure ?_
        rintro n mid _ ⟨less, rfl⟩ before _ ⟨less', rfl⟩
        exact ⟨by omega, by simp [Expr.holed]⟩

/-! ### Statements -/

/-- An expression and a semicolon. -/
theorem reveals_expressionStatement (expr : Reveals 0 k expression (Bears (Expr.holed anywhere))) :
    Reveals 0 k (readExpressionStatement expression) (Occupies anywhere) := by
  refine expr.andThen' fun e => ?_
  refine .expect fun mark _ => .pure ?_
  rintro n before _ ⟨less, rfl⟩
  exact ⟨by omega, nofun, Bool.or_false _⟩

/-- A variable has the holes of its initial value. -/
theorem reveals_variable (expr : Reveals 0 (k - 2) expression (Bears (Expr.holed anywhere))) :
    Reveals 0 k (readVariable expression) (Occupies anywhere) := by
  refine .expectName fun name _ => ?_
  refine .takeIf ?_ fun equals _ => ?_
  · dsimp only
    rw [pure_bind]
    exact .expect fun mark _ => .pure fun n => ⟨by omega, nofun, rfl⟩
  · have init : Reveals 0 (k - 1 - 1) (some <$> expression) fun o before after noisy =>
        ∃ e, o = some e ∧ Bears (Expr.holed anywhere) e before after noisy :=
      (expr.fewer (by omega)).map fun e _ _ _ verdict => ⟨e, rfl, verdict⟩
    refine init.andThen' fun o => ?_
    refine .expect fun mark _ => .pure ?_
    rintro n before _ ⟨e, rfl, less, rfl⟩
    exact ⟨by omega, nofun, Bool.or_false _⟩

/-- What is printed keeps its holes. -/
theorem reveals_print (expr : Reveals 0 k expression (Bears (Expr.holed anywhere))) :
    Reveals 0 k (readPrint expression) (Occupies anywhere) := by
  refine expr.andThen' fun e => ?_
  refine .expect fun mark _ => .pure ?_
  rintro n before _ ⟨less, rfl⟩
  exact ⟨by omega, nofun, Bool.or_false _⟩

/-- The holes of an `if` are those of its condition and its branches. -/
theorem reveals_if (expr : Reveals 0 (k - 1) expression (Bears (Expr.holed anywhere)))
    (stmt : Reveals 0 (k - 2) statement (Occupies anywhere)) :
    Reveals 0 k (readIf expression statement) (Occupies anywhere) := by
  refine .expect fun opened _ => ?_
  refine expr.andThen' fun condition => ?_
  refine .expect fun closed _ => ?_
  refine (stmt.fewer (by omega)).andThen' fun thenBranch => ?_
  refine .takeIf ?_ fun other _ => ?_
  · refine .pure ?_
    rintro n mid _ ⟨less, -, rfl⟩ before _ ⟨less', rfl⟩
    exact ⟨by omega, nofun, by simp [Stmt.holed]⟩
  · refine (stmt.fewer (by omega)).map ?_
    rintro elseBranch mid' after _ ⟨less, -, rfl⟩ mid _ ⟨less', -, rfl⟩ before _ ⟨less'', rfl⟩
    exact ⟨by omega, nofun, by simp [Stmt.holed, Bool.or_assoc]⟩

/-- The holes of a loop are those of its condition and its body. -/
theorem reveals_while (expr : Reveals 0 (k - 1) expression (Bears (Expr.holed anywhere)))
    (stmt : Reveals 0 (k - 2) statement (Occupies anywhere)) :
    Reveals 0 k (readWhile expression statement) (Occupies anywhere) := by
  refine .expect fun opened _ => ?_
  refine expr.andThen' fun condition => ?_
  refine .expect fun closed _ => ?_
  refine (stmt.fewer (by omega)).map ?_
  rintro body mid after _ ⟨less, -, rfl⟩ before _ ⟨less', rfl⟩
  exact ⟨by omega, nofun, rfl⟩

/-- An expression that is left out has no hole. -/
theorem reveals_unless {mark : Kind} (expr : Reveals 0 k expression (Bears (Expr.holed anywhere))) :
    Reveals 0 k (readUnless mark expression) (Shows (Option.any (Expr.holed anywhere))) := by
  refine .isAt fun ended => ?_
  cases ended with
  | true => exact .pure fun n => ⟨Nat.le_refl n, rfl⟩
  | false => exact expr.map fun e before after noisy ⟨less, told⟩ => ⟨Nat.le_of_lt less, told⟩

/-- A `for` loop behind the first part of its header, which stands in a list with the loop. -/
theorem reveals_loop (expr : Reveals 0 k expression (Bears (Expr.holed anywhere)))
    (stmt : Reveals 0 (k - 2) statement (Occupies anywhere)) (init : Option (Stmt Site)) :
    Reveals 0 k (readLoop expression statement init) fun s before after noisy =>
      after < before ∧ s ≠ .missing ∧ (init ≠ some .missing →
        (init.any (Stmt.holed anywhere) || noisy) = s.holed anywhere) := by
  refine (reveals_unless expr).andThen' fun condition => ?_
  refine .expect fun mark _ => ?_
  refine (reveals_unless (expr.fewer (by omega))).andThen' fun increment => ?_
  refine .expect fun closed _ => ?_
  refine (stmt.fewer (by omega)).andThen' fun body => ?_
  refine .withSites fun n after => ?_
  rintro mid'' _ ⟨less, there, rfl⟩ mid' _ ⟨le, rfl⟩ mid _ ⟨le', rfl⟩
  refine ⟨by omega, ?_, fun present => ?_⟩
  · cases init <;> exact nofun
  · rw [holed_forLoop init condition increment present there]
    simp

/-- A `for` loop behind its opening parenthesis. -/
theorem reveals_initializer (expr : Reveals 0 k expression (Bears (Expr.holed anywhere)))
    (stmt : Reveals 0 (k - 2) statement (Occupies anywhere)) :
    Reveals 0 k (readInitializer expression statement) (Occupies anywhere) := by
  have loop {k' : Nat} (le : k' ≤ k) := reveals_loop (expr.fewer le) (stmt.fewer (by omega))
  have begun {k' : Nat} (le : k' ≤ k) {read : Read (Stmt Site)}
      (h : Reveals 0 k' read (Occupies anywhere)) :
      Reveals 0 k' ((some <$> read) >>= readLoop expression statement) (Occupies anywhere) := by
    rw [bind_map_left]
    refine h.andThen' fun init => (loop le (some init)).mono (Nat.le_refl _) (Nat.le_refl _) ?_
    rintro s mid after noisy ⟨less, present, told⟩ before _ ⟨less', there, rfl⟩
    exact ⟨by omega, present, told fun absent => there (Option.some.inj absent)⟩
  refine .takeIf ?_ fun first _ => ?_
  · exact begun (Nat.le_refl k) (reveals_expressionStatement expr)
  · dsimp only
    split
    · refine (begun (Nat.sub_le k 1) (reveals_variable (expr.fewer (by omega)))).mono
        (Nat.zero_le _) (Nat.le_refl _) ?_
      rintro s before after noisy ⟨less, verdict⟩
      exact ⟨by omega, verdict⟩
    · refine (loop (Nat.sub_le k 1) none).mono (Nat.zero_le _) (Nat.le_refl _) ?_
      rintro s before after noisy ⟨less, present, told⟩
      exact ⟨by omega, present, told nofun⟩

/-- The loop that a `for` stands for has the holes of its parts, `holed_forLoop`. -/
theorem reveals_for (expr : Reveals 0 (k - 1) expression (Bears (Expr.holed anywhere)))
    (stmt : Reveals 0 (k - 3) statement (Occupies anywhere)) :
    Reveals 0 k (readFor expression statement) (Occupies anywhere) := by
  refine .expect fun opened _ => ?_
  show Reveals _ _ (readInitializer expression statement) _
  refine (reveals_initializer expr (stmt.fewer (by omega))).mono (Nat.le_refl _) (Nat.le_refl _) ?_
  rintro s before after noisy ⟨less, verdict⟩
  exact ⟨by omega, verdict⟩

/-- A `return` has the holes of its value. -/
theorem reveals_return (expr : Reveals 0 k expression (Bears (Expr.holed anywhere)))
    (word : Token) : Reveals 0 k (readReturn expression word) (Occupies anywhere) := by
  refine (reveals_unless expr).andThen' fun value => ?_
  refine .expect fun mark _ => .pure ?_
  rintro n before _ ⟨le, rfl⟩
  exact ⟨by omega, nofun, by cases value <;> simp [Stmt.holed]⟩

/-- `break` and `continue` have none. -/
theorem reveals_loopExit (k : Nat) (word : Token) :
    Reveals 0 k (readLoopExit word) (Occupies anywhere) :=
  .expect fun mark _ => .pure fun n => ⟨by omega, nofun, rfl⟩

/-- A statement that is told by its first token shows what was complained about in it. -/
theorem reveals_statement {bound : Nat} (enough : k - 1 ≤ bound)
    (expr : Reveals 0 k expression (Bears (Expr.holed anywhere)))
    (stmt : Reveals 0 (k - 1) statement (Occupies anywhere))
    (decl : Reveals 1 (k - 1) declaration (Bears (Stmt.leavesHole anywhere))) :
    Reveals 0 k (readStatementForm bound expression statement declaration) (Occupies anywhere) := by
  refine .takeIf (reveals_expressionStatement expr) fun t _ => ?_
  -- The word that the statement begins with is one more token consumed.
  have behind {read : Read (Stmt Site)} (h : Reveals 0 (k - 1) read (Occupies anywhere)) :
      Reveals 0 (k - 1) read fun s before after noisy =>
        Occupies anywhere s (before + 1) after noisy :=
    h.mono (Nat.le_refl _) (Nat.le_refl _) fun s before after noisy ⟨less, verdict⟩ =>
      ⟨by omega, verdict⟩
  have expr' := expr.fewer (Nat.sub_le k 1)
  dsimp only
  split
  · exact behind (reveals_if (expr.fewer (by omega)) (stmt.fewer (by omega)))
  · exact behind (reveals_print expr')
  · exact behind (reveals_while (expr.fewer (by omega)) (stmt.fewer (by omega)))
  · exact behind (reveals_for (expr.fewer (by omega)) (stmt.fewer (by omega)))
  · exact behind (reveals_return expr' t)
  · refine (reveals_body enough decl).map ?_
    rintro ss before after _ ⟨le, rfl⟩
    exact ⟨by omega, nofun, rfl⟩
  · exact behind (reveals_loopExit _ t)

/-! ### Declarations -/

/-- The members of a class have a hole if and only if there was a complaint in one. -/
theorem reveals_members {method : RoutineRole → Read (Routine Site)} : ∀ {turns k : Nat},
    k ≤ turns → (∀ role, Reveals 0 k (method role) (Bears (Routine.holed anywhere))) →
      Reveals 0 k (readMembers method turns) (Shows fun ms =>
        Routine.holedAny anywhere ms.1 || Routine.holedAny anywhere ms.2)
  | 0, k, enough, _ => .outOfBound (Nat.le_zero.mp enough)
  | turns + 1, k, enough, methods => by
    refine .isAt fun closes => ?_
    have done {l : Nat} : Reveals l k (pure (([], []) : List (Routine Site) × List (Routine Site)))
        (Shows fun ms => Routine.holedAny anywhere ms.1 || Routine.holedAny anywhere ms.2) :=
      .pure fun n => ⟨Nat.le_refl n, rfl⟩
    refine .isAtEnd (by simpa using done) ?_
    cases closes with
    | true => exact done
    | false =>
      have enough' : k - 1 ≤ turns := by omega
      have more := reveals_members enough' fun role => (methods role).fewer (Nat.sub_le k 1)
      refine .takeIf ?_ fun word _ => ?_
      · have first : Reveals 1 k (method .method) (Bears (Routine.holed anywhere)) :=
          (methods .method).mono (Nat.zero_le 1) (Nat.le_refl k) fun _ _ _ _ verdict => verdict
        refine first.consuming fun r => ?_
        refine more.andThen' fun ms => .pure ?_
        rintro after mid _ ⟨le, rfl⟩ before less
        exact ⟨by omega, by simp [Routine.holedAny, Bool.or_assoc]⟩
      · refine ((methods .staticMethod).fewer (Nat.sub_le k 1)).andThen' fun first => ?_
        refine more.andThen' fun ms => .pure ?_
        rintro after mid _ ⟨le, rfl⟩ before _ ⟨less, rfl⟩
        exact ⟨by omega, by simp [Routine.holedAny, Bool.or_left_comm]⟩

theorem reveals_mixed {α : Type} {Q : Verdict α} {turns : Nat} (enough : k - 1 ≤ turns)
    {next : List (Reference Site) → Read α}
    (h : ∀ mixins, Reveals 0 k (next mixins) fun a mid after noisy =>
      ∀ before, mid ≤ before → Q a before after noisy) :
    Reveals 0 k (readMixed turns next) Q := by
  refine .takeIf ?_ fun mark _ => ?_
  · exact (h []).mono (Nat.le_refl _) (Nat.le_refl _) fun _ _ _ _ verdict =>
      verdict _ (Nat.le_refl _)
  · refine (reveals_mixins enough).andThen' fun mixins => ?_
    refine (h mixins).mono (Nat.le_refl _) (Nat.sub_le k 1) ?_
    rintro a mid after noisy verdict before _ ⟨le, rfl⟩
    exact verdict _ (Nat.le_succ_of_le le)

theorem reveals_ancestor {α : Type} {Q : Verdict α} {next : Option (Reference Site) → Read α}
    (h : ∀ superclass, Reveals 0 k (next superclass) fun a mid after noisy =>
      ∀ before, mid ≤ before → Q a before after noisy) :
    Reveals 0 k (readAncestor next) Q := by
  refine .takeIf ?_ fun less _ => ?_
  · exact (h none).mono (Nat.le_refl _) (Nat.le_refl _) fun _ _ _ _ verdict =>
      verdict _ (Nat.le_refl _)
  · refine .expectName fun name _ => .newReference fun ref => ?_
    exact (h _).mono (Nat.zero_le _) (by omega) fun _ _ _ _ verdict => verdict _ (by omega)

theorem reveals_class {bound : Nat} (enough : k ≤ bound)
    (decl : Reveals 1 (k - 2) declaration (Bears (Stmt.leavesHole anywhere))) :
    Reveals 0 k (readClass bound declaration) (Occupies anywhere) := by
  rw [readClass_eq]
  refine .expectName fun name _ => ?_
  refine reveals_ancestor fun superclass => ?_
  refine reveals_mixed (by omega) fun mixins => ?_
  refine .expect fun opened _ => ?_
  have methods (role : RoutineRole) : Reveals 0 (k - 1 - 1) (readRoutine bound declaration role)
      (Bears (Routine.holed anywhere)) :=
    reveals_routine (by omega) (decl.fewer (by omega)) role
  refine (reveals_members (by omega) methods).andThen' fun members => ?_
  refine .expect fun closed _ => .pure ?_
  rintro n mid _ ⟨le, rfl⟩ before le' before' le''
  exact ⟨by omega, nofun, Bool.or_false _⟩

theorem reveals_function {bound : Nat} (enough : k - 1 ≤ bound)
    (decl : Reveals 1 (k - 1) declaration (Bears (Stmt.leavesHole anywhere))) (word : Token) :
    Reveals 0 k (readFunction bound declaration word) (Occupies anywhere) := by
  refine .isAt fun named => ?_
  cases named with
  | true => exact (reveals_routine enough decl .function).map fun r _ _ _ ⟨less, told⟩ =>
      ⟨less, nofun, told⟩
  | false => exact reveals_expressionStatement (reveals_anonymous enough decl word)

theorem reveals_declaration {bound : Nat} (enough : k - 1 ≤ bound)
    (expr : Reveals 0 (k - 1) expression (Bears (Expr.holed anywhere)))
    (stmt : Reveals 0 k statement (Occupies anywhere))
    (decl : Reveals 1 (k - 2) declaration (Bears (Stmt.leavesHole anywhere))) :
    Reveals 0 k (readDeclarationForm bound expression statement declaration)
      (Occupies anywhere) := by
  refine .takeIf stmt fun t _ => ?_
  have behind {read : Read (Stmt Site)} (h : Reveals 0 (k - 1) read (Occupies anywhere)) :
      Reveals 0 (k - 1) read fun s before after noisy =>
        Occupies anywhere s (before + 1) after noisy :=
    h.mono (Nat.le_refl _) (Nat.le_refl _) fun s before after noisy ⟨less, verdict⟩ =>
      ⟨by omega, verdict⟩
  dsimp only
  split
  · exact behind (reveals_class enough (decl.fewer (by omega)))
  · exact behind (reveals_function (by omega) (decl.fewer (by omega)) t)
  · exact behind (reveals_variable (expr.fewer (by omega)))

theorem skipFaulty_length : ∀ {ts : List Token}, ts ≠ [] → (skipFaulty ts).length < ts.length
  | t :: ts, _ => by
    rw [skipFaulty]
    split
    · exact Nat.lt_succ_self _
    · exact Nat.lt_succ_of_le (skipFaulty_suffix ts).length_le

/-- Going on after a fault leaves a hole and consumes a token. -/
theorem reveals_recovering {read : Read (Stmt Site)} (h : Reveals 0 k read (Occupies anywhere)) :
    Reveals 1 k (recovering read) (Bears (Stmt.leavesHole anywhere)) := by
  intro c enough few
  rw [recovering, ends_tryCatch]
  refine (h c (Nat.zero_le _) few).mono ?_ ?_
  · rintro s c' - ⟨noisy, heard, less, present, told⟩
    refine ⟨noisy, heard, less, told.trans ?_⟩
    have there : s.isMissing = false := by
      cases s <;> first | rfl | exact absurd rfl present
    rw [Stmt.leavesHole, there, Bool.false_or]
  · rintro e c' ⟨rfl, heard⟩
    have skipped : (skipFaulty c'.rest).length ≤ c'.rest.length :=
      (skipFaulty_suffix c'.rest).length_le
    refine ⟨true, ⟨Nat.le_trans skipped heard.rest, heard.complaints, heard.new⟩, ?_, rfl⟩
    show (skipFaulty c'.rest).length < c.rest.length
    have consumed := heard.rest
    by_cases ended : c'.rest = []
    · rw [ended]
      exact enough
    · have shorter := skipFaulty_length ended
      omega

end Rules

/-! ## Whole texts -/

variable {anywhere : Bool}

/-- What the readers for expressions, statements and declarations come to, as long as the bound on
nesting is large enough for the tokens that are left. -/
theorem reveals_all (bound : Nat) :
    (∀ k, k ≤ bound - 1 → 3 * k ≤ bound + 2 →
      Reveals 0 k (readExpression bound) (Bears (Expr.holed anywhere))) ∧
    (∀ k, k ≤ bound - 2 → 3 * k ≤ bound + 1 →
      Reveals 0 k (readStatement bound) (Occupies anywhere)) ∧
    ∀ k, k ≤ bound - 3 → 3 * k ≤ bound →
      Reveals 1 k (readDeclaration bound) (Bears (Stmt.leavesHole anywhere)) := by
  induction bound with
  | zero =>
    refine ⟨fun k le size => ?_, fun k le size => ?_, fun k le size => ?_⟩
    · rw [readExpression]
      exact .outOfBound (by omega)
    · rw [readStatement]
      exact .outOfBound (by omega)
    · rw [readDeclaration]
      exact .outOfBound (by omega)
  | succ bound ih =>
    obtain ⟨expr, stmt, decl⟩ := ih
    refine ⟨fun k le size => ?_, fun k le size => ?_, fun k le size => ?_⟩
    · rw [readExpression]
      exact reveals_assignment (by omega) (expr _ (by omega) (by omega))
        (decl _ (by omega) (by omega))
    · rw [readStatement]
      exact reveals_statement (by omega) (expr _ (by omega) (by omega))
        (stmt _ (by omega) (by omega)) (decl _ (by omega) (by omega))
    · rw [readDeclaration]
      exact reveals_recovering (reveals_declaration (by omega) (expr _ (by omega) (by omega))
        (stmt _ (by omega) (by omega)) (decl _ (by omega) (by omega)))

/-- What is read up to the end. -/
theorem reveals_declarations {declaration : Read (Stmt Site)} : ∀ {turns k : Nat}, k ≤ turns →
    Reveals 1 k declaration (Bears (Stmt.leavesHole anywhere)) →
      Reveals 0 k (readDeclarations declaration turns) (Shows (Stmt.holedAny anywhere))
  | 0, k, enough, _ => .outOfBound (Nat.le_zero.mp enough)
  | turns + 1, k, enough, decl => by
    refine .isAtEnd (.pure fun n => ⟨Nat.le_refl n, rfl⟩) ?_
    have enough' : k - 1 ≤ turns := by omega
    refine decl.consuming fun first => ?_
    refine (reveals_declarations enough' (decl.fewer (Nat.sub_le k 1))).map ?_
    rintro ss mid after noisy ⟨le, rfl⟩ before less
    exact ⟨by omega, rfl⟩

/-- A reader that recovers does not give up at a fault. -/
theorem ends_recovering (read : Read (Stmt Site)) (c : Cursor) :
    Ends (recovering read) c (fun _ _ => True) fun e _ => e ≠ .atFault := by
  rw [recovering, ends_tryCatch]
  refine .of_run (fun _ _ _ => trivial) fun e c' _ => ?_
  cases e with
  | atFault => exact trivial
  | atBound =>
    intro same
    cases same

theorem ends_declarations {declaration : Read (Stmt Site)}
    (h : ∀ c, Ends declaration c (fun _ _ => True) fun e _ => e ≠ .atFault) :
    ∀ turns c, Ends (readDeclarations declaration turns) c (fun _ _ => True)
      fun e _ => e ≠ .atFault
  | 0, _ => nofun
  | turns + 1, c => by
    rw [readDeclarations, ends_bind]
    show Ends (if c.rest.isEmpty = true then _ else _) _ _ _
    split
    · exact trivial
    · refine (h c).bind (fun first c' _ _ => ?_) fun _ _ err => err
      exact (ends_declarations h turns c').bind (fun _ _ _ _ => trivial) fun _ _ err => err

/-- Reading a program reports a fault exactly if the program has a hole in one of its lists of
statements; it does not matter whether other places of statements are looked at, too, since no
statement is missing there. -/
theorem complained_iff_holed (anywhere : Bool) (tokens : List Token) (endLine : Nat)
    (first : Site) :
    (Program.ofTokens tokens endLine first).diagnostics ≠ [] ↔
      Stmt.holedAny anywhere (Program.ofTokens tokens endLine first).result = true := by
  cases tokens with
  | nil => exact ⟨fun reported => absurd rfl reported, nofun⟩
  | cons t ts =>
    have enough : ts.length + 2 ≤ nestingBound (t :: ts) - 3 := by
      simp [nestingBound]
      omega
    have declaration : Reveals 1 (ts.length + 2) (readDeclaration (nestingBound (t :: ts)))
        (Bears (Stmt.leavesHole anywhere)) :=
      (reveals_all (nestingBound (t :: ts))).2.2 _ enough (by simp [nestingBound]; omega)
    have turns : ts.length + 2 ≤ nestingBound (t :: ts) := by omega
    have whole := reveals_declarations turns declaration (.start (t :: ts) endLine first)
      (Nat.zero_le _) (Nat.lt_succ_self _)
    have recovers : ∀ c, Ends (readDeclaration (nestingBound (t :: ts))) c (fun _ _ => True)
        fun e _ => e ≠ .atFault := fun c => ends_recovering _ c
    have goesOn := ends_declarations recovers (nestingBound (t :: ts))
      (.start (t :: ts) endLine first)
    rw [ofTokens_eq]
    rcases run : outcome (readProgram (t :: ts)) (.start (t :: ts) endLine first)
      with ⟨e | p, c⟩
    · exact absurd (whole.error run).1 (goesOn.error run)
    · obtain ⟨noisy, heard, -, told⟩ := whole.ok run
      show c.diagnostics ≠ [] ↔ Stmt.holedAny anywhere p = true
      rw [← told, ← heard.new, ← List.length_pos_iff]
      exact Iff.rfl

end LoxLang
