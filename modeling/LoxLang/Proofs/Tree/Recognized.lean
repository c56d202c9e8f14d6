/-
LoxLang.Proofs.Tree.Recognized: what is read without a complaint is a phrase of the grammar.

A reader that succeeds without a complaint has consumed the tokens of a phrase, and what it yields
is the tree that the phrase denotes.  One that gives up has complained, provided that the bound on
nesting is large enough for the tokens that are left.  Readers that recover from a fault go on after
a complaint; then nothing is said, except that the complaint stays.

* `Recognizes`: what a reader does with fewer tokens left than a given number.
* `Recognizes.andThen`, `Recognizes.takeIf`, `Recognizes.require`: one reader after another.

Main statements: `recognizes_all`, `recognizes_declarations`.
-/
import LoxLang.Proofs.Tree.Complete

namespace LoxLang

/-! ## Readers -/

section Readers

variable {α β : Type}

/-- What a reader yields: the site from which on it gave out new ones, the tokens that it consumed,
the site behind its own, and the tokens that it left. -/
abbrev Account (α : Type) := α → Site → List Token → Site → List Token → Prop

/-- A reader never takes a complaint back.  If fewer tokens than the given number are left and it
does not complain, then it succeeds as told. -/
def Recognizes (k : Nat) (read : Read α) (P : Account α) : Prop :=
  ∀ c, Ends read c
    (fun a c' => c.diagnostics <+: c'.diagnostics ∧
      (c.rest.length < k → c'.diagnostics = c.diagnostics →
        ∃ ts, c.rest = ts ++ c'.rest ∧ P a c.nextSite ts c'.nextSite c'.rest))
    (fun _ c' => c.diagnostics <+: c'.diagnostics ∧
      (c.rest.length < k → c'.diagnostics ≠ c.diagnostics))

/-- The tokens are a phrase that denotes the result. -/
abbrev Denotes (φ : α → Phrase) : Account α := fun a n ts n' _ => Derives (φ a) n ts n'

/-- The tokens are a statement that denotes the result, and no `else` goes on with it. -/
abbrev Stated : Account (Stmt Site) := fun s n ts n' rest =>
  ∃ isOpen, Derives (.statement isOpen s) n ts n' ∧ (isOpen = true → NotAt (· == .elseWord) rest)

namespace Recognizes

variable {k k' : Nat} {read : Read α} {next : α → Read β} {P P' : Account α} {Q : Account β}

/-- Less may be asked of the tokens left, and less told of the result. -/
theorem mono (h : Recognizes k read P) (le : k' ≤ k)
    (implies : ∀ a n ts n' rest, P a n ts n' rest → P' a n ts n' rest) :
    Recognizes k' read P' := by
  intro c
  refine (h c).mono (fun a c' _ ok => ⟨ok.1, fun few same => ?_⟩) fun e c' err =>
    ⟨err.1, fun few => err.2 (by omega)⟩
  obtain ⟨ts, split, account⟩ := ok.2 (by omega) same
  exact ⟨ts, split, implies _ _ _ _ _ account⟩

/-- With fewer tokens left there is less to recognize. -/
theorem fewer (h : Recognizes k read P) (le : k' ≤ k) : Recognizes k' read P :=
  h.mono le fun _ _ _ _ _ account => account

/-- What is yielded at once is read from no token. -/
theorem pure {a : α} (h : ∀ n rest, P a n [] n rest) : Recognizes k (Pure.pure a) P := by
  intro c
  exact ⟨List.prefix_refl _, fun _ _ => ⟨[], rfl, h _ _⟩⟩

/-- One reader after another. -/
theorem andThen (first : Recognizes k read P)
    (shrinks : ∀ a n ts n' rest, P a n ts n' rest → k ≤ k' + ts.length)
    (second : ∀ a, Recognizes k' (next a) fun b n' us n'' rest =>
      ∀ n ts, P a n ts n' (us ++ rest) → Q b n (ts ++ us) n'' rest) :
    Recognizes k (read >>= next) Q := by
  intro c
  refine (first c).bind (fun a c' _ ok => ?_) fun _ _ err => err
  refine (second a c').mono (fun b c'' _ ok' => ?_) fun e c'' err => ?_
  · refine ⟨ok.1.trans ok'.1, fun few same => ?_⟩
    -- What was not complained about in the end was never complained about.
    have same' : c'.diagnostics = c.diagnostics :=
      (ok.1.eq_of_length_le (by rw [← same]; exact ok'.1.length_le)).symm
    obtain ⟨ts, split, account⟩ := ok.2 few same'
    have less := shrinks _ _ _ _ _ account
    have few' : c'.rest.length < k' := by
      rw [split, List.length_append] at few
      omega
    obtain ⟨us, split', account'⟩ := ok'.2 few' (same.trans same'.symm)
    rw [split'] at account
    exact ⟨ts ++ us, by rw [split, split', List.append_assoc], account' _ _ account⟩
  · refine ⟨ok.1.trans err.1, fun few same => ?_⟩
    have same' : c'.diagnostics = c.diagnostics :=
      (ok.1.eq_of_length_le (by rw [← same]; exact err.1.length_le)).symm
    obtain ⟨ts, split, account⟩ := ok.2 few same'
    have less := shrinks _ _ _ _ _ account
    have few' : c'.rest.length < k' := by
      rw [split, List.length_append] at few
      omega
    exact err.2 few' (same.trans same'.symm)

/-- Another reader after one that need not consume a token. -/
theorem andThen' (first : Recognizes k read P)
    (second : ∀ a, Recognizes k (next a) fun b n' us n'' rest =>
      ∀ n ts, P a n ts n' (us ++ rest) → Q b n (ts ++ us) n'' rest) :
    Recognizes k (read >>= next) Q :=
  first.andThen (fun _ _ _ _ _ _ => Nat.le_add_right _ _) second

/-- Another reader after one that consumes a token. -/
theorem consuming (first : Recognizes k read P)
    (nonempty : ∀ a n ts n' rest, P a n ts n' rest → 0 < ts.length)
    (second : ∀ a, Recognizes (k - 1) (next a) fun b n' us n'' rest =>
      ∀ n ts, P a n ts n' (us ++ rest) → Q b n (ts ++ us) n'' rest) :
    Recognizes k (read >>= next) Q := by
  refine first.andThen (fun a n ts n' rest account => ?_) second
  have positive := nonempty a n ts n' rest account
  omega

/-- What is made of a result is read from the same tokens. -/
theorem map {f : α → β} (h : Recognizes k read P)
    (implies : ∀ a n ts n' rest, P a n ts n' rest → Q (f a) n ts n' rest) :
    Recognizes k (f <$> read) Q := by
  rw [map_eq_pure_bind]
  refine h.andThen' fun a => .pure fun n' rest n ts account => ?_
  rw [List.append_nil]
  exact implies _ _ _ _ _ account

/-- A token may follow. -/
theorem takeIf {accept : Kind → Bool} {next : Option Token → Read β}
    (without : Recognizes k (next none) fun b n ts n' rest =>
      NotAt accept (ts ++ rest) → Q b n ts n' rest)
    (with_ : ∀ t, accept t.kind = true → Recognizes (k - 1) (next (some t)) fun b n ts n' rest =>
      Q b n (t :: ts) n' rest) :
    Recognizes k (LoxLang.takeIf accept >>= next) Q := by
  refine fun c => ends_takeIf (fun apart => ?_) fun t ts next fits => ?_
  · refine (without c).mono ?_ fun _ _ err => err
    rintro b c' - ⟨grows, account⟩
    refine ⟨grows, fun few same => ?_⟩
    obtain ⟨us, split, account⟩ := account few same
    exact ⟨us, split, account (split ▸ apart)⟩
  · refine (with_ t fits { c with rest := ts }).mono ?_ ?_
    · rintro b c' - ⟨grows, account⟩
      refine ⟨grows, fun few same => ?_⟩
      rw [next, List.length_cons] at few
      have few' : ts.length < k - 1 := by omega
      obtain ⟨us, split, account⟩ := account few' same
      exact ⟨t :: us, next.trans (congrArg (t :: ·) split), account⟩
    · rintro e c' ⟨grows, fails⟩
      refine ⟨grows, fun few => ?_⟩
      rw [next, List.length_cons] at few
      have few' : ts.length < k - 1 := by omega
      exact fails few'

/-- A reader that gives up has complained, so that nothing has to be recognized. -/
theorem failAt {t : Token} {fault : SyntaxFault} : Recognizes k (LoxLang.failAt t fault) P := by
  intro c
  refine ⟨List.prefix_append _ _, fun _ => ?_⟩
  simp

theorem fail {fault : SyntaxFault} : Recognizes k (LoxLang.fail fault) P := by
  intro c
  have failed : Recognizes k (LoxLang.failAt c.next fault) P := failAt
  exact failed c

/-- And it does not go on. -/
theorem failThen {fault : SyntaxFault} : Recognizes k (LoxLang.fail fault >>= next) Q := by
  intro c
  unfold Ends
  rw [run_bind]
  refine ⟨List.prefix_append _ _, fun _ => ?_⟩
  simp

/-- The bound is only spent where no token is left. -/
theorem outOfBound (h : k = 0) : Recognizes k (LoxLang.outOfBound : Read α) P := by
  intro c
  exact ⟨List.prefix_refl _, fun few => by omega⟩

/-- A token has to follow. -/
theorem require {kind : Kind} {fault : SyntaxFault} {next : Token → Read β}
    (with_ : ∀ t, t.kind = kind → Recognizes (k - 1) (next t) fun b n ts n' rest =>
      Q b n (t :: ts) n' rest) :
    Recognizes k (LoxLang.require kind fault >>= next) Q := by
  unfold LoxLang.require
  rw [bind_assoc]
  refine .takeIf ?_ fun t ok => ?_
  · exact failThen
  · rw [pure_bind]
    exact with_ t (beq_iff_eq.mp ok)

/-- An expected mark is the first token of what is recognized. -/
theorem expect {mark : Mark} {gap : Gap} {next : Token → Read β}
    (with_ : ∀ t, t.kind = mark.kind → Recognizes (k - 1) (next t) fun b n ts n' rest =>
      Q b n (t :: ts) n' rest) :
    Recognizes k (LoxLang.expect mark gap >>= next) Q := require with_

/-- So is an expected name. -/
theorem expectName {role : NameRole} {next : Token → Read β}
    (with_ : ∀ t, t.kind = .identifier → Recognizes (k - 1) (next t) fun b n ts n' rest =>
      Q b n (t :: ts) n' rest) :
    Recognizes k (LoxLang.expectName role >>= next) Q := require with_

/-- To look consumes nothing, whatever is seen. -/
theorem isAt {kind : Kind} {next : Bool → Read β} (h : ∀ b, Recognizes k (next b) Q) :
    Recognizes k (LoxLang.isAt kind >>= next) Q := by
  intro c
  exact h (c.at kind) c

/-- The end of the text tells that no token follows. -/
theorem isAtEnd {next : Bool → Read β}
    (h : ∀ b, Recognizes k (next b) fun a n ts n' rest =>
      b = (ts ++ rest).isEmpty → Q a n ts n' rest) :
    Recognizes k (LoxLang.isAtEnd >>= next) Q := by
  intro c
  refine (h c.rest.isEmpty c).mono ?_ fun _ _ err => err
  rintro a c' - ⟨grows, account⟩
  refine ⟨grows, fun few same => ?_⟩
  obtain ⟨ts, split, account⟩ := account few same
  exact ⟨ts, split, account (by rw [split])⟩

/-- A reference takes the number that the phrase begins with. -/
theorem newReference {t : Token} {next : Reference Site → Read β}
    (h : ∀ first, Recognizes k (next ⟨t, first⟩) fun b n ts n' rest =>
      n = first + 1 → Q b first ts n' rest) :
    Recognizes k (LoxLang.newReference t >>= next) Q := by
  intro c
  refine (h c.nextSite { c with nextSite := c.nextSite + 1 }).mono ?_ fun _ _ err => err
  rintro b c' - ⟨grows, account⟩
  refine ⟨grows, fun few same => ?_⟩
  obtain ⟨ts, split, account⟩ := account few same
  exact ⟨ts, split, account rfl⟩

/-- A reader whose result is there. -/
theorem some (h : Recognizes k read P) :
    Recognizes k (Option.some <$> read) fun o n ts n' rest => ∃ a, o = some a ∧ P a n ts n' rest :=
  h.map fun a _ _ _ _ account => ⟨a, rfl, account⟩

/-- To number a tree consumes no token. -/
theorem withSites {act : StateM Site α} (h : ∀ n rest, P (act n).1 n [] (act n).2 rest) :
    Recognizes k (LoxLang.withSites act) P := by
  intro c
  exact ⟨List.prefix_refl _, fun _ _ => ⟨[], rfl, h _ _⟩⟩

end Recognizes

end Readers

/-! ## Targets of assignments -/

/-- An operand under no operator. -/
def Expr.IsOperand {ρ : Type} : Expr ρ → Prop
  | .unary _ _ | .binary _ _ _ | .logical _ _ _ => False
  | _ => True

/-- An operand under no operator is a phrase without operators. -/
theorem Derives.call_of_operators {φ : Phrase} {n n' : Site} {ts : List Token}
    (h : Derives φ n ts n') : ∀ {i : Nat} {e : Expr Site}, φ = .operators i e → e.IsOperand →
      Derives (.call e) n ts n' := by
  induction h with
  | tightest h _ =>
    rintro _ _ ⟨⟩ operand
    cases h with
    | prefixed _ _ => exact operand.elim
    | unprefixed h => exact h
  | tighter _ ih =>
    rintro _ _ ⟨⟩ operand
    exact ih rfl operand
  | binary | logical =>
    rintro _ _ ⟨⟩ operand
    exact operand.elim
  | _ =>
    intro _ _ same
    cases same

/-- What stands before an `=` and its value. -/
theorem derives_assignment {target value : Expr Site} {equals : Token} {n n' n'' : Site}
    {ts us : List Token} (h : Derives (.operators 6 target) n ts n')
    (h' : equals.kind = .equal) (hv : Derives (.expression value) n' us n'') :
    (∀ ref, target = .variable ref →
      Derives (.expression (.assign ref value)) n (ts ++ equals :: us) n'') ∧
    ∀ object name, target = .get object name →
      Derives (.expression (.set object name value)) n (ts ++ equals :: us) n'' := by
  refine ⟨?_, ?_⟩
  · rintro ref rfl
    have operand : (Expr.variable ref).IsOperand := trivial
    cases h.call_of_operators rfl operand with
    | operand h =>
      cases h with
      | name kind => exact .assign kind h' hv
  · rintro object name rfl
    have operand : (Expr.get object name).IsOperand := trivial
    cases h.call_of_operators rfl operand with
    | operand h => cases h
    | property call hd hn =>
      rw [List.append_assoc]
      exact .set call hd hn h' hv

/-! ## Rules -/

section Rules

variable {k : Nat} {expression : Read (Expr Site)} {statement declaration : Read (Stmt Site)}

/-- Names between commas are recognized, by induction on how many are allowed. -/
theorem recognizes_parameters : ∀ (allowed k : Nat),
    Recognizes k (readParameters allowed) fun ps n ts n' _ =>
      Names ps ts ∧ ps.length ≤ allowed ∧ n' = n
  | 0, _ => .fail
  | allowed + 1, k => by
    refine .expectName fun name hn => ?_
    refine .takeIf ?_ fun comma hc => ?_
    · exact .pure fun n rest _ => ⟨.one hn, by simp, rfl⟩
    · refine (recognizes_parameters allowed _).map fun ps n ts n' rest account => ?_
      obtain ⟨names, few, same⟩ := account
      exact ⟨.more hn (beq_iff_eq.mp hc) names, Nat.succ_le_succ few, same⟩

/-- At most as many as a list may have, or none. -/
theorem recognizes_parameterList (k : Nat) :
    Recognizes k readParameterList fun ps n ts n' _ => Parameters ps ts ∧ n' = n := by
  refine .isAt fun closes => ?_
  cases closes with
  | true => exact .pure fun n rest => ⟨.none, rfl⟩
  | false =>
    refine (recognizes_parameters maxListed k).mono (Nat.le_refl k)
      fun ps n ts n' rest account => ?_
    exact ⟨.some account.1 account.2.1, account.2.2⟩

/-- Mixins are names, numbered in their order. -/
theorem recognizes_mixins : ∀ {turns k : Nat}, k ≤ turns →
    Recognizes k (readMixins turns) fun refs n ts n' _ =>
      ∃ names, Names names ts ∧ refs = referencesFrom n names ∧ n' = n + names.length
  | 0, k, enough => .outOfBound (Nat.le_zero.mp enough)
  | turns + 1, k, enough => by
    refine .expectName fun name hn => ?_
    refine .newReference fun first => ?_
    refine .takeIf ?_ fun comma hc => ?_
    · exact .pure fun n rest _ next => ⟨[name], .one hn, rfl, next⟩
    · have enough' : k - 1 - 1 ≤ turns := by omega
      refine (recognizes_mixins enough').map fun refs n ts n' rest account next => ?_
      obtain ⟨names, list, rfl, rfl⟩ := account
      subst next
      refine ⟨name :: names, .more hn (beq_iff_eq.mp hc) list, rfl, ?_⟩
      exact Nat.add_right_comm first 1 names.length

/-! ### Bodies and routines -/

/-- Declarations are recognized one after the other, up to the closing brace. -/
theorem recognizes_blockItems : ∀ {turns k : Nat}, k ≤ turns →
    Recognizes k declaration (Denotes .declaration) →
      Recognizes k (readBlockItems declaration turns) (Denotes .declarations)
  | 0, k, enough, _ => .outOfBound (Nat.le_zero.mp enough)
  | turns + 1, k, enough, decl => by
    refine .isAt fun closes => ?_
    refine .isAtEnd fun ended => ?_
    split
    · exact .pure fun n rest _ => .done
    · have enough' : k - 1 ≤ turns := by omega
      refine decl.consuming (fun s n ts n' rest h => (h.begins rfl).length_pos) fun first => ?_
      refine (recognizes_blockItems enough' (decl.fewer (Nat.sub_le k 1))).map
        fun ss n us n' rest h n₀ ts h' _ => ?_
      exact .more h' h

/-- A body behind its opening brace. -/
theorem recognizes_body {bound : Nat} (enough : k ≤ bound)
    (decl : Recognizes k declaration (Denotes .declaration)) :
    Recognizes k (readBody bound declaration) fun ss n ts n' _ =>
      ∀ opened : Token, opened.kind = .leftBrace → Derives (.block ss) n (opened :: ts) n' := by
  refine (recognizes_blockItems enough decl).andThen' fun items => ?_
  refine .expect fun closed hc => ?_
  exact .pure fun n rest n₀ ts h opened ho => .block ho h hc

/-- A routine without a name, behind its keyword. -/
theorem recognizes_anonymous {bound : Nat} (enough : k - 1 ≤ bound)
    (decl : Recognizes (k - 1) declaration (Denotes .declaration)) (keyword : Token) :
    Recognizes k (readAnonymous bound declaration keyword) fun e n ts n' _ =>
      ∃ params body, e = .function keyword params body ∧
      Derives (.routine params body) n ts n' := by
  refine .expect fun opened ho => ?_
  refine (recognizes_parameterList _).andThen' fun params => ?_
  refine .expect fun closed hc => ?_
  refine .expect fun brace hb => ?_
  refine (recognizes_body (by omega) (decl.fewer (by omega))).map fun body n us n' rest h => ?_
  rintro n₀ ts ⟨list, rfl⟩
  exact ⟨params, body, rfl, .routine ho list hc (h brace hb)⟩

/-- A named routine.  Only a method may be a getter. -/
theorem recognizes_routine {bound : Nat} (enough : k - 1 ≤ bound)
    (decl : Recognizes (k - 1) declaration (Denotes .declaration)) (role : RoutineRole) :
    Recognizes k (readRoutine bound declaration role) fun r n ts n' _ =>
      Derives (.method r) n ts n' ∧ (role = .function → r.getter = false) := by
  refine .expectName fun name hn => ?_
  refine .takeIf ?_ fun opened ho => ?_
  · dsimp only
    split
    · exact .failThen
    · rename_i other
      rw [pure_bind]
      refine .expect fun brace hb => ?_
      refine (recognizes_body (by omega) (decl.fewer (by omega))).map
        fun body n us n' rest h _ => ?_
      exact ⟨.getter hn (h brace hb), fun same => absurd same other⟩
  · refine (recognizes_parameterList _).andThen' fun params => ?_
    refine .expect fun closed hc => ?_
    rw [pure_bind]
    refine .expect fun brace hb => ?_
    refine (recognizes_body (by omega) (decl.fewer (by omega))).map fun body n us n' rest h => ?_
    rintro n₀ ts ⟨list, rfl⟩
    exact ⟨.method hn (.routine (beq_iff_eq.mp ho) list hc (h brace hb)), fun _ => rfl⟩

/-! ### Expressions -/

/-- Expressions between commas are recognized, by induction on how many are allowed. -/
theorem recognizes_arguments : ∀ {allowed k : Nat},
    Recognizes k expression (Denotes .expression) →
      Recognizes k (readArguments expression allowed) fun es n ts n' _ =>
        Derives (.arguments es) n ts n' ∧ es.length ≤ allowed
  | 0, _, _ => .fail
  | allowed + 1, k, expr => by
    refine expr.andThen' fun first => ?_
    refine .takeIf ?_ fun comma hc => ?_
    · refine .pure fun n rest _ n₀ ts h => ?_
      rw [List.append_nil]
      exact ⟨.lastArgument h, by simp⟩
    · refine (recognizes_arguments (expr.fewer (Nat.sub_le k 1))).map
        fun es n us n' rest account n₀ ts h => ?_
      obtain ⟨list, few⟩ := account
      exact ⟨.moreArguments h (beq_iff_eq.mp hc) list, Nat.succ_le_succ few⟩

/-- The closing parenthesis tells that there is none. -/
theorem recognizes_argumentList (expr : Recognizes k expression (Denotes .expression)) :
    Recognizes k (readArgumentList expression) (Denotes .argumentList) := by
  refine .isAt fun closes => ?_
  cases closes with
  | true => exact .pure fun n rest => .noArguments
  | false =>
    exact (recognizes_arguments expr).mono (Nat.le_refl k) fun es n ts n' rest account =>
      .someArguments account.1 account.2

/-- The first token of an operand tells its rule. -/
theorem recognizes_primary {bound : Nat} (enough : k - 2 ≤ bound)
    (expr : Recognizes (k - 1) expression (Denotes .expression))
    (decl : Recognizes (k - 2) declaration (Denotes .declaration)) :
    Recognizes k (readPrimary bound expression declaration) (Denotes .primary) := by
  refine .takeIf .fail fun t ht => ?_
  dsimp only
  split
  · rename_i kind
    exact .pure fun n rest => .literal (by simp only [Token.literal?, kind])
  · rename_i kind
    exact .pure fun n rest => .literal (by simp only [Token.literal?, kind])
  · rename_i kind
    exact .pure fun n rest => .literal (by simp only [Token.literal?, kind])
  · rename_i kind
    refine expr.andThen' fun inner => ?_
    refine .expect fun closed hc => ?_
    exact .pure fun n rest n₀ ts h => .grouping kind h hc
  · rename_i kind
    refine .expect fun dot hd => ?_
    refine .expectName fun name hn => ?_
    refine .newReference fun first => .pure fun n rest next => ?_
    rw [next]
    exact .super kind hd hn
  · rename_i kind
    refine .newReference fun first => .pure fun n rest next => ?_
    rw [next]
    exact .this kind
  · rename_i kind
    refine .newReference fun first => .pure fun n rest next => ?_
    rw [next]
    exact .name kind
  · rename_i kind
    have less : k - 1 - 1 ≤ bound := by omega
    refine (recognizes_anonymous less (decl.fewer (by omega)) t).mono (Nat.le_refl _)
      fun e n ts n' rest account => ?_
    obtain ⟨params, body, rfl, routine⟩ := account
    exact .anonymous kind routine
  · rename_i noFalse noTrue noNil noParen noSuper noThis noName noFun
    refine .pure fun n rest => .literal ?_
    revert ht noFalse noTrue noNil noParen noSuper noThis noName noFun
    unfold Token.literal?
    cases t.kind <;> simp [beginsOperand]

/-- What goes on with a chain of calls and properties makes a longer one. -/
theorem recognizes_chain : ∀ {turns k : Nat} (e : Expr Site), k ≤ turns →
    Recognizes k expression (Denotes .expression) →
      Recognizes k (readChain expression turns e) fun e' n ts n' _ =>
        ∀ n₀ us, Derives (.call e) n₀ us n → Derives (.call e') n₀ (us ++ ts) n'
  | 0, k, _, enough, _ => .outOfBound (Nat.le_zero.mp enough)
  | turns + 1, k, e, enough, expr => by
    refine .takeIf ?_ fun t ht => ?_
    · exact .pure fun n rest _ n₀ us h => by rwa [List.append_nil]
    · dsimp only
      split
      · rename_i kind
        refine (recognizes_argumentList (expr.fewer (Nat.sub_le k 1))).andThen' fun args => ?_
        refine .expect fun closed hc => ?_
        have enough' : k - 1 - 1 ≤ turns := by omega
        refine (recognizes_chain (.call e closed args) enough' (expr.fewer (by omega))).mono
          (Nat.le_refl _) fun e' n ws n' rest account n₁ vs list n₀ us h => ?_
        have whole := account n₀ _ (.called h kind list hc)
        simpa using whole
      · rename_i other
        have kind : t.kind = .dot := by
          simpa [other] using ht
        refine .expectName fun name hn => ?_
        have enough' : k - 1 - 1 ≤ turns := by omega
        refine (recognizes_chain (.get e name) enough' (expr.fewer (by omega))).mono
          (Nat.le_refl _) fun e' n ws n' rest account n₀ us h => ?_
        have whole := account n₀ _ (.property h kind hn)
        simpa using whole

/-- A sign in front of an operand is one use of its rule. -/
theorem recognizes_unary {operand : Read (Expr Site)} : ∀ {turns k : Nat}, k ≤ turns →
    Recognizes k operand (Denotes .call) →
      Recognizes k (readUnary operand turns) (Denotes .unary)
  | 0, k, enough, _ => .outOfBound (Nat.le_zero.mp enough)
  | turns + 1, k, enough, operands => by
    refine .takeIf ?_ fun op ho => ?_
    · exact operands.mono (Nat.le_refl k) fun e n ts n' rest h _ => .unprefixed h
    · have enough' : k - 1 ≤ turns := by omega
      refine (recognizes_unary enough' (operands.fewer (Nat.sub_le k 1))).map
        fun e n ts n' rest h => ?_
      exact .prefixed (by simpa using ho) h

/-- An operator with its sides, in the form that the table of the reader gives it. -/
theorem Derives.combine {level : OperatorLevel} {i : Nat} (is : level.Is (i + 1))
    {left right : Expr Site} {n n' n'' : Site} {ts us : List Token} {op : Token}
    (first : Derives (.operators (i + 1) left) n ts n') (h : op.kind ∈ level.kinds)
    (second : Derives (.operators i right) n' us n'') :
    Derives (.operators (i + 1) (level.combine left op right)) n (ts ++ op :: us) n'' := by
  unfold OperatorLevel.combine
  cases logical : level.isLogical with
  | false => exact .binary first ((is.binary op.kind).mpr ⟨logical, h⟩) second
  | true => exact .logical first ((is.logical op.kind).mpr ⟨logical, h⟩) second

/-- What goes on with a level is joined to its left, one operator at a time. -/
theorem recognizes_operatorTail {level : OperatorLevel} {i : Nat} (is : level.Is (i + 1))
    {operand : Read (Expr Site)} : ∀ {turns k : Nat} (e : Expr Site), k ≤ turns →
      Recognizes k operand (Denotes (.operators i)) →
        Recognizes k (readOperatorTail level operand turns e) fun e' n ts n' _ =>
          ∀ n₀ us, Derives (.operators (i + 1) e) n₀ us n →
            Derives (.operators (i + 1) e') n₀ (us ++ ts) n'
  | 0, k, _, enough, _ => .outOfBound (Nat.le_zero.mp enough)
  | turns + 1, k, e, enough, operands => by
    refine .takeIf ?_ fun op ho => ?_
    · exact .pure fun n rest _ n₀ us h => by rwa [List.append_nil]
    · refine (operands.fewer (Nat.sub_le k 1)).andThen' fun right => ?_
      have enough' : k - 1 ≤ turns := by omega
      refine (recognizes_operatorTail is (level.combine e op right) enough'
        (operands.fewer (Nat.sub_le k 1))).mono (Nat.le_refl _)
          fun e' n ws n' rest account n₁ vs h n₀ us h' => ?_
      have whole := account n₀ _ (.combine is h' (by simpa using ho) h)
      simpa using whole

/-- Level by level, from the operands to the loosest operators. -/
theorem recognizes_operators {bound : Nat} {operand : Read (Expr Site)} (enough : k ≤ bound)
    (operands : Recognizes k operand (Denotes .unary)) {levels : List OperatorLevel} {i : Nat}
    (known : LevelsUpTo i levels) :
    Recognizes k (readOperators bound operand levels) (Denotes (.operators i)) := by
  induction known with
  | none => exact operands.mono (Nat.le_refl k) fun e n ts n' rest h => .tightest h
  | one loosest _ tight =>
    refine tight.andThen' fun left => ?_
    exact (recognizes_operatorTail loosest left enough tight).mono (Nat.le_refl k)
      fun e n us n' rest account n₀ ts h => account n₀ ts (.tighter h)

/-- A target with `=` behind it was read as a phrase that the rules for assignments have too. -/
theorem recognizes_assignment {bound : Nat} (enough : k ≤ bound)
    (expr : Recognizes (k - 1) expression (Denotes .expression))
    (decl : Recognizes (k - 2) declaration (Denotes .declaration)) :
    Recognizes k (readAssignment bound expression declaration) (Denotes .expression) := by
  have operands : Recognizes k (do
      readChain expression bound (← readPrimary bound expression declaration)) (Denotes .call) := by
    refine (recognizes_primary (by omega) expr decl).consuming
      (fun e n ts n' rest h => (h.begins rfl).length_pos) fun e => ?_
    exact (recognizes_chain e (by omega) expr).mono (Nat.le_refl _)
      fun e' n us n' rest account n₀ ts h => account n₀ ts (.operand h)
  have targets :=
    recognizes_operators enough (recognizes_unary enough operands) levelsUpTo_operatorLevels
  refine targets.andThen' fun target => ?_
  refine .takeIf ?_ fun equals he => ?_
  · refine .pure fun n rest _ n₀ ts h => ?_
    rw [List.append_nil]
    exact .unassigned h
  · refine expr.andThen' fun value => ?_
    split
    · refine .pure fun n rest n₁ us hv n₀ ts h => ?_
      rw [List.append_nil]
      exact (derives_assignment h (beq_iff_eq.mp he) hv).1 _ rfl
    · refine .pure fun n rest n₁ us hv n₀ ts h => ?_
      rw [List.append_nil]
      exact (derives_assignment h (beq_iff_eq.mp he) hv).2 _ _ rfl
    · exact .failAt

/-! ### Statements -/

/-- An expression and a semicolon. -/
theorem recognizes_expressionStatement {P : Account (Expr Site)}
    (expr : Recognizes k expression P) :
    Recognizes k (readExpressionStatement expression) fun s n ts n' rest =>
      ∃ e us mark, s = .expression e ∧ ts = us ++ [mark] ∧ mark.kind = .semicolon ∧
        P e n us n' (mark :: rest) := by
  refine expr.andThen' fun e => ?_
  refine .expect fun mark hm => ?_
  exact .pure fun n rest n₀ us h => ⟨e, us, mark, rfl, rfl, hm, h⟩

/-- Together with the word in front of it, a variable declaration. -/
theorem recognizes_variable (expr : Recognizes (k - 2) expression (Denotes .expression)) :
    Recognizes k (readVariable expression) fun s n ts n' _ =>
      ∀ word : Token, word.kind = .varWord → Derives (.newVariable s) n (word :: ts) n' := by
  refine .expectName fun name hn => ?_
  refine .takeIf ?_ fun equals he => ?_
  · dsimp only
    rw [pure_bind]
    refine .expect fun mark hm => ?_
    exact .pure fun n rest _ word hw => .uninitialized hw hn hm
  · refine expr.some.andThen' fun init => ?_
    refine .expect fun mark hm => .pure fun n rest => ?_
    rintro n₀ ts ⟨e, rfl, value⟩ word hw
    exact .initialized hw hn (beq_iff_eq.mp he) value hm

/-- Together with the word in front of it, a `print` statement. -/
theorem recognizes_print (expr : Recognizes k expression (Denotes .expression)) :
    Recognizes k (readPrint expression) fun s n ts n' rest =>
      ∀ word : Token, word.kind = .printWord → Stated s n (word :: ts) n' rest := by
  refine expr.andThen' fun e => ?_
  refine .expect fun mark hm => .pure fun n rest n₀ ts h word hw => ?_
  exact ⟨false, .print hw h hm, nofun⟩

/-- Without an `else` the statement is open, and no `else` follows it. -/
theorem recognizes_if (expr : Recognizes (k - 1) expression (Denotes .expression))
    (stmt : Recognizes (k - 2) statement Stated) :
    Recognizes k (readIf expression statement) fun s n ts n' rest =>
      ∀ word : Token, word.kind = .ifWord → Stated s n (word :: ts) n' rest := by
  refine .expect fun opened ho => ?_
  refine expr.andThen' fun condition => ?_
  refine .expect fun closed hc => ?_
  refine stmt.andThen' fun thenBranch => ?_
  refine .takeIf ?_ fun other hother => ?_
  · refine .pure fun n rest ends n₁ us ⟨isOpen, h, _⟩ n₀ ts hcondition word hw => ?_
    rw [List.append_nil]
    exact ⟨true, .ifThen hw ho hcondition hc h, fun _ => ends⟩
  · refine (stmt.fewer (Nat.sub_le _ 1)).map fun elseBranch n vs n' rest h => ?_
    obtain ⟨isOpen, h, ends⟩ := h
    intro n₁ us ⟨isOpen', h', ends'⟩ n₀ ts hcondition word hw
    -- An `if` that has no `else` would have taken this one.
    cases isOpen' with
    | true =>
      have apart : (other.kind == .elseWord) = false := ends' rfl other rfl
      rw [hother] at apart
      cases apart
    | false => exact ⟨isOpen, .ifElse hw ho hcondition hc h' (beq_iff_eq.mp hother) h, ends⟩

/-- A loop is open if its body is. -/
theorem recognizes_while (expr : Recognizes (k - 1) expression (Denotes .expression))
    (stmt : Recognizes (k - 2) statement Stated) :
    Recognizes k (readWhile expression statement) fun s n ts n' rest =>
      ∀ word : Token, word.kind = .whileWord → Stated s n (word :: ts) n' rest := by
  refine .expect fun opened ho => ?_
  refine expr.andThen' fun condition => ?_
  refine .expect fun closed hc => ?_
  refine stmt.map fun body n us n' rest ⟨isOpen, h, ends⟩ n₀ ts hcondition word hw => ?_
  exact ⟨isOpen, .whileLoop hw ho hcondition hc h, ends⟩

/-- In front of its mark an optional expression is absent. -/
theorem recognizes_unless {mark : Kind} (expr : Recognizes k expression (Denotes .expression)) :
    Recognizes k (readUnless mark expression) (Denotes .optional) := by
  refine .isAt fun ended => ?_
  cases ended with
  | true => exact .pure fun n rest => .absent
  | false => exact expr.map fun e n ts n' rest h => .present h

/-- A `for` loop behind the first part of its header. -/
theorem recognizes_loop (expr : Recognizes k expression (Denotes .expression))
    (stmt : Recognizes (k - 2) statement Stated) (init : Option (Stmt Site)) :
    Recognizes k (readLoop expression statement init) fun s n ts n' rest =>
      ∀ (word opened : Token) n₀ us, word.kind = .forWord → opened.kind = .leftParen →
        Derives (.initializer init) n₀ us n →
          Stated s n₀ (word :: opened :: (us ++ ts)) n' rest := by
  refine (recognizes_unless expr).andThen' fun condition => ?_
  refine .expect fun mark hm => ?_
  refine (recognizes_unless (expr.fewer (by omega))).andThen' fun increment => ?_
  refine .expect fun closed hc => ?_
  refine (stmt.fewer (by omega)).andThen' fun body => ?_
  refine .withSites fun n rest n₃ ws ⟨isOpen, h, ends⟩ n₂ vs hincrement n₁ us hcondition => ?_
  intro word opened n₀ ts hw ho hinit
  have standsFor : Loops init condition increment body n (forLoop init condition increment body n).1
      (forLoop init condition increment body n).2 := loops_iff.mpr rfl
  have whole := Derives.forLoop hw ho hinit hcondition hm hincrement hc h standsFor
  exact ⟨isOpen, by simpa using whole, ends⟩

/-- What reading a `for` loop comes to, from the first part of its header on. -/
theorem recognizes_initializer (expr : Recognizes k expression (Denotes .expression))
    (stmt : Recognizes (k - 2) statement Stated) :
    Recognizes k (readInitializer expression statement) fun s n ts n' rest =>
      ∀ word opened : Token, word.kind = .forWord → opened.kind = .leftParen →
        Stated s n (word :: opened :: ts) n' rest := by
  refine .takeIf ?_ fun first hfirst => ?_
  · refine (recognizes_expressionStatement expr).some.andThen' fun init => ?_
    refine (recognizes_loop expr stmt init).mono (Nat.le_refl _) ?_
    rintro s n us n' rest account n₀ _
      ⟨_, rfl, e, ts, mark, rfl, rfl, hm, value⟩ - word opened hw ho
    exact account word opened n₀ _ hw ho (.expressionInitializer value hm)
  · dsimp only
    split
    · rename_i kind
      refine (recognizes_variable (expr.fewer (by omega))).some.andThen' fun init => ?_
      refine (recognizes_loop (expr.fewer (by omega)) (stmt.fewer (by omega)) init).mono
        (Nat.le_refl _) ?_
      rintro s n us n' rest account n₀ ts ⟨s', rfl, declared⟩ word opened hw ho
      exact account word opened n₀ (first :: ts) hw ho (.variableInitializer (declared first kind))
    · rename_i other
      have kind : first.kind = .semicolon := by
        simpa [other] using hfirst
      refine (recognizes_loop (expr.fewer (by omega)) (stmt.fewer (by omega)) none).mono
        (Nat.le_refl _) fun s n ts n' rest account word opened hw ho => ?_
      exact account word opened n [first] hw ho (.noInitializer kind)

/-- The parts of the header and the body, put together as the rule for `for` says. -/
theorem recognizes_for (expr : Recognizes (k - 1) expression (Denotes .expression))
    (stmt : Recognizes (k - 3) statement Stated) :
    Recognizes k (readFor expression statement) fun s n ts n' rest =>
      ∀ word : Token, word.kind = .forWord → Stated s n (word :: ts) n' rest := by
  refine .expect fun opened ho => ?_
  show Recognizes _ (readInitializer expression statement) _
  refine (recognizes_initializer expr (stmt.fewer (by omega))).mono (Nat.le_refl _)
    fun s n ts n' rest account word hw => account word opened hw ho

/-- A `return` with its value, if it has one. -/
theorem recognizes_return (expr : Recognizes k expression (Denotes .expression)) (word : Token) :
    Recognizes k (readReturn expression word) fun s n ts n' rest =>
      word.kind = .returnWord → Stated s n (word :: ts) n' rest := by
  refine (recognizes_unless expr).andThen' fun value => ?_
  refine .expect fun mark hm => .pure fun n rest n₀ ts h hw => ?_
  exact ⟨false, .ret hw h hm, nofun⟩

/-- A `break` or a `continue`. -/
theorem recognizes_loopExit (k : Nat) (word : Token) :
    Recognizes k (readLoopExit word) fun s n ts n' rest =>
      word.kind = .breakWord ∨ word.kind = .continueWord → Stated s n (word :: ts) n' rest := by
  refine .expect fun mark hm => .pure fun n rest hw => ?_
  exact ⟨false, .loopExit hw hm, nofun⟩

/-- A statement that is told by its first token is one of that rule. -/
theorem recognizes_statement {bound : Nat} (enough : k - 1 ≤ bound)
    (expr : Recognizes k expression (Denotes .expression))
    (stmt : Recognizes (k - 1) statement Stated)
    (decl : Recognizes (k - 1) declaration (Denotes .declaration)) :
    Recognizes k (readStatementForm bound expression statement declaration) Stated := by
  refine .takeIf ?_ fun t ht => ?_
  · refine (recognizes_expressionStatement expr).mono (Nat.le_refl k) ?_
    rintro _ n _ n' rest ⟨e, us, mark, rfl, rfl, hm, h⟩ _
    exact ⟨false, .expressionStatement h hm, nofun⟩
  · have less : k - 1 - 1 ≤ k - 1 := by omega
    have expr' := expr.fewer (Nat.sub_le k 1)
    dsimp only
    split
    · rename_i kind
      exact (recognizes_if (expr'.fewer less) (stmt.fewer (by omega))).mono (Nat.le_refl _)
        fun s n ts n' rest account => account t kind
    · rename_i kind
      exact (recognizes_print expr').mono (Nat.le_refl _)
        fun s n ts n' rest account => account t kind
    · rename_i kind
      exact (recognizes_while (expr'.fewer less) (stmt.fewer (by omega))).mono (Nat.le_refl _)
        fun s n ts n' rest account => account t kind
    · rename_i kind
      exact (recognizes_for (expr'.fewer less) (stmt.fewer (by omega))).mono (Nat.le_refl _)
        fun s n ts n' rest account => account t kind
    · rename_i kind
      exact (recognizes_return expr' t).mono (Nat.le_refl _)
        fun s n ts n' rest account => account kind
    · rename_i kind
      exact (recognizes_body enough decl).map
        fun ss n ts n' rest account => ⟨false, .braced (account t kind), nofun⟩
    · rename_i noIf noPrint noWhile noFor noReturn noBrace
      refine (recognizes_loopExit _ t).mono (Nat.le_refl _)
        fun s n ts n' rest account => account ?_
      revert ht noIf noPrint noWhile noFor noReturn noBrace
      cases t.kind <;> simp [beginsStatementForm]

/-! ### Declarations -/

/-- Methods and static methods in whatever order they stand. -/
theorem recognizes_members {method : RoutineRole → Read (Routine Site)} : ∀ {turns k : Nat},
    k ≤ turns →
    (∀ role ≠ .function, Recognizes k (method role) (Denotes .method)) →
      Recognizes k (readMembers method turns) fun ms n ts n' _ =>
        Derives (.members ms.1 ms.2) n ts n'
  | 0, k, enough, _ => .outOfBound (Nat.le_zero.mp enough)
  | turns + 1, k, enough, methods => by
    refine .isAt fun closes => ?_
    refine .isAtEnd fun ended => ?_
    split
    · exact .pure fun n rest _ => .noMembers
    · refine .takeIf ?_ fun word hw => ?_
      · have enough' : k - 1 ≤ turns := by omega
        refine (methods .method nofun).consuming
          (fun r n ts n' rest h => (h.begins rfl).length_pos) fun first => ?_
        refine (recognizes_members enough' fun role other =>
          (methods role other).fewer (Nat.sub_le k 1)).andThen' fun ms => ?_
        refine .pure fun n rest n₁ us list n₀ ts h _ _ => ?_
        rw [List.append_nil]
        exact .member h list
      · have enough' : k - 1 ≤ turns := by omega
        refine ((methods .staticMethod nofun).fewer (Nat.sub_le k 1)).andThen' fun first => ?_
        refine (recognizes_members enough' fun role other =>
          (methods role other).fewer (Nat.sub_le k 1)).andThen' fun ms => ?_
        refine .pure fun n rest n₁ us list n₀ ts h _ => ?_
        rw [List.append_nil]
        exact .staticMember (beq_iff_eq.mp hw) h list

/-- The word `with` and the names behind it are the mixins. -/
theorem recognizes_mixed {α : Type} {Q : Account α} {turns : Nat} (enough : k - 1 ≤ turns)
    {next : List (Reference Site) → Read α}
    (h : ∀ mixins, Recognizes k (next mixins) fun a n us n' rest =>
      ∀ n₀ ts, Mixins mixins n₀ ts n → Q a n₀ (ts ++ us) n' rest) :
    Recognizes k (readMixed turns next) Q := by
  refine .takeIf ?_ fun mark hm => ?_
  · exact (h []).mono (Nat.le_refl k) fun a n us n' rest account _ => account n [] .none
  · refine (recognizes_mixins enough).andThen' fun mixins => ?_
    refine (h mixins).mono (Nat.sub_le k 1) ?_
    rintro a n us n' rest account n₀ ts ⟨names, list, rfl, rfl⟩
    exact account n₀ (mark :: ts) (.some (beq_iff_eq.mp hm) list)

/-- A `<` and the name behind it are the superclass. -/
theorem recognizes_superclass {α : Type} {Q : Account α} {next : Option (Reference Site) → Read α}
    (h : ∀ superclass, Recognizes k (next superclass) fun a n us n' rest =>
      ∀ n₀ ts, Superclass superclass n₀ ts n → Q a n₀ (ts ++ us) n' rest) :
    Recognizes k (readAncestor next) Q := by
  refine .takeIf ?_ fun less hl => ?_
  · exact (h none).mono (Nat.le_refl k) fun a n us n' rest account _ => account n [] .none
  · refine .expectName fun name hn => ?_
    refine .newReference fun first => ?_
    refine (h _).mono (by omega) fun a n us n' rest account next => ?_
    subst next
    exact account first [less, name] (.some (beq_iff_eq.mp hl) hn)

/-- Together with the word in front of it, a class declaration. -/
theorem recognizes_class {bound : Nat} (enough : k ≤ bound)
    (decl : Recognizes (k - 2) declaration (Denotes .declaration)) :
    Recognizes k (readClass bound declaration) fun s n ts n' _ =>
      ∀ word : Token, word.kind = .classWord → Derives (.declaration s) n (word :: ts) n' := by
  rw [readClass_eq]
  refine .expectName fun name hn => ?_
  refine recognizes_superclass fun superclass => ?_
  refine recognizes_mixed (by omega) fun mixins => ?_
  refine .expect fun opened ho => ?_
  have methods : ∀ role ≠ .function, Recognizes (k - 1 - 1) (readRoutine bound declaration role)
      (Denotes .method) := fun role _ =>
    (recognizes_routine (by omega) (decl.fewer (by omega)) role).mono (Nat.le_refl _)
      fun r n ts n' rest account => account.1
  refine (recognizes_members (by omega) methods).andThen' fun members => ?_
  refine .expect fun closed hc => .pure fun n rest n₃ vs list n₂ us mixed n₁ ts parent word hw => ?_
  exact .classDecl hw hn parent mixed ho list hc

/-- Together with the word in front of it, a function or a lone routine. -/
theorem recognizes_function {bound : Nat} (enough : k - 1 ≤ bound)
    (decl : Recognizes (k - 1) declaration (Denotes .declaration)) (word : Token) :
    Recognizes k (readFunction bound declaration word) fun s n ts n' _ =>
      word.kind = .funWord → Derives (.declaration s) n (word :: ts) n' := by
  refine .isAt fun named => ?_
  cases named with
  | true =>
    refine (recognizes_routine enough decl .function).map fun r n ts n' rest account hw => ?_
    obtain ⟨h, noGetter⟩ := account
    cases h with
    | method hn routine => exact .function hw hn routine
    | getter _ _ => cases noGetter rfl
  | false =>
    refine (recognizes_expressionStatement (recognizes_anonymous enough decl word)).mono
      (Nat.le_refl k) ?_
    rintro _ n _ n' rest ⟨_, us, mark, rfl, rfl, hm, params, body, rfl, routine⟩ hw
    exact .loneRoutine hw routine hm

/-- A reader that recovers has complained, so that nothing has to be recognized. -/
theorem recognizes_recovering {read : Read (Stmt Site)} {P : Account (Stmt Site)}
    (h : Recognizes k read P) : Recognizes k (recovering read) P := by
  intro c
  rw [recovering, ends_tryCatch]
  refine (h c).mono (fun _ _ _ ok => ok) fun e c' err => ?_
  cases e with
  | atFault => exact ⟨err.1, fun few same => absurd same (err.2 few)⟩
  | atBound => exact err

/-- A declaration that is told by its first token is one of that rule. -/
theorem recognizes_declaration {bound : Nat} (enough : k - 1 ≤ bound)
    (expr : Recognizes (k - 1) expression (Denotes .expression))
    (stmt : Recognizes k statement Stated)
    (decl : Recognizes (k - 2) declaration (Denotes .declaration)) :
    Recognizes k (readDeclarationForm bound expression statement declaration)
      (Denotes .declaration) := by
  refine .takeIf ?_ fun t ht => ?_
  · refine stmt.mono (Nat.le_refl k) ?_
    rintro s n ts n' rest ⟨isOpen, h, _⟩ apart
    obtain ⟨t, us, rfl, _⟩ := h.begins rfl
    refine .undeclared h ?_
    rintro _ ⟨⟩ word
    have noForm := apart t rfl
    rw [word] at noForm
    cases noForm
  · dsimp only
    split
    · rename_i kind
      exact (recognizes_class enough (decl.fewer (by omega))).mono (Nat.le_refl _)
        fun s n ts n' rest account => account t kind
    · rename_i kind
      exact (recognizes_function (by omega) (decl.fewer (by omega)) t).mono (Nat.le_refl _)
        fun s n ts n' rest account => account kind
    · rename_i noClass noFun
      refine (recognizes_variable (expr.fewer (by omega))).mono (Nat.le_refl _)
        fun s n ts n' rest account => .declared (account t ?_)
      revert ht noClass noFun
      cases t.kind <;> simp [beginsDeclarationForm]

end Rules

/-! ## Whole texts -/

/-- What the readers for expressions, statements and declarations come to, as long as the bound on
nesting is large enough for the tokens that are left. -/
theorem recognizes_all (bound : Nat) :
    (∀ k, k ≤ bound - 1 → 3 * k ≤ bound + 2 →
      Recognizes k (readExpression bound) (Denotes .expression)) ∧
    (∀ k, k ≤ bound - 2 → 3 * k ≤ bound + 1 → Recognizes k (readStatement bound) Stated) ∧
    ∀ k, k ≤ bound - 3 → 3 * k ≤ bound →
      Recognizes k (readDeclaration bound) (Denotes .declaration) := by
  induction bound with
  | zero =>
    refine ⟨fun k le size => ?_, fun k le size => ?_, fun k le size => ?_⟩
    · rw [readExpression]
      exact .outOfBound (by omega)
    · rw [readStatement]
      exact .outOfBound (by omega)
    · rw [readDeclaration]
      exact .outOfBound (by omega)
  | succ bound ih =>
    obtain ⟨expr, stmt, decl⟩ := ih
    refine ⟨fun k le size => ?_, fun k le size => ?_, fun k le size => ?_⟩
    · rw [readExpression]
      exact recognizes_assignment (by omega) (expr _ (by omega) (by omega))
        (decl _ (by omega) (by omega))
    · rw [readStatement]
      exact recognizes_statement (by omega) (expr _ (by omega) (by omega))
        (stmt _ (by omega) (by omega)) (decl _ (by omega) (by omega))
    · rw [readDeclaration]
      exact recognizes_recovering (recognizes_declaration (by omega) (expr _ (by omega) (by omega))
        (stmt _ (by omega) (by omega)) (decl _ (by omega) (by omega)))

/-- What is read up to the end. -/
theorem recognizes_declarations {declaration : Read (Stmt Site)} : ∀ {turns k : Nat}, k ≤ turns →
    Recognizes k declaration (Denotes .declaration) →
      Recognizes k (readDeclarations declaration turns) fun ss n ts n' rest =>
        Derives (.declarations ss) n ts n' ∧ rest = []
  | 0, k, enough, _ => .outOfBound (Nat.le_zero.mp enough)
  | turns + 1, k, enough, decl => by
    refine .isAtEnd fun ended => ?_
    split
    · rename_i atEnd
      refine .pure fun n rest same => ⟨.done, ?_⟩
      rw [atEnd] at same
      simpa using same.symm
    · have enough' : k - 1 ≤ turns := by omega
      refine decl.consuming (fun s n ts n' rest h => (h.begins rfl).length_pos) fun first => ?_
      refine (recognizes_declarations enough' (decl.fewer (Nat.sub_le k 1))).map
        fun ss n us n' rest account n₀ ts h _ => ?_
      exact ⟨.more h account.1, account.2⟩

end LoxLang
