/-
LoxLang.Proofs.Tree.Recovery: faults in one piece of a text leave the other pieces alone.

A text is cut into segments.  A good one is a single declaration when it is read alone; a bad one is
a clause that is faulty when it is read alone.  Read in one text, each segment gives what it gives
alone: a good one its tree, with other sites, and a bad one a missing statement and its one
complaint.

* `alone`: tokens as a text of their own.
* `IsGood`, `IsBad`: the segments.
* `ReadsAs`: what tokens are read as in front of others, and what is complained about.

Main statement: `recovery_isolates`.
-/
import Mathlib
import LoxLang.Proofs.Tree.Clauses
import LoxLang.Proofs.Tree.Exact
import LoxLang.Proofs.Tree.Later
import LoxLang.Proofs.Tree.Reported

namespace LoxLang

/-! ## Segments -/

/-- Tokens as a text of their own. -/
def alone (ts : List Token) : Reading Program := Program.ofTokens ts 0 0

/-- Alone, the tokens are exactly one declaration, and nothing is wrong with it. -/
structure IsGood (ts : List Token) : Prop where
  accepted : (alone ts).diagnostics = []
  single : (alone ts).result.length = 1

/-- Alone, the tokens are faulty.  They end with their only semicolon, there are neither braces nor
a `for` among them, no keyword that begins a statement stands behind the first of them, and the
first is no `else`. -/
structure IsBad (ts : List Token) : Prop where
  faulty : (alone ts).diagnostics ≠ []
  ends : ∃ body mark, ts = body ++ [mark] ∧ mark.kind = .semicolon ∧ ∀ t ∈ body, t.kind ≠ .semicolon
  plain : ∀ t ∈ ts, t.kind ≠ .leftBrace ∧ t.kind ≠ .rightBrace ∧ t.kind ≠ .forWord
  goes : ∀ t ∈ ts.tail, t.kind.beginsStatement = false
  begins : ∀ t ∈ ts.head?, t.kind ≠ .elseWord

/-- A bad segment is a clause. -/
theorem IsBad.isClause {ts : List Token} (bad : IsBad ts) : IsClause ts := by
  obtain ⟨body, mark, rfl, ends, before⟩ := bad.ends
  have plain := bad.plain
  have goes := bad.goes
  clear bad
  induction body with
  | nil => exact .last ends
  | cons t body ih =>
    have stands : t.kind.standsInClause = true := by
      have other := before t List.mem_cons_self
      obtain ⟨noOpen, noClose, noFor⟩ := plain t List.mem_cons_self
      cases kind : t.kind <;> simp_all [Kind.standsInClause]
    have ahead : (body ++ [mark]).head?.any (·.kind.beginsStatement) = false := by
      cases next : (body ++ [mark]).head? with
      | none => rfl
      | some u => exact goes u (List.mem_of_mem_head? next)
    refine .more stands ahead (ih (fun u mem => before u (List.mem_cons_of_mem t mem))
      (fun u mem => plain u (List.mem_cons_of_mem t mem)) fun u mem => ?_)
    exact goes u (List.mem_of_mem_tail mem)

/-! ## Reading a segment -/

/-- In front of anything but an `else`, the tokens are read as the declaration, with the
complaint. -/
structure ReadsAs (ts : List Token) (n : Site) (s : Stmt Site) (new : Option Diagnostic)
    (n' : Site) :
    Prop where
  nonempty : ts ≠ []
  begins : NotAt (· == .elseWord) ts
  run : ∀ bound rest l ds, 3 * ts.length + 2 < bound → NotAt (· == .elseWord) rest →
    Yields (readDeclaration bound) ⟨ts ++ rest, l, n, ds⟩ s ⟨rest, l, n', ds ++ new.toList⟩

section Segments

variable {ts : List Token} {n n' : Site} {s : Stmt Site} {new : Option Diagnostic}

theorem ReadsAs.notAt_append (h : ReadsAs ts n s new n') (rest : List Token) :
    NotAt (· == .elseWord) (ts ++ rest) := by
  obtain ⟨t, us, rfl⟩ := List.exists_cons_of_ne_nil h.nonempty
  exact h.begins

end Segments

/-- Segments as they are read in turn, each with the sites behind those of the ones before. -/
inductive ReadsInTurn : List (List Token) → Site → Program → List Diagnostic → Site → Prop
  | done {n} : ReadsInTurn [] n [] [] n
  | more {ts segments n n' n'' s new ss ds} (first : ReadsAs ts n s new n')
      (rest : ReadsInTurn segments n' ss ds n'') :
      ReadsInTurn (ts :: segments) n (s :: ss) (new.toList ++ ds) n''

namespace ReadsInTurn

variable {segments : List (List Token)} {n n' : Site} {ss : Program} {ds : List Diagnostic}

theorem notAt (h : ReadsInTurn segments n ss ds n') : NotAt (· == .elseWord) segments.flatten := by
  cases h with
  | done => exact .nil
  | more first rest => exact first.notAt_append _

theorem length_le (h : ReadsInTurn segments n ss ds n') :
    segments.length ≤ segments.flatten.length := by
  induction h with
  | done => exact Nat.le_refl 0
  | more first rest ih =>
    have nonempty := List.length_pos_iff.mpr first.nonempty
    simp only [List.flatten_cons, List.length_append, List.length_cons]
    omega

/-- One declaration is read for each segment. -/
theorem run (h : ReadsInTurn segments n ss ds n') {bound l : Nat}
    (enough : 3 * segments.flatten.length + 2 < bound) (before : List Diagnostic) :
    ∀ turns, segments.length < turns →
      Yields (readDeclarations (readDeclaration bound) turns) ⟨segments.flatten, l, n, before⟩ ss
        ⟨[], l, n', before ++ ds⟩ := by
  induction h generalizing before with
  | done =>
    intro turns many
    obtain ⟨turns, rfl⟩ : ∃ m, turns = m + 1 := ⟨turns - 1, by omega⟩
    rw [List.append_nil]
    exact yields_isAtEnd.bind rfl
  | @more ts segments n n' n'' s new ss ds first rest ih =>
    intro turns many
    obtain ⟨turns, rfl⟩ : ∃ m, turns = m + 1 := ⟨turns - 1, by omega⟩
    rw [List.flatten_cons, List.length_append] at enough
    rw [List.length_cons] at many
    have declared := first.run bound segments.flatten l before (by omega) rest.notAt
    have others := ih (by omega) (before ++ new.toList) turns (by omega)
    rw [List.append_assoc] at others
    obtain ⟨t, us, rfl⟩ := List.exists_cons_of_ne_nil first.nonempty
    refine yields_isAtEnd.bind ?_
    exact declared.bind (others.bind rfl)

/-- The text of the segments yields what they yield in turn. -/
theorem ofTokens (h : ReadsInTurn segments n ss ds n') (endLine : Nat) :
    Program.ofTokens segments.flatten endLine n = ⟨ss, ds, .endOfInput endLine, n'⟩ := by
  have many : segments.length < nestingBound segments.flatten := by
    have le := h.length_le
    unfold nestingBound
    omega
  have whole : Yields (readProgram segments.flatten) (.start segments.flatten endLine n) ss
      ⟨[], endLine, n', [] ++ ds⟩ := h.run (Nat.lt_succ_self _) [] _ many
  unfold Yields at whole
  rw [ofTokens_eq, whole]
  rfl

end ReadsInTurn

section Alone

variable {ts : List Token} {n n' : Site} {s : Stmt Site} {new : Option Diagnostic}

/-- Tokens that are read alone, but with other sites. -/
theorem ofTokens_alone (ts : List Token) (n : Site) :
    Program.ofTokens ts 0 n = (alone ts).later id n := by
  have later := ofTokens_later id n ts 0 0
  rwa [Token.reline_id, List.map_id, id, Nat.zero_add] at later

/-- What a segment gives alone is the same, but for the sites. -/
theorem ReadsAs.alone (h : ReadsAs ts n s new n') :
    (LoxLang.alone ts).diagnostics = new.toList ∧
      ∃ s', (LoxLang.alone ts).result = [s'] ∧ s = s'.map (· + n) := by
  have single := (ReadsInTurn.more h .done).ofTokens 0
  rw [List.flatten_singleton, List.append_nil, ofTokens_alone] at single
  injection single with result complaints
  constructor
  · rw [← complaints]
    exact (List.map_id _).symm
  · rw [Stmt.relabelAll_eq] at result
    obtain ⟨s', found, same⟩ := List.map_eq_singleton_iff.mp result
    rw [relabel_idStmt] at same
    exact ⟨s', found, same.symm⟩

/-- A good segment is read as its declaration, and nothing is complained about. -/
theorem IsGood.readsAs (good : IsGood ts) (n : Site) :
    ∃ s n', s ≠ .missing ∧ ReadsAs ts n s none n' := by
  have accepted : (Program.ofTokens ts 0 n).diagnostics = [] := by
    rw [ofTokens_alone, Reading.later, good.accepted]
    rfl
  obtain ⟨p, n', derives⟩ := derives_of_accepted 0 n accepted
  have result : (Program.ofTokens ts 0 n).result = p :=
    ((program_read_exactly ts 0 n).2 p n' derives).1
  obtain ⟨s, rfl⟩ : ∃ s, p = [s] := by
    rw [ofTokens_alone, Reading.later, Stmt.relabelAll_eq] at result
    refine List.length_eq_one_iff.mp ?_
    rw [← result, List.length_map]
    exact good.single
  have whole : s ≠ .missing := by
    rintro rfl
    refine absurd accepted ((complained_iff_holed true ts 0 n).mpr ?_)
    rw [result]
    rfl
  cases derives with
  | more first rest =>
    cases rest
    rw [List.append_nil] at *
    have begins := first.begins rfl
    refine ⟨s, n', whole, ?_, ?_, fun bound rest l ds enough stops => ?_⟩
    · exact List.ne_nil_of_length_pos begins.length_pos
    · have apart := (Derives.more first .done).not_else (.nil : NotAt (· == .elseWord) [])
      rwa [List.append_nil, List.append_nil] at apart
    · rw [Option.toList_none, List.append_nil]
      exact first.isRead bound rest l ds enough stops

/-- A bad segment is read as a missing statement, and one thing is complained about. -/
theorem IsBad.readsAs (bad : IsBad ts) (n : Site) : ∃ d n', ReadsAs ts n .missing (some d) n' := by
  have clause := bad.isClause
  have nonempty : ts ≠ [] := by cases clause <;> exact List.cons_ne_nil _ _
  have length := List.length_pos_iff.mpr nonempty
  have begins : NotAt (· == .elseWord) ts := fun t mem => beq_false_of_ne (bad.begins t mem)
  have size : ts.length + 3 < nestingBound ts := by
    unfold nestingBound
    omega
  -- The text of the segment alone says what is read, and every other text agrees with it.
  let lone : Setting := ⟨[], 0, []⟩
  obtain ⟨s, n', new, told, -, run⟩ :=
    alike_declaration lone lone .nil .nil clause size size n
  have reads : ReadsAs ts n s new n' := by
    refine ⟨nonempty, begins, fun bound rest l ds enough stops => ?_⟩
    have enough' : ts.length + 3 < bound := by omega
    let there : Setting := ⟨rest, l, ds⟩
    obtain ⟨s₁, n₁, new₁, -, run₁, run'⟩ :=
      alike_declaration there lone stops .nil clause enough' size n
    have same := run.symm.trans run'
    simp only [Prod.mk.injEq, Except.ok.injEq, Cursor.mk.injEq, true_and,
      List.append_cancel_left_eq] at same
    obtain ⟨rfl, rfl, complaints⟩ := same
    rw [complaints]
    exact run₁
  obtain ⟨complaints, -⟩ := reads.alone
  rcases told with rfl | rfl
  · exact absurd complaints bad.faulty
  · cases new with
    | none => exact absurd complaints bad.faulty
    | some d => exact ⟨d, n', reads⟩

end Alone

/-! ## Texts of segments -/

/-- What a segment gives in a text: its tree with later sites, or a missing statement. -/
structure Gives (ts : List Token) (s : Stmt Site) : Prop where
  good : IsGood ts → ∃ s' k, s' ≠ .missing ∧ (alone ts).result = [s'] ∧ s = s'.map (· + k)
  bad : IsBad ts → s = .missing ∧ (alone ts).result = [.missing] ∧ ∃ d, (alone ts).diagnostics = [d]

theorem not_missing_map {s : Stmt Site} {f : Site → Site} (h : s.map f ≠ .missing) :
    s ≠ .missing := by
  rintro rfl
  exact h rfl

theorem eq_missing_of_map {s : Stmt Site} {f : Site → Site} (h : .missing = s.map f) :
    s = .missing := by
  cases s with
  | missing => rfl
  | var _ init => cases init <;> cases h
  | ifElse _ _ e => cases e <;> cases h
  | ret _ value => cases value <;> cases h
  | _ => cases h

/-- Good and bad segments are read in turn. -/
theorem readsInTurn_of_segments : ∀ {segments : List (List Token)} (n : Site),
    (∀ ts ∈ segments, IsGood ts ∨ IsBad ts) → ∃ ss n',
      ReadsInTurn segments n ss (segments.flatMap fun ts => (alone ts).diagnostics) n' ∧
        List.Forall₂ Gives segments ss
  | [], n, _ => ⟨[], n, .done, .nil⟩
  | ts :: segments, n, each => by
    have rest := fun n' => readsInTurn_of_segments n' fun us mem =>
      each us (List.mem_cons_of_mem ts mem)
    rcases each ts List.mem_cons_self with good | bad
    · obtain ⟨s, n', whole, reads⟩ := good.readsAs n
      obtain ⟨ss, n'', others, gives⟩ := rest n'
      obtain ⟨silent, s', found, same⟩ := reads.alone
      refine ⟨s :: ss, n'', ?_, .cons ⟨fun _ => ⟨s', n, ?_, found, same⟩, fun bad => ?_⟩ gives⟩
      · rw [List.flatMap_cons, silent]
        exact .more reads others
      · rw [same] at whole
        exact not_missing_map whole
      · exact absurd good.accepted bad.faulty
    · obtain ⟨d, n', reads⟩ := bad.readsAs n
      obtain ⟨ss, n'', others, gives⟩ := rest n'
      obtain ⟨complaint, s', found, same⟩ := reads.alone
      refine
        ⟨.missing :: ss, n'', ?_, .cons ⟨fun good => ?_, fun _ => ⟨rfl, ?_, d, complaint⟩⟩ gives⟩
      · rw [List.flatMap_cons, complaint]
        exact .more reads others
      · exact absurd good.accepted bad.faulty
      · rw [found, eq_missing_of_map same]

/-- A text of good and bad segments yields exactly one entry for each segment, in order: the tree of
a good one as it is read alone, and a missing statement for a bad one.  The complaints are those of
the bad segments alone, one for each. -/
theorem recovery_isolates (segments : List (List Token)) (endLine : Nat) (firstSite : Site)
    (each : ∀ ts ∈ segments, IsGood ts ∨ IsBad ts) :
    let reading := Program.ofTokens segments.flatten endLine firstSite
    List.Forall₂ Gives segments reading.result ∧
      reading.diagnostics = segments.flatMap fun ts => (alone ts).diagnostics := by
  intro reading
  obtain ⟨ss, n', inTurn, gives⟩ := readsInTurn_of_segments firstSite each
  have read : reading = ⟨ss, _, .endOfInput endLine, n'⟩ := inTurn.ofTokens endLine
  rw [read]
  exact ⟨gives, rfl⟩

/-- A declaration without a name between two statements: `print nil; var; x;`. -/
def unnamedBetween : List (List Token) :=
  let word (kind : Kind) (lexeme : String) : Token := ⟨kind, lexeme, .nil, 1⟩
  [[word .printWord "print", word .nilWord "nil", word .semicolon ";"],
    [word .varWord "var", word .semicolon ";"], [word .identifier "x", word .semicolon ";"]]

/-- The statements around the fault are read. -/
theorem recovery_isolates_unnamedBetween :
    (∀ ts ∈ unnamedBetween, IsGood ts ∨ IsBad ts) ∧
      List.Forall₂ Gives unnamedBetween (Program.ofTokens unnamedBetween.flatten 1 0).result := by
  have each : ∀ ts ∈ unnamedBetween, IsGood ts ∨ IsBad ts := by
    intro ts mem
    rcases mem with _ | ⟨_, _ | ⟨_, _ | ⟨_, ⟨⟩⟩⟩⟩
    · exact .inl ⟨by cbv, by cbv⟩
    · refine .inr
        ⟨by cbv; simp, ⟨[_], _, rfl, rfl, by simp⟩, by simp, by simp [Kind.beginsStatement],
        by simp⟩
    · exact .inl ⟨by cbv, by cbv⟩
  exact ⟨each, (recovery_isolates unnamedBetween 1 0 each).1⟩

end LoxLang
