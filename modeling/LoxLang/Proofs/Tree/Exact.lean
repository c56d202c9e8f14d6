/-
LoxLang.Proofs.Tree.Exact: programs are read exactly as the grammar says.

The two directions meet here for whole texts.  A text that derives is read without a complaint, and
one that is read without a complaint derives, whatever the bound on nesting that the number of its
tokens gives.

Main statement: `program_read_exactly`.
-/
import LoxLang.Proofs.Tree.Recognized

namespace LoxLang

variable {tokens : List Token} {p q : Program} {n n' n'' : Site}

/-- The cursor in front of a text. -/
def Cursor.start (tokens : List Token) (endLine : Nat) (firstSite : Site) : Cursor :=
  ⟨tokens, endLine, firstSite, []⟩

/-- The reader of a whole text. -/
def readProgram (tokens : List Token) : Read Program :=
  readDeclarations (readDeclaration (nestingBound tokens)) (nestingBound tokens)

/-- What is read is put together from what the reader of the text comes to. -/
theorem ofTokens_eq (tokens : List Token) (endLine : Nat) (firstSite : Site) :
    Program.ofTokens tokens endLine firstSite =
      let (result, cursor) := outcome (readProgram tokens) (.start tokens endLine firstSite)
      ⟨result.toOption.getD [], cursor.diagnostics, cursor.next, cursor.nextSite⟩ := rfl

/-- A text that derives is read as the tree that it denotes. -/
theorem Derives.yields_program (h : Derives (.declarations p) n tokens n') (endLine : Nat) :
    Yields (readProgram tokens) (.start tokens endLine n) p (.start [] endLine n') := by
  have whole := (h.isRead (nestingBound tokens) [] endLine [] (Nat.lt_succ_self _)).2 rfl
    (nestingBound tokens) (by unfold nestingBound; omega)
  rw [List.append_nil] at whole
  exact whole

/-- The grammar is unambiguous. -/
theorem Derives.program_unique (h : Derives (.declarations p) n tokens n')
    (h' : Derives (.declarations q) n tokens n'') : p = q ∧ n' = n'' := by
  have same := (h.yields_program 0).symm.trans (h'.yields_program 0)
  cases same
  exact ⟨rfl, rfl⟩

/-- The bound on nesting suffices for every text that has tokens. -/
theorem recognizes_program (tokens : List Token) (nonempty : 0 < tokens.length) :
    Recognizes (tokens.length + 1) (readProgram tokens) fun ss n ts n' rest =>
      Derives (.declarations ss) n ts n' ∧ rest = [] := by
  have declaration := (recognizes_all (nestingBound tokens)).2.2 (tokens.length + 1)
    (by unfold nestingBound; omega) (by unfold nestingBound; omega)
  exact recognizes_declarations (by unfold nestingBound; omega) declaration

/-- A text that is read without a complaint derives. -/
theorem derives_of_accepted (endLine : Nat) (firstSite : Site)
    (accepted : (Program.ofTokens tokens endLine firstSite).diagnostics = []) :
    ∃ p n, Derives (.declarations p) firstSite tokens n := by
  cases tokens with
  | nil => exact ⟨[], firstSite, .done⟩
  | cons t ts =>
    have ends := recognizes_program (t :: ts) (Nat.succ_pos _) (.start (t :: ts) endLine firstSite)
    have few : (Cursor.start (t :: ts) endLine firstSite).rest.length < (t :: ts).length + 1 :=
      Nat.lt_succ_self _
    rw [ofTokens_eq] at accepted
    rcases run : outcome (readProgram (t :: ts)) (.start (t :: ts) endLine firstSite)
      with ⟨e | p, c⟩ <;> rw [run] at accepted
    -- A reader that gave up has complained.
    · exact absurd accepted ((ends.error run).2 few)
    · obtain ⟨us, split, derives, all⟩ := (ends.ok run).2 few accepted
      rw [all, List.append_nil] at split
      have same : t :: ts = us := split
      exact ⟨p, c.nextSite, same ▸ derives⟩

/-- A text is read without a complaint if and only if it derives from the grammar, and then it is
read as the tree that the derivation denotes. -/
theorem program_read_exactly (tokens : List Token) (endLine : Nat) (firstSite : Site) :
    let reading := Program.ofTokens tokens endLine firstSite
    (reading.diagnostics = [] ↔ ∃ p n, Derives (.declarations p) firstSite tokens n) ∧
      ∀ p n, Derives (.declarations p) firstSite tokens n →
        reading.result = p ∧ reading.nextSite = n := by
  have denoted : ∀ p n, Derives (.declarations p) firstSite tokens n →
      Program.ofTokens tokens endLine firstSite = ⟨p, [], .endOfInput endLine, n⟩ := by
    intro p n h
    have run := h.yields_program endLine
    unfold Yields at run
    rw [ofTokens_eq, run]
    rfl
  refine ⟨⟨derives_of_accepted endLine firstSite, ?_⟩, ?_⟩
  · rintro ⟨p, n, h⟩
    rw [denoted p n h]
  · intro p n h
    rw [denoted p n h]
    exact ⟨rfl, rfl⟩

/-- Where a text ends does not matter to its program if nothing is wrong with it. -/
theorem ofTokens_endLine {endLine : Nat}
    (accepted : (Program.ofTokens tokens endLine n).diagnostics = []) (endLine' : Nat) :
    (Program.ofTokens tokens endLine' n).diagnostics = [] ∧
      (Program.ofTokens tokens endLine' n).result = (Program.ofTokens tokens endLine n).result ∧
      (Program.ofTokens tokens endLine' n).nextSite =
        (Program.ofTokens tokens endLine n).nextSite := by
  obtain ⟨p, n', derives⟩ := derives_of_accepted endLine n accepted
  obtain ⟨result, sites⟩ := (program_read_exactly tokens endLine n).2 p n' derives
  have elsewhere := program_read_exactly tokens endLine' n
  obtain ⟨result', sites'⟩ := elsewhere.2 p n' derives
  exact ⟨elsewhere.1.mpr ⟨p, n', derives⟩, result'.trans result.symm, sites'.trans sites.symm⟩

theorem Derives.append (h : Derives (.declarations p) n tokens n') {tokens' : List Token}
    (h' : Derives (.declarations q) n' tokens' n'') :
    Derives (.declarations (p ++ q)) n (tokens ++ tokens') n'' := by
  induction p generalizing n tokens with
  | nil =>
    cases h
    exact h'
  | cons s p ih =>
    cases h with
    | more first rest =>
      rw [List.append_assoc]
      exact .more first (ih rest)

/-- Two texts that are read without a complaint are read as one text in the same way. -/
theorem ofTokens_append {tokens' : List Token} {endLine endLine' : Nat}
    (accepted : (Program.ofTokens tokens endLine n).diagnostics = [])
    (accepted' : (Program.ofTokens tokens' endLine'
      (Program.ofTokens tokens endLine n).nextSite).diagnostics = []) (endLine'' : Nat) :
    let first := Program.ofTokens tokens endLine n
    let second := Program.ofTokens tokens' endLine' first.nextSite
    let both := Program.ofTokens (tokens ++ tokens') endLine'' n
    both.diagnostics = [] ∧ both.result = first.result ++ second.result ∧
      both.nextSite = second.nextSite := by
  intro first second both
  obtain ⟨p, n', derives⟩ := derives_of_accepted endLine n accepted
  have read := (program_read_exactly tokens endLine n).2 p n' derives
  obtain ⟨q, n'', derives'⟩ := derives_of_accepted endLine' _ accepted'
  have read' := (program_read_exactly tokens' endLine' _).2 q n'' derives'
  rw [read.2] at derives'
  have exact := program_read_exactly (tokens ++ tokens') endLine'' n
  have joined := derives.append derives'
  have read'' := exact.2 _ _ joined
  refine ⟨exact.1.mpr ⟨_, _, joined⟩, ?_, ?_⟩
  · rw [read''.1, read.1, read'.1]
  · rw [read''.2, read'.2]

end LoxLang
