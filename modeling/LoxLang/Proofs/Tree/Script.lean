/-
LoxLang.Proofs.Tree.Script: readers of tokens on a stream with an index.

A reader sees its tokens as a list that becomes shorter, where nothing can be out of place.  The
same moves can be made on a stream, which keeps all of its tokens, the one for the end among them,
and counts up an index.  There a look may fail: the index may have left the tokens, or the token
before it may be asked for although none was consumed.  The moves of a reader are written down as a
script, which has a meaning on both sides.

* `TokenStream`: tokens with an index; its moves find nothing where the index is out of place.
* `Script`: the moves of a reader, each with what follows it.
* `Script.read`, `Script.onStream`: the reader that a script stands for, and its run on a stream.
* `Scripted`: the reader that some script stands for, with a rule for every way to make readers.

Main statement: `onStream_read`, the two meanings of a script agree.
-/
import LoxLang.Proofs.Outcome
import LoxLang.Proofs.Tree.Reading
import LoxLang.Proofs.Tree.Yields

namespace LoxLang

/-! ## Streams -/

/-- Tokens, of which the last one stands for the end, with the index of the next one. -/
structure TokenStream where
  tokens : List Token
  index : Nat

namespace TokenStream

/-- The next token; nothing if the index is no index of the tokens. -/
def peek? (s : TokenStream) : Option Token := s.tokens[s.index]?

/-- The token consumed last; nothing if none was consumed. -/
def previous? (s : TokenStream) : Option Token :=
  if s.index = 0 then none else s.tokens[s.index - 1]?

/-- The next token is the one for the end. -/
def atEnd? (s : TokenStream) : Option Bool := return (← s.peek?).kind = .endOfInput

/-- Goes on by a token, but not beyond the one for the end; yields the token consumed last. -/
def advance? (s : TokenStream) : Option (Token × TokenStream) := do
  let moved := if ← s.atEnd? then s else { s with index := s.index + 1 }
  return (← moved.previous?, moved)

/-- The next token is accepted and is not the one for the end. -/
def check? (s : TokenStream) (accept : Kind → Bool) : Option Bool := do
  if ← s.atEnd? then return false
  return accept (← s.peek?).kind

/-- Consumes the next token if it is accepted. -/
def consume? (s : TokenStream) (accept : Kind → Bool) : Option (Option Token × TokenStream) := do
  if ← s.check? accept then
    let (t, moved) ← s.advance?
    return (some t, moved)
  else return (none, s)

/-- Goes on until just after a semicolon, or before a keyword that begins a statement, or to the
end, in at most so many turns. -/
def skip? : Nat → TokenStream → Option TokenStream
  | 0, _ => none
  | turns + 1, s => do
    if ← s.atEnd? then return s
    if (← s.previous?).kind = .semicolon then return s
    if (← s.peek?).kind.beginsStatement then return s
    let (_, moved) ← s.advance?
    skip? turns moved

/-- Goes on by a token, and then to where reading is taken up again after a fault. -/
def synchronize? (s : TokenStream) : Option TokenStream := do
  let (_, moved) ← s.advance?
  skip? s.tokens.length moved

/-- The stream of the tokens, and of the one for the end, whose index is in front of the rest. -/
def before (tokens : List Token) (eof : Token) (rest : List Token) : TokenStream :=
  ⟨tokens ++ [eof], tokens.length - rest.length⟩

/-- What is left behind an index stands right before it. -/
theorem before_drop {tokens : List Token} (eof : Token) {index : Nat} (le : index ≤ tokens.length) :
    before tokens eof (tokens.drop index) = ⟨tokens ++ [eof], index⟩ := by
  rw [before, List.length_drop, Nat.sub_sub_self le]

section Moves

variable {tokens rest : List Token} {eof t : Token}

/-- A look finds the next token, or the one for the end. -/
theorem peek?_before (h : rest <:+ tokens) :
    (before tokens eof rest).peek? = some (rest.head?.getD eof) := by
  obtain ⟨consumed, rfl⟩ := h
  cases rest <;> simp [before, peek?]

/-- The token consumed last stands in front of what is left. -/
theorem previous?_before (h : t :: rest <:+ tokens) :
    (before tokens eof rest).previous? = some t := by
  obtain ⟨consumed, rfl⟩ := h
  have index : consumed.length + (rest.length + 1) - rest.length = consumed.length + 1 := by
    omega
  simp [before, previous?, index]

variable (inner : ∀ t ∈ tokens, t.kind ≠ .endOfInput) (last : eof.kind = .endOfInput)

include inner last

/-- The stream has ended if nothing is left. -/
theorem atEnd?_before (h : rest <:+ tokens) :
    (before tokens eof rest).atEnd? = some rest.isEmpty := by
  rw [atEnd?, peek?_before h]
  cases rest with
  | nil => simp [last]
  | cons t rest => simp [inner t (h.subset List.mem_cons_self)]

/-- To consume a token leaves what stands behind it. -/
theorem advance?_before (h : t :: rest <:+ tokens) :
    (before tokens eof (t :: rest)).advance? = some (t, before tokens eof rest) := by
  have moved : { before tokens eof (t :: rest) with
      index := (before tokens eof (t :: rest)).index + 1 } = before tokens eof rest := by
    have shorter := h.length_le
    rw [List.length_cons] at shorter
    simp only [before, List.length_cons, TokenStream.mk.injEq, true_and]
    omega
  simp [advance?, atEnd?_before inner last h, moved, previous?_before h]

/-- At the end the index stays, and the last token but the one for the end was consumed. -/
theorem advance?_before_nil (nonempty : tokens ≠ []) :
    (before tokens eof []).advance? = some (tokens.getLast nonempty, before tokens eof []) := by
  have consumed : [tokens.getLast nonempty] <:+ tokens :=
    ⟨tokens.dropLast, List.dropLast_concat_getLast nonempty⟩
  simp [advance?, atEnd?_before inner last List.nil_suffix, previous?_before consumed]

/-- A check tells what the next token is. -/
theorem check?_before (h : rest <:+ tokens) (accept : Kind → Bool) :
    (before tokens eof rest).check? accept = some (rest.head?.any (accept ·.kind)) := by
  rw [check?, atEnd?_before inner last h, peek?_before h]
  cases rest <;> rfl

/-- A token of no accepted kind is left. -/
theorem consume?_before_of_not (h : rest <:+ tokens) {accept : Kind → Bool}
    (other : rest.head?.any (accept ·.kind) = false) :
    (before tokens eof rest).consume? accept = some (none, before tokens eof rest) := by
  simp [consume?, check?_before inner last h, other]

/-- One of an accepted kind is consumed. -/
theorem consume?_before (h : t :: rest <:+ tokens) {accept : Kind → Bool}
    (fits : accept t.kind = true) :
    (before tokens eof (t :: rest)).consume? accept = some (some t, before tokens eof rest) := by
  simp [consume?, check?_before inner last h, advance?_before inner last h, fits]

/-- Behind a token that was consumed, skipping goes on as it does for a list. -/
theorem skip?_before {turns : Nat} (enough : rest.length < turns) (h : t :: rest <:+ tokens) :
    skip? turns (before tokens eof rest) = some (before tokens eof (skipFaulty (t :: rest))) := by
  induction rest generalizing t turns with
  | nil =>
    obtain ⟨turns, rfl⟩ : ∃ m, turns = m + 1 := ⟨turns - 1, by omega⟩
    simp [skip?, skipFaulty, atEnd?_before inner last List.nil_suffix]
  | cons u rest ih =>
    obtain ⟨turns, rfl⟩ : ∃ m, turns = m + 1 := ⟨turns - 1, by omega⟩
    have h' : u :: rest <:+ tokens := (List.suffix_cons t _).trans h
    have enough' : rest.length < turns := Nat.lt_of_succ_lt_succ enough
    have goesOn := ih enough' h'
    rw [skip?, atEnd?_before inner last h', previous?_before h, peek?_before h', skipFaulty]
    by_cases ends : t.kind = .semicolon
    · simp [ends]
    by_cases begins : u.kind.beginsStatement = true
    · simp [ends, begins]
    · simp [ends, begins, advance?_before inner last h', goesOn]

/-- Behind a fault the stream stands where the list goes on. -/
theorem synchronize?_before (nonempty : tokens ≠ []) (h : rest <:+ tokens) :
    (before tokens eof rest).synchronize? = some (before tokens eof (skipFaulty rest)) := by
  cases rest with
  | nil =>
    have all : (before tokens eof []).tokens.length = tokens.length + 1 := by simp [before]
    simp [synchronize?, advance?_before_nil inner last nonempty, all, skip?,
      atEnd?_before inner last List.nil_suffix, skipFaulty]
  | cons t rest =>
    have enough : rest.length < (before tokens eof (t :: rest)).tokens.length := by
      have shorter := h.length_le
      rw [List.length_cons] at shorter
      simp only [before, List.length_append, List.length_singleton]
      omega
    simp [synchronize?, advance?_before inner last h, skip?_before inner last enough h]

end Moves

end TokenStream

/-! ## Scripts -/

/-- The moves of a reader. -/
inductive Script : Type → Type 1
  | done {α : Type} (a : α) : Script α
  | bind {α β : Type} (first : Script α) (next : α → Script β) : Script β
  | atEnd : Script Bool
  | check (kind : Kind) : Script Bool
  | take (accept : Kind → Bool) : Script (Option Token)
  /-- Takes sites, without a look at the tokens. -/
  | number {α : Type} (act : StateM Site α) : Script α
  /-- Complains about a token that was consumed before, and gives up. -/
  | failAt {α : Type} (t : Token) (f : SyntaxFault) : Script α
  /-- Complains about the next token and gives up. -/
  | fail {α : Type} (f : SyntaxFault) : Script α
  | outOfBound {α : Type} : Script α
  /-- Reads a statement, and skips ahead if it is faulty. -/
  | recover (inner : Script (Stmt Site)) : Script (Stmt Site)

/-- The reader that a script stands for. -/
def Script.read {α : Type} : Script α → Read α
  | .done a => pure a
  | .bind first next => first.read >>= fun a => (next a).read
  | .atEnd => isAtEnd
  | .check kind => isAt kind
  | .take accept => takeIf accept
  | .number act => withSites act
  | .failAt t f => LoxLang.failAt t f
  | .fail f => LoxLang.fail f
  | .outOfBound => LoxLang.outOfBound
  | .recover inner => recovering inner.read

/-- A stream with the next free site and the complaints so far. -/
structure StreamState where
  stream : TokenStream
  nextSite : Site
  diagnostics : List Diagnostic

namespace StreamState

/-- Complains about a token and gives up. -/
def complain {α : Type} (p : StreamState) (t : Token) (fault : SyntaxFault) :
    Except GaveUp α × StreamState :=
  (.error .atFault, { p with diagnostics := p.diagnostics ++ [.onToken t (.grammatical fault)] })

end StreamState

/-- Runs a script on a stream; nothing if one of its moves found nothing. -/
def Script.onStream {α : Type} : Script α → StreamState → Option (Except GaveUp α × StreamState)
  | .done a, p => some (.ok a, p)
  | .bind first next, p => do
    match ← first.onStream p with
    | (.ok a, p') => (next a).onStream p'
    | (.error e, p') => return (.error e, p')
  | .atEnd, p => return (.ok (← p.stream.atEnd?), p)
  | .check kind, p => return (.ok (← p.stream.check? (· == kind)), p)
  | .take accept, p => do
    let (found, moved) ← p.stream.consume? accept
    return (.ok found, { p with stream := moved })
  | .number act, p => some (.ok (act p.nextSite).1, { p with nextSite := (act p.nextSite).2 })
  | .failAt t f, p => some (p.complain t f)
  | .fail f, p => return p.complain (← p.stream.peek?) f
  | .outOfBound, p => some (.error .atBound, p)
  | .recover inner, p => do
    match ← inner.onStream p with
    | (.error .atFault, p') => return (.ok .missing, { p' with stream := ← p'.stream.synchronize? })
    | (outcome, p') => return (outcome, p')

/-! ## The two meanings agree -/

section Agree

variable {α β : Type} {tokens : List Token} {eof : Token}

/-- Where a cursor stands on the stream of the tokens. -/
def Cursor.onStream (tokens : List Token) (eof : Token) (c : Cursor) : StreamState :=
  ⟨.before tokens eof c.rest, c.nextSite, c.diagnostics⟩

/-- A script consumes tokens from the front, and complains before it gives up. -/
theorem ends_script (script : Script α) : ∀ c : Cursor, Ends script.read c
    (fun _ c' => c'.rest <:+ c.rest ∧ c'.endLine = c.endLine ∧ c.diagnostics <+: c'.diagnostics)
    (fun e c' => c'.rest <:+ c.rest ∧ c'.endLine = c.endLine ∧ c.diagnostics <+: c'.diagnostics ∧
      (e = .atFault → c.diagnostics ≠ c'.diagnostics)) := by
  induction script with
  | done a => exact fun c => ⟨List.suffix_refl _, rfl, List.prefix_refl _⟩
  | bind first next ih ih' =>
    intro c
    refine (ih c).bind ?_ fun _ _ err => err
    rintro a c' - ⟨rest, line, complaints⟩
    refine (ih' a c').mono ?_ ?_
    · rintro b c'' - ⟨rest', line', complaints'⟩
      exact ⟨rest'.trans rest, line'.trans line, complaints.trans complaints'⟩
    · rintro e c'' ⟨rest', line', complaints', new⟩
      refine ⟨rest'.trans rest, line'.trans line, complaints.trans complaints',
        fun fault same => ?_⟩
      refine new fault (complaints'.eq_of_length_le ?_)
      rw [← same]
      exact complaints.length_le
  | atEnd => exact fun c => ⟨List.suffix_refl _, rfl, List.prefix_refl _⟩
  | check kind => exact fun c => ⟨List.suffix_refl _, rfl, List.prefix_refl _⟩
  | take accept =>
    intro c
    rw [Script.read, ← bind_pure (takeIf accept)]
    refine ends_takeIf (fun _ => ⟨List.suffix_refl _, rfl, List.prefix_refl _⟩)
      fun t ts rest _ => ?_
    refine ⟨?_, rfl, List.prefix_refl _⟩
    rw [rest]
    exact List.suffix_cons t ts
  | number act => exact fun c => ⟨List.suffix_refl _, rfl, List.prefix_refl _⟩
  | failAt t f =>
    refine fun c => ⟨List.suffix_refl _, rfl, List.prefix_append _ _, fun _ same => ?_⟩
    exact absurd same (by simp)
  | fail f =>
    refine fun c => ⟨List.suffix_refl _, rfl, List.prefix_append _ _, fun _ same => ?_⟩
    exact absurd same (by simp)
  | outOfBound => exact fun c => ⟨List.suffix_refl _, rfl, List.prefix_refl _, by simp⟩
  | recover inner ih =>
    intro c
    rw [Script.read, recovering, ends_tryCatch]
    refine (ih c).mono (fun _ _ _ ok => ok) ?_
    rintro e c' ⟨rest, line, complaints, -⟩
    cases e with
    | atFault => exact ⟨(skipFaulty_suffix c'.rest).trans rest, line, complaints⟩
    | atBound => exact ⟨rest, line, complaints, by simp⟩

/-- What is complained about at the end is where the text ends. -/
theorem onToken_next (last : eof.kind = .endOfInput) {c : Cursor} (line : c.endLine = eof.line)
    (fault : Fault) : Diagnostic.onToken (c.rest.head?.getD eof) fault = .onToken c.next fault := by
  rw [Cursor.next]
  cases c.rest with
  | cons t rest => rfl
  | nil => simp [Diagnostic.onToken, Place.ofToken, Token.endOfInput, last, line]

variable (inner : ∀ t ∈ tokens, t.kind ≠ .endOfInput) (last : eof.kind = .endOfInput)

include inner last

/-- Where no tokens are but the one for the end, the script must not skip ahead; it does so only
after a complaint. -/
theorem onStream_read (script : Script α) : ∀ c : Cursor, c.rest <:+ tokens →
    c.endLine = eof.line → (tokens = [] → c.diagnostics = (outcome script.read c).2.diagnostics) →
      script.onStream (c.onStream tokens eof) =
        some ((outcome script.read c).1, (outcome script.read c).2.onStream tokens eof) := by
  induction script with
  | done a => exact fun c _ _ _ => rfl
  | @bind α β first next ih ih' =>
    intro c rest line quiet
    have moved := ends_script first c
    have goesOn := ends_script (.bind first next) c
    rcases run : (first.read c : Except GaveUp α × Cursor) with ⟨e | a, c'⟩
    · have whole : outcome (Script.bind first next).read c = (.error e, c') := by
        rw [outcome, Script.read, run_bind, run]
      have here := ih c rest line (by rw [whole] at quiet; rw [outcome, run]; exact quiet)
      rw [Script.onStream, here, outcome, run, whole]
      rfl
    · have whole : outcome (Script.bind first next).read c = outcome (next a).read c' := by
        rw [outcome, Script.read, run_bind, run]
        rfl
      obtain ⟨rest', line', complaints⟩ := moved.ok run
      rw [whole] at quiet ⊢
      -- Complaints are not taken back, so there are none in either part.
      have between : c'.diagnostics <+: (outcome (next a).read c').2.diagnostics := by
        have later := ends_script (next a) c'
        rcases run' : outcome (next a).read c' with ⟨e | b, c''⟩
        · exact (later.error run').2.2.1
        · exact (later.ok run').2.2
      have quiet₁ (none : tokens = []) : c.diagnostics = c'.diagnostics := by
        refine complaints.eq_of_length_le ?_
        rw [quiet none]
        exact between.length_le
      have here := ih c rest line (by rw [outcome, run]; exact quiet₁)
      have there := ih' a c' (rest'.trans rest) (line'.trans line) fun none =>
        (quiet₁ none).symm.trans (quiet none)
      rw [Script.onStream, here, outcome, run]
      exact there
  | atEnd =>
    intro c rest line _
    simp only [Script.onStream, Cursor.onStream, TokenStream.atEnd?_before inner last rest]
    rfl
  | check kind =>
    intro c rest line _
    simp only [Script.onStream, Cursor.onStream, TokenStream.check?_before inner last rest]
    rfl
  | take accept =>
    rintro ⟨ts, l, n, ds⟩ rest line -
    by_cases fits : ts.head?.any (accept ·.kind) = true
    · obtain ⟨t, us, rfl⟩ : ∃ t us, ts = t :: us := by
        cases ts with
        | nil => simp at fits
        | cons t us => exact ⟨t, us, rfl⟩
      have taken : outcome (takeIf accept) ⟨t :: us, l, n, ds⟩ = _ :=
        yields_takeIf (by simpa using fits)
      simp only [Script.onStream, Cursor.onStream, Script.read, taken,
        TokenStream.consume?_before inner last rest (by simpa using fits)]
      rfl
    · have other : ts.head?.any (accept ·.kind) = false := by simpa using fits
      have taken : outcome (takeIf accept) ⟨ts, l, n, ds⟩ = _ :=
        yields_takeIf_none fun t mem => by simpa [Option.mem_def.mp mem] using other
      simp only [Script.onStream, Cursor.onStream, Script.read, taken,
        TokenStream.consume?_before_of_not inner last rest other]
      rfl
  | number act => exact fun c _ _ _ => rfl
  | failAt t f => exact fun c _ _ _ => rfl
  | fail f =>
    intro c rest line _
    simp only [Script.onStream, Cursor.onStream, TokenStream.peek?_before rest]
    show some (StreamState.complain _ _ f) = _
    rw [StreamState.complain, onToken_next last line]
    rfl
  | outOfBound => exact fun c _ _ _ => rfl
  | recover inside ih =>
    intro c rest line quiet
    have moved := ends_script inside c
    have same {r : Except GaveUp (Stmt Site)} {c' : Cursor} (run : outcome inside.read c = (r, c'))
        (other : r ≠ .error .atFault) : outcome (Script.recover inside).read c = (r, c') := by
      rw [outcome] at run
      rw [outcome, Script.read, recovering, run_tryCatch, run]
      rcases r with ⟨_ | _⟩ | s <;> first | rfl | exact absurd rfl other
    rcases run : outcome inside.read c with ⟨e | s, c'⟩
    · cases e with
      | atFault =>
        have whole : outcome (Script.recover inside).read c =
            (.ok .missing, { c' with rest := skipFaulty c'.rest }) := yields_recovering run
        obtain ⟨rest', -, -, new⟩ := moved.error run
        rw [whole] at quiet ⊢
        have nonempty : tokens ≠ [] := fun none => new rfl (quiet none)
        have here := ih c rest line fun none => absurd none nonempty
        have skipped := TokenStream.synchronize?_before inner last nonempty (rest'.trans rest)
        rw [Script.onStream, here, run]
        simp only [Option.bind_eq_bind, Option.bind_some, Cursor.onStream, skipped]
        rfl
      | atBound =>
        have whole := same run (by simp)
        rw [whole] at quiet ⊢
        have here := ih c rest line (by rw [run]; exact quiet)
        rw [Script.onStream, here, run]
        rfl
    · have whole := same run (by simp)
      rw [whole] at quiet ⊢
      have here := ih c rest line (by rw [run]; exact quiet)
      rw [Script.onStream, here, run]
      rfl

end Agree

/-! ## Readers that are told by scripts -/

/-- The reader makes the moves of some script, and no others. -/
def Scripted {α : Type} (read : Read α) : Prop := ∃ script : Script α, script.read = read

namespace Scripted

variable {α β : Type} {read : Read α} {next : α → Read β}

theorem pure (a : α) : Scripted (Pure.pure a) := ⟨.done a, rfl⟩

/-- Scripts in a row are a script. -/
theorem bind (first : Scripted read) (second : ∀ a, Scripted (next a)) :
    Scripted (read >>= next) := by
  obtain ⟨script, rfl⟩ := first
  exact ⟨.bind script fun a => (second a).choose, bind_congr fun a => (second a).choose_spec⟩

theorem takeIf (accept : Kind → Bool) : Scripted (LoxLang.takeIf accept) := ⟨.take accept, rfl⟩

theorem isAt (kind : Kind) : Scripted (LoxLang.isAt kind) := ⟨.check kind, rfl⟩

theorem isAtEnd : Scripted LoxLang.isAtEnd := ⟨.atEnd, rfl⟩

/-- What concerns sites alone is no move on the stream. -/
theorem newReference (t : Token) : Scripted (LoxLang.newReference t) :=
  ⟨.number fun n => (⟨t, n⟩, n + 1), rfl⟩

theorem withSites (act : StateM Site α) : Scripted (LoxLang.withSites act) := ⟨.number act, rfl⟩

theorem failAt (t : Token) (fault : SyntaxFault) : Scripted (LoxLang.failAt t fault : Read α) :=
  ⟨.failAt t fault, rfl⟩

theorem fail (fault : SyntaxFault) : Scripted (LoxLang.fail fault : Read α) := ⟨.fail fault, rfl⟩

theorem outOfBound : Scripted (LoxLang.outOfBound : Read α) := ⟨.outOfBound, rfl⟩

/-- To recover is a move of its own. -/
theorem recovering {read : Read (Stmt Site)} (h : Scripted read) :
    Scripted (LoxLang.recovering read) := by
  obtain ⟨script, rfl⟩ := h
  exact ⟨.recover script, rfl⟩

end Scripted

/-- On the stream the reader ends as told.  So does every script that tells it, and there is one. -/
def EndsOnStream {α : Type} (read : Read α) (p : StreamState) (r : Except GaveUp α)
    (p' : StreamState) : Prop :=
  Scripted read ∧ ∀ script : Script α, script.read = read → script.onStream p = some (r, p')

end LoxLang
