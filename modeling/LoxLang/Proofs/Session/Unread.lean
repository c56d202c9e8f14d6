/-
LoxLang.Proofs.Session.Unread: which local names a text is told to be unused.

When the scope of a block or of a routine ends, each of its variables and classes is reported that
no reference means which reads a variable, once, on the token that declares it, and in the order of
the declarations; nothing else is reported as unused.  A second declaration of a name in a scope
forgets what was read of the first, so there must be none.

* `Visit.Opens`: the walk comes to the body of a block or of a routine.

Main statement: `unread_variables_reported`.
-/
import Mathlib
import LoxLang.Proofs.Binding.Outlooks
import LoxLang.Proofs.Binding.Tallies
import LoxLang.Proofs.Session.History
import LoxLang.Proofs.Token.Words

namespace LoxLang

/-! ## What the table says of a scope -/

namespace Edition

variable {ed : Edition} {c : Extent}

/-- What is due when a scope ends is what the table says. -/
theorem owed_eq_unread (distinct : ed.Distinct) (fresh : ed.Fresh) (apart : ed.KeywordsApart)
    (mem : c ∈ ed.extents) : c.owed = c.unread ed.table := by
  have reads : ∀ name ∈ c.tracked,
      c.positions.any (·.reads c.depth 0 name.lexeme) = c.reads ed.table name.lexeme := by
    intro name declared
    rw [Bool.eq_iff_iff, Extent.reads, List.any_eq_true, List.any_eq_true]
    refine exists_congr fun p => and_congr_right fun among => ?_
    rw [ed.get?_table distinct fresh (positions_extents mem among), Position.reads, Nat.zero_add]
    have other := fun keyword => apart c mem p among keyword name declared
    cases role : p.role with
    | «variable» => simp
    | assign => simp
    | this => simp [Ne.symm (other (.inl role))]
    | super => simp [Ne.symm (other (.inr role))]
  rw [Extent.owed, owedOf, Extent.unread]
  refine congrArg (List.map _) (List.filter_congr fun name declared => ?_)
  rw [reads name declared]

end Edition

/-! ## Bodies -/

/-- The walk comes to the body of a block or of a routine, which has a scope. -/
def Visit.Opens (v₀ v : Visit) : Prop := v₀.Enters v ∧ v₀.levels.length < v.levels.length

/-- A body that the walk comes to, with what is seen at its beginning. -/
structure Visit.Body (v₀ v : Visit) (o₀ o : Outlook) (body : List (Stmt Site)) : Prop where
  item : v.item = .stmts body
  shows : v.Shows o
  opened : ∃ (w : Walk) (params : List Token), v.walk = w.opened.after (bindParams params)
  extent : .ofBody o body ∈ v₀.item.extents o₀
  ends : (v.after.after closeScope).complaints <+: v₀.after.complaints

theorem mem_extents_routine {o : Outlook} {params : List Token} {body : List (Stmt Site)}
    {name : Token} {getter : Bool} {rs : List (Routine Site)}
    (mem : (⟨name, params, body, getter⟩ : Routine Site) ∈ rs) :
    Extent.ofBody (o.enter (params.map Token.lexeme)) body ∈ Routine.extentsAll o rs :=
  extents_routines_subset mem (List.mem_append_right _ List.mem_cons_self)

/-- The scope of a body is a scope of the node that it is a part of, and ends before that. -/
theorem Visit.Opens.body {v₀ v : Visit} (opens : v₀.Opens v) {o₀ : Outlook} (shows : v₀.Shows o₀) :
    ∃ o body, v₀.Body v o₀ o body := by
  obtain ⟨enters, deeper⟩ := opens
  obtain ⟨agrees, plain⟩ := shows
  cases enters with
  | @anonymous around levels w keyword params body =>
    exact ⟨_, body, rfl, shows_bodyVisit agrees .function params body, ⟨_, _, rfl⟩,
      List.mem_append_right _ List.mem_cons_self, List.prefix_refl _⟩
  | @block around levels w body =>
    exact ⟨o₀.enter [], body, rfl, ⟨agrees.enterBlock, fun _ => rfl⟩, ⟨w, [], rfl⟩,
      List.mem_append_right _ List.mem_cons_self, List.prefix_refl _⟩
  | @function around levels w name params body getter =>
    have reached := agrees_checkGetter (agrees.function (plain trivial) name)
      ⟨name, params, body, getter⟩
    exact ⟨_, body, rfl, shows_bodyVisit reached .function params body, ⟨_, _, rfl⟩,
      List.mem_append_right _ List.mem_cons_self, List.prefix_refl _⟩
  | @method around levels w name superclass mixins before m params body getter behind statics =>
    let r : Routine Site := ⟨m, params, body, getter⟩
    have mem : r ∈ before ++ r :: behind := by simp
    have method := agrees_method agrees (plain trivial) name superclass mixins before r
    refine ⟨_, body, rfl, shows_bodyVisit method _ params body, ⟨_, _, rfl⟩,
      List.mem_append_left _ (mem_extents_routine mem), ?_⟩
    have rest := fun w : Walk =>
      (Walk.Later.of_step (step_bindMethods (around.inClass superclass.isSome) behind w)).trans
        ((Walk.Later.of_step (step_bindStatics (around.inClass superclass.isSome) statics _)).trans
          (.closeClass superclass.isSome _))
    unfold Visit.after
    simp only [Item.bind]
    rw [after_classDecl, after_bindMethods_append]
    exact (rest _).complaints
  | @static around levels w name superclass mixins methods before m params body getter behind =>
    let r : Routine Site := ⟨m, params, body, getter⟩
    have mem : r ∈ before ++ r :: behind := by simp
    have method := agrees_static agrees (plain trivial) name superclass mixins methods before r
    refine ⟨_, body, rfl, shows_bodyVisit method _ params body, ⟨_, _, rfl⟩,
      List.mem_append_right _ (mem_extents_routine mem), ?_⟩
    have rest := fun w : Walk =>
      (Walk.Later.of_step (step_bindStatics (around.inClass superclass.isSome) behind w)).trans
        (.closeClass superclass.isSome _)
    unfold Visit.after
    simp only [Item.bind]
    rw [after_classDecl, after_bindStatics_append]
    exact (rest _).complaints
  | initial => simp [pend] at deeper
  | _ => exact absurd deeper (Nat.lt_irrefl _)

/-- Behind a body there is a complaint about each of its variables that is not read. -/
theorem Visit.Body.complaints {v₀ v : Visit} {o₀ o : Outlook} {body : List (Stmt Site)}
    (found : v₀.Body v o₀ o body) (single : v.after.Single) :
    (v.after.after closeScope).complaints = v.after.complaints ++ (Extent.ofBody o body).owed := by
  obtain ⟨around, levels, item, walk⟩ := v
  obtain ⟨rfl, ⟨agrees, plain⟩, ⟨w, params, rfl⟩, _, _⟩ := found
  have inside := (tallies_bindParams (single.of_step (step_bindStmts around body _))).trans
    (tallies_stmts around body agrees (plain trivial) single)
  exact (complaints_closeBody inside).1

/-! ## Programs -/

/-- When the scope of a block or of a routine ends, exactly its variables and classes that no
reference reads are reported as unused, in the order of their declarations and before anything that
comes later; no two of them have the same name.  Nothing else is reported as unused in the whole
program.

References have sites of their own that are not in the table before, and nothing is declared under
the name of a keyword; `Session.keywordsApart_edition` and its companions say so of every text. -/
theorem unread_variables_reported (ed : Edition) (distinct : ed.Distinct) (fresh : ed.Fresh)
    (apart : ed.KeywordsApart) (single : ed.walked.Single) :
    ed.walked.unused = ed.extents.flatMap (·.unread ed.table) ∧
      (∀ c ∈ ed.extents, (c.tracked.map Token.lexeme).Nodup) ∧
      ∀ v₀ v, ed.Visits v₀ → v₀.Opens v → ∃ o body, v.item = .stmts body ∧ v.Shows o ∧
        .ofBody o body ∈ ed.extents ∧
        (v.after.after closeScope).complaints =
          v.after.complaints ++ (Extent.ofBody o body).unread ed.table ∧
        (v.after.after closeScope).complaints <+: ed.walked.complaints := by
  have tallies := tallies_stmts (.top ed.isGlobal) ed.program ed.agrees_root rfl single
  refine ⟨?_, tallies.distinct, fun v₀ v visits opens => ?_⟩
  · have unused : ed.walked.unused = [] ++ ed.extents.flatMap Extent.owed := tallies.unused
    rw [unused, List.nil_append]
    exact List.flatMap_congr fun c mem => ed.owed_eq_unread distinct fresh apart mem
  · obtain ⟨o₀, shows, _, within⟩ := visits.shows_all
    obtain ⟨o, body, found⟩ := opens.body shows
    have ends := found.ends.trans visits.complaints
    have before := (Walk.after_closeScope v.after).2.2.trans ends
    refine ⟨o, body, found.item, found.shows, within found.extent, ?_, ends⟩
    rw [found.complaints (single.of_later before),
      ed.owed_eq_unread distinct fresh apart (within found.extent)]

/-- In a text whose words are spelled as their kinds say, nothing is declared under the name of a
keyword. -/
theorem Session.keywordsApart_edition (s : Session) {tokens : List Token} (endLine : Nat)
    (spelled : ∀ t ∈ tokens, Spelled t.kind t) : (s.edition tokens endLine).KeywordsApart := by
  refine Edition.keywordsApart_of_formed (reads_program tokens endLine s.nextSite spelled).1 ?_
  intro k keyword t t' word name same
  have isWord : k.IsWord ∧ k ≠ .identifier := by
    simp only [List.mem_cons, List.not_mem_nil, or_false] at keyword
    rcases keyword with rfl | rfl <;> decide
  refine isWord.2 ?_
  rw [← word isWord.1, ← same]
  exact name (by decide)

/-- A variable that is only assigned to, next to one that is read:
`\x7b var a; var b = a; b = a; \x7d`. -/
def assignedOnly : List Token :=
  let word (kind : Kind) (lexeme : String) : Token := ⟨kind, lexeme, .nil, 1⟩
  [word .leftBrace "\x7b", word .varWord "var", word .identifier "a", word .semicolon ";",
    word .varWord "var", word .identifier "b", word .equal "=", word .identifier "a",
    word .semicolon ";", word .identifier "b", word .equal "=", word .identifier "a",
    word .semicolon ";", word .rightBrace "\x7d"]

/-- Only the variable that is never read is reported. -/
theorem unread_variables_reported_assignedOnly :
    let ed := ((Session.start ⟨0, 0⟩ 0).after []).edition assignedOnly 1
    ed.Distinct ∧ ed.Fresh ∧ ed.KeywordsApart ∧ ed.walked.Single ∧
      ed.walked.unused = [(⟨.identifier, "b", .nil, 1⟩, .unused "b")] := by
  intro ed
  have distinct : ed.Distinct := Session.distinct_edition _ assignedOnly 1
  have fresh : ed.Fresh := (Session.numbered_after ⟨0, 0⟩ 0 []).fresh assignedOnly 1
  have spelled : ∀ t ∈ assignedOnly, t.kind.IsWord → Kind.ofWord t.lexeme = t.kind := by decide
  have apart : ed.KeywordsApart := Session.keywordsApart_edition _ 1 spelled
  let a (site : Site) : Reference Site := ⟨⟨.identifier, "a", .nil, 1⟩, site⟩
  let b (site : Site) : Reference Site := ⟨⟨.identifier, "b", .nil, 1⟩, site⟩
  have program : ed.program = [.block [.var (a 0).token none,
      .var (b 0).token (some (.variable (a 0))),
      .expression (.assign (b 1) (.variable (a 2)))]] := by
    cbv
  have complaints : ed.walked.complaints = [((b 0).token, .unused "b")] := by
    rw [Edition.walked, program]
    rfl
  have single : ed.walked.Single := fun name mem => by simp [complaints] at mem
  have unread : ed.extents.flatMap (·.unread ed.table) = [((b 0).token, .unused "b")] := by
    rw [List.flatMap_congr fun c mem => (ed.owed_eq_unread distinct fresh apart mem).symm,
      Edition.extents, program]
    rfl
  exact ⟨distinct, fresh, apart, single,
    (unread_variables_reported ed distinct fresh apart single).1.trans unread⟩

end LoxLang
