/-
LoxLang.Proofs.Binding.Tallies: the walk remembers exactly the reads that its positions say.

While the walk goes on, reads are remembered in several scopes at once, and names are added to the
innermost one.  A stretch of the walk adds the names that it declares and remembers the reads of its
positions, no others; what is added later is not read by what stands before it.  So when a scope
ends there is a complaint about each of its variables that no reference in it means.

All this needs that no name is declared twice in a scope: a second declaration forgets the reads of
the first.

* `Walk.Single`: the walk has not complained about a second declaration.
* `Stmt.mentions`: what a statement adds to the scope it stands in.
* `Tallies`: what a stretch of the walk adds, remembers and complains about.

Main statements: `tallies_expr`, `tallies_stmt`, `complaints_closeBody`.
-/
import LoxLang.Proofs.Binding.Extents
import LoxLang.Proofs.Binding.Mentions

namespace LoxLang

/-! ## Complaints -/

/-- The fault is that a name is never read. -/
def BindingFault.isUnused : BindingFault → Bool
  | .unused _ => true
  | _ => false

/-- The complaints about names that are never read. -/
def Walk.unused (w : Walk) : List (Token × BindingFault) := w.complaints.filter (·.2.isUnused)

/-- The walk has not complained about a name that is declared again. -/
def Walk.Single (w : Walk) : Prop := ∀ name, (name, BindingFault.redeclared) ∉ w.complaints

/-- What has no second declaration in the end had none before. -/
theorem Walk.Single.of_later {w w' : Walk} (single : w'.Single)
    (complaints : w.complaints <+: w'.complaints) : w.Single :=
  fun name mem => single name (complaints.subset mem)

theorem Walk.Single.of_step {sites : List Site} {names : List String} {w w' : Walk}
    (single : w'.Single) (step : Walk.Step sites names w w') : w.Single :=
  single.of_later step.complaints

/-- Ending a scope complains about what was never read in it. -/
theorem Walk.complaints_closeScope {w : Walk} {s : Scope} {outer : List Scope}
    (scopes : w.scopes = s :: outer) :
    (w.after closeScope).complaints = w.complaints ++ s.mentions.filterMap Mention.complaint := by
  have complained : ∀ (us : List (String × Token)) (w : Walk),
      (w.after (us.forM fun u => complain u.2 (.unused u.1))).complaints =
        w.complaints ++ us.map fun u => (u.2, BindingFault.unused u.1) := by
    intro us
    induction us with
    | nil => exact fun w => (List.append_nil _).symm
    | cons u us ih =>
      intro w
      rw [Walk.after_forM_cons, ih]
      exact List.append_assoc w.complaints [(u.2, .unused u.1)] _
  obtain ⟨_, pending, defined, distances, complaints⟩ := w
  cases scopes
  rw [← s.unused_eq]
  exact complained s.unused ⟨outer, pending, defined, distances, complaints⟩

/-! ## What a statement adds to its scope -/

/-- The names that a statement adds to the scope it stands in.  A function counts as read. -/
def Stmt.mentions : Stmt Site → List Mention
  | .var name _ => [.ofToken name false]
  | .function r => [.ofToken r.name true]
  | .classDecl name _ _ _ _ => [.ofToken name false]
  | .ifElse _ t none => t.mentions
  | .ifElse _ t (some e) => t.mentions ++ e.mentions
  | .whileLoop _ b => b.mentions
  | _ => []

/-- The names that some statements add to the scope they stand in. -/
def Stmt.mentionsAll (ss : List (Stmt Site)) : List Mention := ss.flatMap Stmt.mentions

/-- The complaints about some variables that are not read. -/
def owedOf (hit : String → Bool) (names : List Token) : List (Token × BindingFault) :=
  (names.filter fun name => !hit name.lexeme).map fun name => (name, .unused name.lexeme)

/-- What is owed about names in a row is owed about each part. -/
theorem owedOf_append (hit : String → Bool) (names names' : List Token) :
    owedOf hit (names ++ names') = owedOf hit names ++ owedOf hit names' := by
  simp [owedOf]

/-- Of what a statement adds to its scope, its variables have to be read. -/
theorem complaints_mentions (hit : String → Bool) : ∀ s : Stmt Site,
    (s.mentions.map (Mention.readIf hit)).filterMap Mention.complaint = owedOf hit s.tracked
  | .var name _ | .classDecl name _ _ _ _ => by
    cases known : hit name.lexeme <;>
      simp [Stmt.mentions, Stmt.tracked, owedOf, Mention.ofToken, Mention.readIf,
        Mention.complaint, known]
  | .function _ => by
    simp [Stmt.mentions, Stmt.tracked, owedOf, Mention.ofToken, Mention.readIf, Mention.complaint]
  | .ifElse _ t none => complaints_mentions hit t
  | .ifElse _ t (some e) => by
    rw [Stmt.mentions, Stmt.tracked, owedOf_append, List.map_append, List.filterMap_append,
      complaints_mentions hit t, complaints_mentions hit e]
  | .whileLoop _ b => complaints_mentions hit b
  | .missing | .expression _ | .print _ | .block _ | .ret _ _ | .loopExit _ => rfl

/-- The complaints about the names of a block are those that are owed about them. -/
theorem complaints_mentionsAll (hit : String → Bool) (ss : List (Stmt Site)) :
    ((Stmt.mentionsAll ss).map (Mention.readIf hit)).filterMap Mention.complaint =
      owedOf hit (Stmt.trackedAll ss) := by
  induction ss with
  | nil => rfl
  | cons s ss ih =>
    rw [Stmt.mentionsAll, Stmt.trackedAll, List.flatMap_cons, List.flatMap_cons, owedOf_append,
      List.map_append, List.filterMap_append, complaints_mentions]
    exact congrArg (_ ++ ·) ih

/-- The names that are tracked are among those that are mentioned, in their order. -/
theorem tracked_sublist : ∀ s : Stmt Site,
    (s.tracked.map Token.lexeme).Sublist (s.mentions.map Mention.name)
  | .var _ _ | .classDecl .. => .refl _
  | .ifElse _ t none => tracked_sublist t
  | .ifElse _ t (some e) => by
    rw [Stmt.mentions, Stmt.tracked, List.map_append, List.map_append]
    exact (tracked_sublist t).append (tracked_sublist e)
  | .whileLoop _ b => tracked_sublist b
  | .function _ | .missing | .expression _ | .print _ | .block _ | .ret _ _ | .loopExit _ =>
    List.nil_sublist _

theorem trackedAll_sublist (ss : List (Stmt Site)) :
    ((Stmt.trackedAll ss).map Token.lexeme).Sublist ((Stmt.mentionsAll ss).map Mention.name) := by
  induction ss with
  | nil => exact .slnil
  | cons s ss ih =>
    rw [Stmt.mentionsAll, Stmt.trackedAll, List.flatMap_cons, List.flatMap_cons, List.map_append,
      List.map_append]
    exact (tracked_sublist s).append ih

/-! ## Tallies -/

/-- The complaints that are due when a scope ends, by what its references see. -/
def Extent.owed (c : Extent) : List (Token × BindingFault) :=
  owedOf (fun x => c.positions.any (·.reads c.depth 0 x)) c.tracked

/-- Some positions read the variable `x` of a scope. -/
def readIn (n d : Nat) (ps : List Position) (x : String) : Bool := ps.any (·.reads n d x)

/-- What a stretch of the walk does to what the scopes remember: the innermost one gets some names,
and each remembers the reads of some positions.  Some scopes end meanwhile. -/
structure Tallies (n : Nat) (new : List Mention) (ps : List Position) (cs : List Extent)
    (w w' : Walk) : Prop where
  scopes : ∀ d s, w.scopes[d]? = some s → s.names.Nodup →
    ∃ s', w'.scopes[d]? = some s' ∧ s'.names.Nodup ∧
      s'.mentions = (s.mentions ++ if d = 0 then new else []).map (Mention.readIf (readIn n d ps))
  kept : ∀ d x, w.Declares d x → w'.Declares d x
  /-- What is read is declared. -/
  seen : ∀ p ∈ ps, ∀ d x, p.reads n d x = true → w'.Declares d x
  fresh : ∀ e ∈ new, ¬ w.Declares 0 e.name
  unused : w'.unused = w.unused ++ cs.flatMap Extent.owed
  distinct : ∀ c ∈ cs, (c.tracked.map Token.lexeme).Nodup

namespace Tallies

variable {n : Nat} {new new' : List Mention} {ps qs : List Position} {cs ds : List Extent}
  {w w' w'' : Walk}

/-- Where the scopes and the complaints stay the same nothing is remembered. -/
theorem of_same (scopes : w'.scopes = w.scopes) (unused : w'.unused = w.unused) :
    Tallies n [] [] [] w w' where
  scopes d s found nodup := by
    refine ⟨s, scopes ▸ found, nodup, ?_⟩
    rw [ite_self, List.append_nil]
    exact (Mention.map_readIf_of_false fun _ _ => rfl).symm
  kept d x := by simp [Walk.Declares, scopes]
  seen p mem := absurd mem List.not_mem_nil
  fresh e mem := absurd mem List.not_mem_nil
  unused := by simp [unused]
  distinct c mem := absurd mem List.not_mem_nil

/-- Standing still remembers nothing. -/
theorem refl (w : Walk) : Tallies n [] [] [] w w := of_same rfl rfl

/-- What is added later is not read before. -/
theorem trans (first : Tallies n new ps cs w w') (second : Tallies n new' qs ds w' w'') :
    Tallies n (new ++ new') (ps ++ qs) (cs ++ ds) w w'' where
  scopes d s found nodup := by
    obtain ⟨s', found', nodup', mentions⟩ := first.scopes d s found nodup
    obtain ⟨s'', found'', nodup'', mentions'⟩ := second.scopes d s' found' nodup'
    refine ⟨s'', found'', nodup'', ?_⟩
    have joined : ∀ x, readIn n d (ps ++ qs) x = (readIn n d ps x || readIn n d qs x) := fun x =>
      List.any_append
    have twice : ∀ es : List Mention, (es.map (Mention.readIf (readIn n d ps))).map
        (Mention.readIf (readIn n d qs)) = es.map (Mention.readIf (readIn n d (ps ++ qs))) := by
      intro es
      rw [List.map_map]
      refine List.map_congr_left fun e _ => ?_
      rw [Function.comp_apply, Mention.readIf_readIf, funext joined]
    rw [mentions', mentions]
    by_cases zero : d = 0
    · subst zero
      have unread : new'.map (Mention.readIf (readIn n 0 qs)) =
          new'.map (Mention.readIf (readIn n 0 (ps ++ qs))) := by
        refine List.map_congr_left fun e mem => ?_
        have before : readIn n 0 ps e.name = false := by
          refine Bool.eq_false_iff.mpr fun read => ?_
          obtain ⟨p, among, reads⟩ := List.any_eq_true.mp read
          exact second.fresh e mem (first.seen p among 0 e.name reads)
        simp [Mention.readIf, joined, before]
      simp only [if_true]
      rw [List.map_append, twice, unread, ← List.map_append, List.append_assoc]
    · simp only [zero, if_false, List.append_nil]
      exact twice s.mentions
  kept d x declares := second.kept d x (first.kept d x declares)
  seen p mem d x reads := by
    rcases List.mem_append.mp mem with mem | mem
    · exact second.kept d x (first.seen p mem d x reads)
    · exact second.seen p mem d x reads
  fresh e mem declares := by
    rcases List.mem_append.mp mem with mem | mem
    · exact first.fresh e mem declares
    · exact second.fresh e mem (first.kept 0 e.name declares)
  unused := by rw [second.unused, first.unused, List.append_assoc, List.flatMap_append]
  distinct c mem := (List.mem_append.mp mem).elim (first.distinct c) (second.distinct c)

/-- A position that reads no name of a scope. -/
theorem of_unread {p : Position} (unread : ∀ d x, p.reads n d x = false)
    (tallies : Tallies n [] [] [] w w') : Tallies n [] [p] [] w w' where
  scopes d s found nodup := by
    obtain ⟨s', found', nodup', mentions⟩ := tallies.scopes d s found nodup
    have none : readIn n d [p] = readIn n d [] := by
      funext x
      simp [readIn, unread]
    exact ⟨s', found', nodup', none ▸ mentions⟩
  kept := tallies.kept
  seen q mem d x reads := by
    rw [List.mem_singleton.mp mem, unread] at reads
    cases reads
  fresh e mem := absurd mem List.not_mem_nil
  unused := tallies.unused
  distinct c mem := absurd mem List.not_mem_nil

/-- Changing one scope so that some reads are remembered in it. -/
theorem of_modify {k : Nat} {f : Scope → Scope} (scopes : w'.scopes = w.scopes.modify k f)
    (unused : w'.unused = w.unused) (names : ∀ s : Scope, (f s).names = s.names)
    (mentions : ∀ s : Scope, s.names.Nodup →
      (f s).mentions = s.mentions.map (Mention.readIf (readIn n k ps)))
    (others : ∀ d x, d ≠ k → readIn n d ps x = false)
    (seen : ∀ p ∈ ps, ∀ d x, p.reads n d x = true → w.Declares d x) : Tallies n [] ps [] w w' := by
  have kept : ∀ d x, w.Declares d x → w'.Declares d x := by
    rintro d x ⟨s, found, known⟩
    rw [Walk.Declares, scopes, List.getElem?_modify, found]
    refine ⟨_, rfl, ?_⟩
    split
    · rw [Scope.contains_iff_mem, names, ← Scope.contains_iff_mem]
      exact known
    · exact known
  refine ⟨fun d s found nodup => ?_, kept, fun p mem d x reads => kept d x (seen p mem d x reads),
    (fun e mem => absurd mem List.not_mem_nil), by simp [unused],
    fun c mem => absurd mem List.not_mem_nil⟩
  rw [scopes, List.getElem?_modify, found, ite_self, List.append_nil]
  by_cases same : k = d
  · subst same
    refine ⟨f s, by simp, by rwa [names], mentions s nodup⟩
  · refine ⟨s, by simp [same], nodup, ?_⟩
    exact (Mention.map_readIf_of_false fun e _ => others d e.name (Ne.symm same)).symm

/-- Another complaint is not about an unused name. -/
theorem complain (t : Token) {fault : BindingFault} (other : fault.isUnused = false) (w : Walk) :
    Tallies n [] [] [] w (w.after (complain t fault)) := by
  refine of_same rfl ?_
  show (w.complaints ++ [(t, fault)]).filter _ = _
  simp [Walk.unused, other]

theorem complainIf (wrong : Bool) (t : Token) {fault : BindingFault}
    (other : fault.isUnused = false) (w : Walk) :
    Tallies n [] [] [] w (w.after (complainIf wrong t fault)) := by
  cases wrong with
  | false => exact refl w
  | true => exact complain t other w

end Tallies

/-- Nothing is added or read behind it. -/
theorem Tallies.andThen {n : Nat} {new : List Mention} {ps : List Position} {cs : List Extent}
    {w w' w'' : Walk} (first : Tallies n new ps cs w w') (second : Tallies n [] [] [] w' w'') :
    Tallies n new ps cs w w'' := by
  have both := first.trans second
  rwa [List.append_nil, List.append_nil, List.append_nil] at both

/-! ## Declarations and references -/

/-- Changing the innermost scope so that it gets a name. -/
theorem Tallies.of_introduce {n : Nat} {w w' : Walk} {name : Token} {read : Bool}
    {f : Scope → Scope} (scopes : w'.scopes = w.scopes.modifyHead f) (unused : w'.unused = w.unused)
    (fresh : ¬ w.Declares 0 name.lexeme)
    (adds : ∀ s : Scope, s.names.Nodup → s.contains name.lexeme = false →
      (f s).names = s.names ++ [name.lexeme] ∧
        (f s).mentions = s.mentions ++ [.ofToken name read])
    (kept : ∀ d x, w.Declares d x → w'.Declares d x) :
    Tallies n [.ofToken name read] [] [] w w' where
  scopes d s found nodup := by
    have plain : ∀ es : List Mention, es.map (Mention.readIf (readIn n d [])) = es := fun es =>
      Mention.map_readIf_of_false fun _ _ => rfl
    rw [scopes, modifyHead_eq_modify, List.getElem?_modify, found]
    cases d with
    | zero =>
      have absent : s.contains name.lexeme = false :=
        Bool.eq_false_iff.mpr fun known => fresh ⟨s, found, known⟩
      obtain ⟨names, mentions⟩ := adds s nodup absent
      refine ⟨f s, rfl, ?_, ?_⟩
      · rw [names]
        exact Scope.nodup_append_of_fresh nodup absent
      · rw [mentions, plain]
        rfl
    | succ d => exact ⟨s, rfl, nodup, by rw [plain]; simp⟩
  kept := kept
  seen p mem := absurd mem List.not_mem_nil
  fresh e mem := by
    rw [List.mem_singleton.mp mem]
    exact fresh
  unused := by simp [unused]
  distinct c mem := absurd mem List.not_mem_nil

/-- A name that is not complained about is not in the scope yet. -/
theorem Walk.Single.fresh {w : Walk} {name : Token} (single : (w.after (declareName name)).Single) :
    ¬ w.Declares 0 name.lexeme := by
  rintro ⟨s, found, known⟩
  obtain ⟨scopes, pending, defined, distances, complaints⟩ := w
  cases scopes with
  | nil => cases found
  | cons scope outer =>
    cases found
    refine single name ?_
    show (name, .redeclared) ∈ (Walk.after _
      (if s.contains name.lexeme then complain name .redeclared else pure ())).complaints
    rw [if_pos known]
    exact List.mem_append_right _ List.mem_cons_self

/-- A name is located in a scope that has it. -/
theorem Walk.declares_of_locate {w : Walk} {x : String} {skip k : Nat}
    (located : locate w.scopes x skip = some k) : w.Declares k x := by
  obtain ⟨i, found, rfl⟩ := Option.map_eq_some_iff.mp located
  obtain ⟨lt, hit, _⟩ := List.findIdx?_eq_some_iff_getElem.mp found
  refine ⟨(w.scopes.drop skip)[i], ?_, hit⟩
  rw [← List.getElem?_eq_getElem lt, List.getElem?_drop, Nat.add_comm]

section Names

variable {n : Nat} {w : Walk}

/-- A declaration that is not complained about puts the name into the innermost scope. -/
theorem after_declareName {name : Token} (fresh : ¬ w.Declares 0 name.lexeme) :
    (w.after (declareName name)).scopes =
        w.scopes.modifyHead (·.declare ⟨name.lexeme, .declared, some name⟩) ∧
      (w.after (declareName name)).complaints = w.complaints := by
  obtain ⟨scopes, pending, defined, distances, complaints⟩ := w
  cases scopes with
  | nil => exact ⟨rfl, rfl⟩
  | cons scope outer =>
    have absent : scope.contains name.lexeme = false :=
      Bool.eq_false_iff.mpr fun known => fresh ⟨scope, rfl, known⟩
    let declared : Walk :=
      ⟨scope.declare ⟨name.lexeme, .declared, some name⟩ :: outer, pending, defined, distances,
        complaints⟩
    have same : Walk.after ⟨scope :: outer, pending, defined, distances, complaints⟩
        (declareName name) = declared := by
      show declared.after
        (if scope.contains name.lexeme then complain name .redeclared else pure ()) =
        declared
      rw [if_neg (by simp [absent])]
      rfl
    rw [same]
    exact ⟨rfl, rfl⟩

/-- A declared name is mentioned, and not read so far. -/
theorem tallies_declareName {name : Token} (single : (w.after (declareName name)).Single) :
    Tallies n [.ofToken name false] [] [] w (w.after (declareName name)) := by
  obtain ⟨scopes, complaints⟩ := after_declareName single.fresh
  refine .of_introduce scopes (by rw [Walk.unused, complaints, Walk.unused]) single.fresh
    (fun s nodup absent => ⟨?_, ?_⟩) fun d x h =>
      ((step_declareName name w).declares d x).mpr (.inl h)
  · exact Scope.names_declare (b := ⟨name.lexeme, .declared, some name⟩) absent
  · exact Scope.mentions_declare (b := ⟨name.lexeme, .declared, some name⟩) absent

theorem after_defineName (name : Token) :
    (w.after (defineName name)).scopes = w.scopes.modifyHead (·.define name.lexeme) ∧
      (w.after (defineName name)).complaints = w.complaints := by
  obtain ⟨scopes, pending, defined, distances, complaints⟩ := w
  cases scopes <;> exact ⟨rfl, rfl⟩

/-- To define a name changes neither. -/
theorem tallies_defineName (name : Token) : Tallies n [] [] [] w (w.after (defineName name)) := by
  obtain ⟨scopes, complaints⟩ := after_defineName (w := w) name
  rw [modifyHead_eq_modify] at scopes
  refine .of_modify scopes (by rw [Walk.unused, complaints, Walk.unused])
    (fun s => s.names_define name.lexeme) (fun s _ => ?_) (fun _ _ _ => rfl)
    fun p mem => absurd mem List.not_mem_nil
  rw [Scope.mentions_define]
  exact (Mention.map_readIf_of_false fun _ _ => rfl).symm

/-- A variable or a class. -/
theorem tallies_introduce {name : Token} (single : (w.after (introduce name)).Single) :
    Tallies n [.ofToken name false] [] [] w (w.after (introduce name)) :=
  (tallies_declareName (single.of_step (step_defineName name _))).trans (tallies_defineName name)

/-- A function or a parameter. -/
theorem tallies_introduce_useName {name : Token}
    (single : ((w.after (introduce name)).after (useName name)).Single) :
    Tallies n [.ofToken name true] [] [] w ((w.after (introduce name)).after (useName name)) := by
  have fresh := ((single.of_step (step_useName name _)).of_step (step_defineName name _)).fresh
  obtain ⟨scopes, complaints⟩ := after_declareName fresh
  obtain ⟨scopes', complaints'⟩ := after_defineName (w := w.after (declareName name)) name
  have step := (step_introduce name w).trans (step_useName name _)
  refine .of_introduce (f := fun s => ((s.declare ⟨name.lexeme, .declared, some name⟩).define
    name.lexeme).use name.lexeme) ?_ ?_ fresh (fun s nodup absent => ⟨?_, ?_⟩)
    fun d x h => (step.declares d x).mpr (.inl h)
  · show ((w.after (introduce name)).scopes.modifyHead _) = _
    rw [introduce, Walk.after_bind, scopes', scopes]
    cases w.scopes <;> rfl
  · show List.filter _ ((w.after (declareName name)).after (defineName name)).complaints = _
    rw [complaints', complaints, Walk.unused]
  · rw [Scope.names_use, Scope.names_define]
    exact Scope.names_declare (b := ⟨name.lexeme, .declared, some name⟩) absent
  · exact Scope.mentions_introduced nodup absent

/-- Parameters count as read from the start. -/
theorem tallies_bindParams : ∀ {params : List Token} {w : Walk},
    (w.after (bindParams params)).Single →
      Tallies n (params.map (Mention.ofToken · true)) [] [] w (w.after (bindParams params))
  | [], w, _ => .refl w
  | param :: params, w, single => by
    have rest := step_bindParams params ((w.after (introduce param)).after (useName param))
    exact (tallies_introduce_useName (single.of_step rest)).trans (tallies_bindParams single)

/-- Binding a reference where the outlook shows it. -/
theorem tallies_bindLocal {p : Position} (read : Bool) (skip : Nat)
    (role : read = true ↔ p.role ≠ .assign)
    (located : locate w.scopes p.ref.name skip = p.distance) :
    Tallies p.depth [] [p] [] w (w.after (bindLocal p.ref read skip)) := by
  unfold Walk.after
  rw [run_bindLocal, located]
  cases found : p.distance with
  | none => exact .of_unread (fun d x => by simp [Position.reads, found]) (.refl w)
  | some k =>
    have reads : ∀ d x, p.reads p.depth d x = (read && decide (p.name = x) && decide (k = d)) := by
      intro d x
      cases read <;> simp_all [Position.reads]
    cases read with
    | false => exact .of_unread (fun d x => by simp [reads]) (.of_same rfl rfl)
    | true =>
      refine .of_modify rfl rfl (fun s => s.names_use p.ref.name) (fun s nodup => ?_)
        (fun d x other => ?_) fun q mem d x hit => ?_
      · rw [s.mentions_use nodup]
        refine List.map_congr_left fun e _ => ?_
        simp [Mention.readIf, readIn, reads, Position.name, eq_comm]
      · simp [readIn, reads, Ne.symm other]
      · rw [List.mem_singleton.mp mem, reads] at hit
        simp only [Bool.true_and, Bool.and_eq_true, decide_eq_true_iff] at hit
        obtain ⟨rfl, rfl⟩ := hit
        exact Walk.declares_of_locate (located.trans found)

end Names

/-! ## Scopes that end -/

/-- What happened inside a scope, seen from outside. -/
theorem Tallies.close {n : Nat} {new : List Mention} {ps : List Position} {cs own : List Extent}
    {w inner inner' : Walk} {scope : Scope} (inside : Tallies (n + 1) new ps cs inner inner')
    (scopes : inner.scopes = scope :: w.scopes) (unused : inner.unused = w.unused)
    (ended : (inner'.after closeScope).unused = inner'.unused ++ own.flatMap Extent.owed)
    (distinct : ∀ c ∈ own, (c.tracked.map Token.lexeme).Nodup) :
    Tallies n [] ps (cs ++ own) w (inner'.after closeScope) := by
  have tail : ∀ d : Nat, (inner'.after closeScope).scopes[d]? = inner'.scopes[d + 1]? := fun d => by
    rw [inner'.after_closeScope.1, List.getElem?_tail]
  have outer : ∀ d : Nat, inner.scopes[d + 1]? = w.scopes[d]? := fun d => by
    rw [scopes, List.getElem?_cons_succ]
  have outside : ∀ d x, inner.Declares (d + 1) x ↔ w.Declares d x := fun d x => by
    rw [Walk.Declares, Walk.Declares, outer]
  have outside' : ∀ d x, inner'.Declares (d + 1) x ↔ (inner'.after closeScope).Declares d x :=
    fun d x => by rw [Walk.Declares, Walk.Declares, tail]
  refine ⟨fun d s found nodup => ?_, fun d x h => ?_, fun p mem d x reads => ?_,
    (fun e mem => absurd mem List.not_mem_nil), ?_, fun c mem => ?_⟩
  · obtain ⟨s', found', nodup', mentions⟩ := inside.scopes (d + 1) s (outer d ▸ found) nodup
    refine ⟨s', (tail d).trans found', nodup', mentions.trans ?_⟩
    have same : readIn (n + 1) (d + 1) ps = readIn n d ps := by
      funext x
      simp [readIn, reads_outside]
    simp [same]
  · exact (outside' d x).mp (inside.kept _ x ((outside d x).mpr h))
  · exact (outside' d x).mp (inside.seen p mem (d + 1) x (by rwa [reads_outside]))
  · rw [ended, inside.unused, unused, List.append_assoc, List.flatMap_append]
  · exact (List.mem_append.mp mem).elim (inside.distinct c) (distinct c)

/-- When the scope of a body ends there is a complaint about each of its variables that is not read,
and no two of them have the same name. -/
theorem complaints_closeBody {n : Nat} {params : List Token} {body : List (Stmt Site)}
    {ps : List Position} {cs : List Extent} {w w' : Walk}
    (inside :
      Tallies n (params.map (Mention.ofToken · true) ++ Stmt.mentionsAll body) ps cs w.opened w') :
    (w'.after closeScope).complaints =
        w'.complaints ++ owedOf (readIn n 0 ps) (Stmt.trackedAll body) ∧
      ((Stmt.trackedAll body).map Token.lexeme).Nodup := by
  obtain ⟨s, found, nodup, mentions⟩ := inside.scopes 0 .empty rfl List.nodup_nil
  obtain ⟨outer, scopes⟩ : ∃ outer, w'.scopes = s :: outer := by
    cases h : w'.scopes with
    | nil => simp [h] at found
    | cons first outer => exact ⟨outer, by simpa [h] using found⟩
  have added : s.mentions = (params.map (Mention.ofToken · true) ++ Stmt.mentionsAll body).map
      (Mention.readIf (readIn n 0 ps)) := mentions
  have exempt : ((params.map (Mention.ofToken · true)).map
      (Mention.readIf (readIn n 0 ps))).filterMap Mention.complaint = [] := by
    rw [List.filterMap_eq_nil_iff]
    intro e mem
    simp only [List.map_map, List.mem_map] at mem
    obtain ⟨name, _, rfl⟩ := mem
    rfl
  constructor
  · rw [Walk.complaints_closeScope scopes, added, List.map_append, List.filterMap_append, exempt,
      List.nil_append, complaints_mentionsAll]
  · rw [← s.map_name_mentions, added, List.map_map] at nodup
    have names : ((Stmt.mentionsAll body).map Mention.name).Nodup :=
      List.Nodup.sublist (by simp [Function.comp_def]) nodup
    exact names.sublist (trackedAll_sublist body)

/-- Complaints about unread names are about unread names. -/
theorem filter_owedOf (hit : String → Bool) (names : List Token) :
    (owedOf hit names).filter (·.2.isUnused) = owedOf hit names := by
  refine List.filter_eq_self.mpr fun complaint mem => ?_
  obtain ⟨name, _, rfl⟩ := List.mem_map.mp mem
  rfl

/-- A body whose parameters and statements share a scope. -/
theorem tallies_body (params : List Token) {body : List (Stmt Site)} {o : Outlook} {n : Nat}
    {cs : List Extent} {w w' : Walk} (depth : o.scopes.length = n + 1)
    (params_single : (w.opened.after (bindParams params)).Single)
    (inside : Tallies o.scopes.length (Stmt.mentionsAll body) (Stmt.positionsAll o body) cs
      (w.opened.after (bindParams params)) w') :
    Tallies n [] (Stmt.positionsAll o body) (cs ++ [.ofBody o body]) w (w'.after closeScope) := by
  have all := (tallies_bindParams params_single).trans inside
  obtain ⟨ended, nodup⟩ := complaints_closeBody all
  rw [depth] at all
  refine Tallies.close all rfl rfl ?_ fun c mem => ?_
  · rw [Walk.unused, ended, List.filter_append, filter_owedOf]
    simp only [List.flatMap_cons, List.flatMap_nil, List.append_nil]
    rfl
  · rw [List.mem_singleton.mp mem]
    exact nodup

/-- The scope of `this` or `super` ends without a complaint. -/
theorem Tallies.closeImplicit {n : Nat} {ps : List Position} {cs : List Extent}
    {w inner inner' : Walk} {name : String} (inside : Tallies (n + 1) [] ps cs inner inner')
    (scopes : inner.scopes = implicitScope name :: w.scopes) (unused : inner.unused = w.unused) :
    Tallies n [] ps cs w (inner'.after closeScope) := by
  obtain ⟨s, found, _, mentions⟩ := inside.scopes 0 (implicitScope name) (by rw [scopes]; rfl)
    (by simp [implicitScope, Scope.names, Scope.declare, Scope.empty, Scope.place])
  obtain ⟨outer, scopes'⟩ : ∃ outer, inner'.scopes = s :: outer := by
    cases h : inner'.scopes with
    | nil => simp [h] at found
    | cons first outer => exact ⟨outer, by simpa [h] using found⟩
  have quiet : s.mentions.filterMap Mention.complaint = [] := by
    rw [mentions]
    rfl
  have closed : Tallies n [] ps (cs ++ []) w (inner'.after closeScope) := inside.close scopes unused
    (by rw [Walk.unused, Walk.complaints_closeScope scopes', quiet]; simp [Walk.unused])
    fun c mem => absurd mem List.not_mem_nil
  rwa [List.append_nil] at closed

/-- The names `this` and `super` are never complained about. -/
theorem Tallies.closeClass {n : Nat} {ps : List Position} {cs : List Extent} {w w' : Walk}
    (hasSuperclass : Bool)
    (inside : Tallies (n + if hasSuperclass then 2 else 1) [] ps cs
      (w.after (openClass hasSuperclass)) w') :
    Tallies n [] ps cs w (w'.after (closeClass hasSuperclass)) := by
  cases hasSuperclass with
  | false => exact inside.closeImplicit rfl rfl
  | true =>
    let outer := w.opened.after (declareImplicit superName)
    have inner : Tallies (n + 1) [] ps cs outer (w'.after closeScope) :=
      Tallies.closeImplicit inside rfl rfl
    exact inner.closeImplicit rfl rfl

/-! ## The walk over a tree -/

section Nodes

variable {around : Surroundings} {o : Outlook} {w : Walk}

/-- A variable that is read is remembered as read in the scope that it means. -/
theorem tallies_bindVariable (agrees : o.Agrees around w) (ref : Reference Site) :
    Tallies o.scopes.length [] [⟨.variable, ref, o⟩] [] w (w.after (bindVariable around ref)) := by
  obtain ⟨skip, wrong, located, same⟩ := bindVariable_of_agrees agrees ref
  rw [same]
  exact (tallies_bindLocal (p := ⟨.variable, ref, o⟩) true skip (by simp) located).trans
    (.complainIf wrong ref.token rfl _)

/-- `this` or `super` inside a class. -/
theorem tallies_keyword (agrees : o.Agrees around w) (ref : Reference Site) {role : ReferenceRole}
    (keyword : role = .this ∨ role = .super) (inside : around.cls ≠ .none) :
    Tallies o.scopes.length [] [⟨role, ref, o⟩] [] w (w.after (bindLocal ref true 0)) := by
  let p : Position := ⟨role, ref, o⟩
  have stray : ¬ p.IsStray := fun stray => inside (agrees.inClass.mpr stray.2)
  refine tallies_bindLocal (p := p) true 0 ?_ (agrees.located_of_ne rfl stray ?_)
  · rcases keyword with rfl | rfl <;> simp [p]
  · rcases keyword with rfl | rfl <;> simp [p]

/-- A parent is a variable that is read. -/
theorem tallies_bindParent (agrees : o.Agrees around w) (cls : Token) {fault : BindingFault}
    (other : fault.isUnused = false) (ref : Reference Site) :
    Tallies o.scopes.length [] [⟨.variable, ref, o⟩] [] w
      (w.after (bindParent around cls fault ref)) := by
  have checked := Follows.complainIf (n := o.scopes.length) (decide (ref.name = cls.lexeme))
    ref.token fault w
  have agrees' := agrees.unchanged checked (step_complainIf _ ref.token fault w)
  exact (Tallies.complainIf _ ref.token other w).trans (tallies_bindVariable agrees' ref)

/-- Mixins are read in their order. -/
theorem tallies_bindParents (plain : o.own = none) (cls : Token) {fault : BindingFault}
    (other : fault.isUnused = false) : ∀ (refs : List (Reference Site)) {w : Walk},
      o.Agrees around w →
        Tallies o.scopes.length [] (refs.map (⟨.variable, ·, o⟩)) [] w
          (w.after (refs.forM (bindParent around cls fault)))
  | [], w, _ => .refl w
  | ref :: refs, w, agrees => by
    have agrees' := agrees.behind (follows_bindParent agrees cls fault ref)
      (step_bindParent around cls fault ref w)
    rw [Outlook.behind_of_plain plain] at agrees'
    exact (tallies_bindParent agrees cls other ref).trans
      (tallies_bindParents plain cls other refs agrees')

/-- The header of a class. -/
theorem tallies_headerWalk (agrees : o.Agrees around w) (plain : o.own = none) (name : Token)
    (superclass : Option (Reference Site)) (mixins : List (Reference Site))
    (single : (headerWalk around name superclass mixins w).Single) :
    Tallies o.scopes.length [.ofToken name false]
      ((superclass.toList ++ mixins).map (⟨.variable, ·, o.introduce [name.lexeme]⟩)) [] w
      (headerWalk around name superclass mixins w) := by
  have behindParent := single.of_step (step_bindParents around name .mixesInItself mixins _)
  have introduced := tallies_introduce (n := o.scopes.length)
    (behindParent.of_step (step_superclass around name superclass _))
  have agrees₁ :=
    agrees.introduce plain (follows_introduce agrees plain name) (step_introduce name w)
  have parents : ∀ (fault : BindingFault) (refs : List (Reference Site)) {w : Walk},
      fault.isUnused = false → (o.introduce [name.lexeme]).Agrees around w →
        Tallies o.scopes.length [] (refs.map (⟨.variable, ·, o.introduce [name.lexeme]⟩)) [] w
          (w.after (refs.forM (bindParent around name fault))) := by
    intro fault refs w other agrees
    have tallies :=
      tallies_bindParents (o := o.introduce [name.lexeme]) plain name other refs agrees
    rwa [Outlook.length_introduce] at tallies
  have same : (w.after (introduce name)).after
      (superclass.toList.forM (bindParent around name .inheritsItself)) =
        (w.after (introduce name)).after
          (superclass.forM (bindParent around name .inheritsItself)) := by
    cases superclass <;> rfl
  have agrees₂ := agrees₁.behind (follows_bindParents (o := o.introduce [name.lexeme]) plain name
    .inheritsItself superclass.toList agrees₁) (step_bindParents around name .inheritsItself _ _)
  rw [Outlook.behind_of_plain (o := o.introduce [name.lexeme]) plain, same] at agrees₂
  have parent := parents .inheritsItself superclass.toList rfl agrees₁
  rw [same] at parent
  have all := introduced.trans (parent.trans (parents .mixesInItself mixins rfl agrees₂))
  rwa [← List.map_append] at all

theorem tallies_checkReturn {n : Nat} (around : Surroundings) (keyword : Token) (hasValue : Bool)
    (w : Walk) : Tallies n [] [] [] w (w.after (checkReturn around keyword hasValue)) := by
  rw [checkReturn, Walk.after_bind]
  exact (Tallies.complainIf _ keyword rfl w).trans (.complainIf _ keyword rfl _)

theorem tallies_methodContext {n : Nat} (r : Routine Site) (w : Walk) :
    Tallies n [] [] [] w (w.after (methodContext r)) := by
  unfold methodContext
  split
  · exact .complainIf r.getter r.name rfl w
  · exact .refl w

end Nodes

mutual

/-- The walk over an expression remembers the reads in it. -/
theorem tallies_expr (around : Surroundings) : ∀ (e : Expr Site) {o : Outlook} {w : Walk},
    o.Agrees around w → (w.after (bindExpr around e)).Single →
      Tallies o.scopes.length [] (e.positions o) (e.extents o) w (w.after (bindExpr around e))
  | .literal _, _, w, _, _ => .refl w
  | .grouping e, _, _, agrees, single => tallies_expr around e agrees single
  | .unary _ e, _, _, agrees, single => tallies_expr around e agrees single
  | .binary l _ r, _, w, agrees, single => by
    have left := tallies_expr around l agrees (single.of_step (step_bindExpr around r _))
    exact left.trans (tallies_expr around r
      (agrees.behind (follows_expr around l agrees) (step_bindExpr around l w)) single)
  | .logical l _ r, _, w, agrees, single => by
    have left := tallies_expr around l agrees (single.of_step (step_bindExpr around r _))
    exact left.trans (tallies_expr around r
      (agrees.behind (follows_expr around l agrees) (step_bindExpr around l w)) single)
  | .variable ref, _, _, agrees, _ => tallies_bindVariable agrees ref
  | .assign ref e, o, w, agrees, single => by
    have value := tallies_expr around e agrees (single.of_step (step_bindLocal ref false 0 _))
    have agrees' := agrees.behind (follows_expr around e agrees) (step_bindExpr around e w)
    let p : Position := ⟨.assign, ref, o.behind (e.positions o)⟩
    have target : Tallies p.depth [] [p] [] (w.after (bindExpr around e))
        ((w.after (bindExpr around e)).after (bindLocal ref false 0)) := by
      refine tallies_bindLocal (p := p) false 0 (by simp [p]) (agrees'.located_of_ne rfl ?_ ?_)
      · simp [p, Position.IsStray]
      · simp [p]
    have both := value.trans target
    rw [List.append_nil (e.extents o)] at both
    exact both
  | .call f _ es, _, w, agrees, single => by
    have callee := tallies_expr around f agrees (single.of_step (step_bindExprs around es _))
    exact callee.trans (tallies_exprs around es
      (agrees.behind (follows_expr around f agrees) (step_bindExpr around f w)) single)
  | .get e _, _, _, agrees, single => tallies_expr around e agrees single
  | .set e _ v, _, w, agrees, single => by
    have value := tallies_expr around v agrees (single.of_step (step_bindExpr around e _))
    exact value.trans (tallies_expr around e
      (agrees.behind (follows_expr around v agrees) (step_bindExpr around v w)) single)
  | .this ref, _, w, agrees, _ => by
    rw [bindExpr]
    split
    · rename_i none
      refine .of_unread (fun d x => ?_) (.complain ref.token rfl w)
      simp [Position.reads, (follows_keyword agrees ref (.inl rfl)).2 none]
    · rename_i some
      exact tallies_keyword agrees ref (.inl rfl) some
  | .super ref _, o, w, agrees, _ => by
    rw [bindExpr]
    split
    · rename_i none
      refine .of_unread (fun d x => ?_) (.complain ref.token rfl w)
      simp [Position.reads, (follows_keyword agrees ref (.inr rfl)).2 none]
    · rename_i some
      have checked := Follows.complainIf (n := o.scopes.length)
        (decide (around.cls ≠ .subclass)) ref.token .superWithoutSuperclass w
      have agrees' := agrees.unchanged checked (step_complainIf _ ref.token _ w)
      rw [Walk.after_bind]
      exact (Tallies.complainIf _ ref.token rfl w).trans
        (tallies_keyword agrees' ref (.inr rfl) some)
  | .function _ params body, _, w, agrees, single => by
    have single' := single.of_later (Walk.after_closeScope _).2.2
    exact tallies_body params rfl (single'.of_step (step_bindStmts _ body _))
      (tallies_stmts _ body (agrees.enter .function params) rfl single')

/-- Expressions in a row remember their reads in a row. -/
theorem tallies_exprs (around : Surroundings) :
    ∀ (es : List (Expr Site)) {o : Outlook} {w : Walk}, o.Agrees around w →
      (w.after (bindExprs around es)).Single →
        Tallies o.scopes.length [] (Expr.positionsAll o es) (Expr.extentsAll o es) w
          (w.after (bindExprs around es))
  | [], _, w, _, _ => .refl w
  | e :: es, _, w, agrees, single => by
    have first := tallies_expr around e agrees (single.of_step (step_bindExprs around es _))
    exact first.trans (tallies_exprs around es
      (agrees.behind (follows_expr around e agrees) (step_bindExpr around e w)) single)

/-- The walk over a statement remembers the reads in it, and what it declares. -/
theorem tallies_stmt (around : Surroundings) : ∀ (s : Stmt Site) {o : Outlook} {w : Walk},
    o.Agrees around w → o.own = none → (w.after (bindStmt around s)).Single →
      Tallies o.scopes.length s.mentions (s.positions o) (s.extents o) w
        (w.after (bindStmt around s))
  | .missing, _, w, _, _, _ => .refl w
  | .expression e, _, _, agrees, _, single => tallies_expr around e agrees single
  | .print e, _, _, agrees, _, single => tallies_expr around e agrees single
  | .var _ none, _, _, _, _, single => tallies_introduce single
  | .var name (some e), o, w, agrees, plain, single => by
    have single' := single.of_step (step_defineName name _)
    have declared := tallies_declareName (n := o.scopes.length)
      (single'.of_step (step_bindExpr around e _))
    have value := tallies_expr around e (agrees.initial plain name) single'
    rw [Outlook.length_initial] at value
    exact (declared.trans value).andThen (tallies_defineName name)
  | .block body, o, w, agrees, _, single => by
    have single' := single.of_later (Walk.after_closeScope _).2.2
    exact tallies_body [] rfl (single'.of_step (step_bindStmts _ body _))
      (tallies_stmts around body agrees.enterBlock rfl single')
  | .ifElse c t none, o, w, agrees, plain, single => by
    have condition := tallies_expr around c agrees (single.of_step (step_bindStmt around t _))
    have agrees' := agrees.behind (follows_expr around c agrees) (step_bindExpr around c w)
    rw [Outlook.behind_of_plain plain] at agrees'
    exact condition.trans (tallies_stmt around t agrees' plain single)
  | .ifElse c t (some e), o, w, agrees, plain, single => by
    have single' := single.of_step (step_bindStmt around e _)
    have condition := tallies_expr around c agrees (single'.of_step (step_bindStmt around t _))
    have agrees' := agrees.behind (follows_expr around c agrees) (step_bindExpr around c w)
    rw [Outlook.behind_of_plain plain] at agrees'
    have thenBranch := tallies_stmt around t agrees' plain single'
    have agrees'' := agrees'.introduce plain (follows_stmt around t agrees' plain)
      (step_bindStmt around t _)
    have elseBranch := tallies_stmt around e agrees'' plain single
    rw [Outlook.length_introduce] at elseBranch
    exact condition.trans (thenBranch.trans elseBranch)
  | .whileLoop c b, o, w, agrees, plain, single => by
    have condition := tallies_expr around c agrees (single.of_step (step_bindStmt around b _))
    have agrees' := agrees.behind (follows_expr around c agrees) (step_bindExpr around c w)
    rw [Outlook.behind_of_plain plain] at agrees'
    exact condition.trans (tallies_stmt around b agrees' plain single)
  | .ret keyword none, _, w, _, _, _ => tallies_checkReturn around keyword false w
  | .ret keyword (some e), o, w, agrees, _, single => by
    have agrees' :=
      agrees.unchanged (follows_checkReturn (n := o.scopes.length) around keyword true w)
      (step_checkReturn around keyword true w)
    exact (tallies_checkReturn around keyword true w).trans (tallies_expr around e agrees' single)
  | .loopExit _, _, w, _, _, _ => .refl w
  | .function r, o, w, agrees, plain, single => by
    have routine := tallies_routine around .function r (agrees.function plain r.name) single
    rw [Outlook.length_introduce] at routine
    exact (tallies_introduce_useName (single.of_step (step_bindRoutine around .function r _))).trans
      routine
  | .classDecl name superclass mixins methods statics, o, w, agrees, plain, single => by
    rw [after_classDecl] at single ⊢
    have behindStatics := single.of_later (Walk.Later.closeClass superclass.isSome _).complaints
    have behindMethods := behindStatics.of_step (step_bindStatics _ statics _)
    have opened := behindMethods.of_step (step_bindMethods _ methods _)
    have header := tallies_headerWalk agrees plain name superclass mixins
      (opened.of_later (Walk.Later.openClass superclass.isSome _).complaints)
    have members := (follows_headerWalk agrees plain name superclass mixins).1.enterClass
      superclass.isSome
    have methods' := tallies_methods (around.inClass superclass.isSome) methods members rfl
      behindMethods
    have members' := members.behind (follows_methods _ methods members rfl)
      (step_bindMethods _ methods _)
    rw [Outlook.behind_of_plain rfl] at members'
    have statics' := tallies_statics (around.inClass superclass.isSome) statics members' rfl
      behindStatics
    have depth : ((o.introduce [name.lexeme]).enterClass superclass.isSome).scopes.length =
        o.scopes.length + if superclass.isSome then 2 else 1 := by
      cases superclass <;> simp [Outlook.enterClass]
    have all := methods'.trans statics'
    rw [depth] at all
    exact header.trans (all.closeClass superclass.isSome)

/-- Statements in a row mention their names, and remember their reads, in their order. -/
theorem tallies_stmts (around : Surroundings) : ∀ (ss : List (Stmt Site)) {o : Outlook} {w : Walk},
    o.Agrees around w → o.own = none → (w.after (bindStmts around ss)).Single →
      Tallies o.scopes.length (Stmt.mentionsAll ss) (Stmt.positionsAll o ss)
        (Stmt.extentsAll o ss) w (w.after (bindStmts around ss))
  | [], _, w, _, _, _ => .refl w
  | s :: ss, _, w, agrees, plain, single => by
    have first := tallies_stmt around s agrees plain (single.of_step (step_bindStmts around ss _))
    have agrees' := agrees.introduce plain (follows_stmt around s agrees plain)
      (step_bindStmt around s w)
    have rest := tallies_stmts around ss agrees' plain single
    rw [Outlook.length_introduce] at rest
    exact first.trans rest

/-- The walk over a routine remembers the reads in it. -/
theorem tallies_routine (around : Surroundings) (context : RoutineContext) :
    ∀ (r : Routine Site) {o : Outlook} {w : Walk}, o.Agrees around w →
      (w.after (bindRoutine around context r)).Single →
        Tallies o.scopes.length [] (r.positions o) (r.extents o) w
          (w.after (bindRoutine around context r))
  | ⟨name, params, body, getter⟩, o, w, agrees, single => by
    have checked := Follows.complainIf (n := o.scopes.length)
      (getter && decide (around.cls = .none)) name .getterOutsideClass w
    have agrees' := agrees.unchanged checked (step_complainIf _ name _ w)
    rw [bindRoutine, Walk.after_bind, Walk.after_bind, Walk.after_bind, Walk.after_bind] at single ⊢
    have single' := single.of_later (Walk.after_closeScope _).2.2
    exact (Tallies.complainIf _ name rfl w).trans
      (tallies_body _ rfl (single'.of_step (step_bindStmts _ body _))
        (tallies_stmts _ body (agrees'.enter context params) rfl single'))

/-- Methods do so inside the scopes of the class. -/
theorem tallies_methods (around : Surroundings) :
    ∀ (rs : List (Routine Site)) {o : Outlook} {w : Walk}, o.Agrees around w → o.own = none →
      (w.after (bindMethods around rs)).Single →
        Tallies o.scopes.length [] (Routine.positionsAll o rs) (Routine.extentsAll o rs) w
          (w.after (bindMethods around rs))
  | [], _, w, _, _, _ => .refl w
  | r :: rs, o, w, agrees, plain, single => by
    have checked : Follows o.scopes.length [] w (w.after (methodContext r)) := by
      unfold methodContext
      split
      · exact .complainIf r.getter r.name .initializerAsGetter w
      · exact .refl w
    have agrees' := agrees.unchanged checked (step_methodContext r w)
    have routine := tallies_routine around (methodContext r w).1 r agrees'
      (single.of_step (step_bindMethods around rs _))
    have agrees'' := agrees'.behind (follows_routine around (methodContext r w).1 r agrees')
      (step_bindRoutine around _ r _)
    rw [Outlook.behind_of_plain plain] at agrees''
    exact (tallies_methodContext r w).trans
      (routine.trans (tallies_methods around rs agrees'' plain single))

theorem tallies_statics (around : Surroundings) :
    ∀ (rs : List (Routine Site)) {o : Outlook} {w : Walk}, o.Agrees around w → o.own = none →
      (w.after (bindStatics around rs)).Single →
        Tallies o.scopes.length [] (Routine.positionsAll o rs) (Routine.extentsAll o rs) w
          (w.after (bindStatics around rs))
  | [], _, w, _, _, _ => .refl w
  | r :: rs, o, w, agrees, plain, single => by
    have routine := tallies_routine around .method r agrees
      (single.of_step (step_bindStatics around rs _))
    have agrees' := agrees.behind (follows_routine around .method r agrees)
      (step_bindRoutine around .method r w)
    rw [Outlook.behind_of_plain plain] at agrees'
    exact routine.trans (tallies_statics around rs agrees' plain single)

end

end LoxLang
