/-
LoxLang.Proofs.Tree.Derives: the grammar of the language.

The rules say which tokens are a phrase and which tree the phrase denotes; there is no reading in
them, no looking ahead and no bound.  References get sites in the order of the text, and behind a
`for` loop its copies of the increment do.

Which phrase a token belongs to is settled by the rules themselves:

* Each level of binary operators takes its left side from the same level and its right side from the
  tighter one, so that operators of one level associate to the left.  Level zero has none.
* The branch before an `else` does not end with an `if` that has no `else`, so that an `else`
  belongs to the nearest `if` (`Phrase.statement`).
* A declaration that begins with `fun` and is an expression statement is a lone routine.

The levels of operators and the statement that a `for` loop stands for are told in
`LoxLang.Proofs.Tree.Operators` and `LoxLang.Proofs.Tree.Desugars`.

Main definitions: `Phrase`, `Derives`.
-/
import LoxLang.Proofs.Tree.Desugars
import LoxLang.Proofs.Tree.Operators

namespace LoxLang

/-! ## Phrases -/

/-- A phrase of the grammar, with the tree that it denotes. -/
inductive Phrase where
  | primary (e : Expr Site)
  | call (e : Expr Site)
  /-- Arguments that are separated by commas. -/
  | arguments (es : List (Expr Site))
  /-- What stands between the parentheses of a call. -/
  | argumentList (es : List (Expr Site))
  | unary (e : Expr Site)
  /-- An expression of binary operators up to some level. -/
  | operators (level : Nat) (e : Expr Site)
  | expression (e : Expr Site)
  | optional (e : Option (Expr Site))
  /-- Declarations in braces. -/
  | block (ss : List (Stmt Site))
  /-- Parameters in parentheses, and a body. -/
  | routine (params : List Token) (body : List (Stmt Site))
  | method (r : Routine Site)
  /-- The methods and the static methods of a class. -/
  | members (methods statics : List (Routine Site))
  | newVariable (s : Stmt Site)
  /-- The first part in the header of a `for` loop. -/
  | initializer (s : Option (Stmt Site))
  /-- A statement, which may end with an `if` that has no `else`. -/
  | statement (isOpen : Bool) (s : Stmt Site)
  | declaration (s : Stmt Site)
  | declarations (ss : List (Stmt Site))

/-! ## Parts without a tree of their own -/

/-- The value that a token denotes. -/
def Token.literal? (t : Token) : Option Literal :=
  match t.kind with
  | .falseWord => some (.bool false)
  | .trueWord => some (.bool true)
  | .nilWord => some .nil
  | .number | .string => some t.literal
  | _ => none

/-- Names that are separated by commas. -/
inductive Names : List Token → List Token → Prop
  | one {name : Token} (h : name.kind = .identifier) : Names [name] [name]
  | more {name comma : Token} {names ts : List Token} (h : name.kind = .identifier)
      (h' : comma.kind = .comma) (rest : Names names ts) :
      Names (name :: names) (name :: comma :: ts)

/-- What stands between the parentheses of a parameter list. -/
inductive Parameters : List Token → List Token → Prop
  | none : Parameters [] []
  | some {params ts : List Token} (names : Names params ts) (few : params.length ≤ 255) :
      Parameters params ts

/-- The references that stand on some tokens. -/
def referencesFrom (first : Site) : List Token → List (Reference Site)
  | [] => []
  | t :: ts => ⟨t, first⟩ :: referencesFrom (first + 1) ts

/-- The superclass in the header of a class. -/
inductive Superclass : Option (Reference Site) → Site → List Token → Site → Prop
  | none {n} : Superclass none n [] n
  | some {less name : Token} {n} (h : less.kind = .less) (h' : name.kind = .identifier) :
      Superclass (some ⟨name, n⟩) n [less, name] (n + 1)

/-- The mixins in the header of a class. -/
inductive Mixins : List (Reference Site) → Site → List Token → Site → Prop
  | none {n} : Mixins [] n [] n
  | some {mark : Token} {names ts : List Token} {n} (h : mark.kind = .lessEqual)
      (list : Names names ts) : Mixins (referencesFrom n names) n (mark :: ts) (n + names.length)

/-! ## Rules -/

/-- The tokens are a phrase, in a text whose references before the phrase have the sites below the
first number and behind it those below the last. -/
inductive Derives : Phrase → Site → List Token → Site → Prop
  -- Operands
  | literal {t v n} (h : t.literal? = some v) : Derives (.primary (.literal v)) n [t] n
  | grouping {opened closed : Token} {e n ts n'} (h : opened.kind = .leftParen)
      (inner : Derives (.expression e) n ts n') (h' : closed.kind = .rightParen) :
    Derives (.primary (.grouping e)) n (opened :: (ts ++ [closed])) n'
  | super {word dot name : Token} {n} (h : word.kind = .superWord) (h' : dot.kind = .dot)
      (h'' : name.kind = .identifier) :
    Derives (.primary (.super ⟨word, n⟩ name)) n [word, dot, name] (n + 1)
  | this {word : Token} {n} (h : word.kind = .thisWord) :
    Derives (.primary (.this ⟨word, n⟩)) n [word] (n + 1)
  | name {t : Token} {n} (h : t.kind = .identifier) :
    Derives (.primary (.variable ⟨t, n⟩)) n [t] (n + 1)
  | anonymous {word : Token} {params body n ts n'} (h : word.kind = .funWord)
      (routine : Derives (.routine params body) n ts n') :
    Derives (.primary (.function word params body)) n (word :: ts) n'
  -- Calls and property accesses
  | operand {e n ts n'} (operand : Derives (.primary e) n ts n') : Derives (.call e) n ts n'
  | called {opened closed : Token} {f args n ts n' us n''} (callee : Derives (.call f) n ts n')
      (h : opened.kind = .leftParen) (list : Derives (.argumentList args) n' us n'')
      (h' : closed.kind = .rightParen) :
    Derives (.call (.call f closed args)) n (ts ++ opened :: (us ++ [closed])) n''
  | property {dot name : Token} {e n ts n'} (object : Derives (.call e) n ts n')
      (h : dot.kind = .dot) (h' : name.kind = .identifier) :
    Derives (.call (.get e name)) n (ts ++ [dot, name]) n'
  | lastArgument {e n ts n'} (last : Derives (.expression e) n ts n') :
    Derives (.arguments [e]) n ts n'
  | moreArguments {comma : Token} {e es n ts n' us n''} (first : Derives (.expression e) n ts n')
      (h : comma.kind = .comma) (rest : Derives (.arguments es) n' us n'') :
    Derives (.arguments (e :: es)) n (ts ++ comma :: us) n''
  | noArguments {n} : Derives (.argumentList []) n [] n
  | someArguments {es n ts n'} (list : Derives (.arguments es) n ts n')
      (few : es.length ≤ 255) : Derives (.argumentList es) n ts n'
  -- Operators
  | prefixed {op : Token} {e n ts n'} (h : op.kind = .bang ∨ op.kind = .minus)
      (right : Derives (.unary e) n ts n') : Derives (.unary (.unary op e)) n (op :: ts) n'
  | unprefixed {e n ts n'} (operand : Derives (.call e) n ts n') : Derives (.unary e) n ts n'
  | tightest {e n ts n'} (operand : Derives (.unary e) n ts n') : Derives (.operators 0 e) n ts n'
  | tighter {i e n ts n'} (operand : Derives (.operators i e) n ts n') :
    Derives (.operators (i + 1) e) n ts n'
  | binary {i l r n ts n' us n''} {op : Token} (left : Derives (.operators (i + 1) l) n ts n')
      (h : op.kind.binaryLevel? = some (i + 1)) (right : Derives (.operators i r) n' us n'') :
    Derives (.operators (i + 1) (.binary l op r)) n (ts ++ op :: us) n''
  | logical {i l r n ts n' us n''} {op : Token} (left : Derives (.operators (i + 1) l) n ts n')
      (h : op.kind.logicalLevel? = some (i + 1)) (right : Derives (.operators i r) n' us n'') :
    Derives (.operators (i + 1) (.logical l op r)) n (ts ++ op :: us) n''
  -- Assignments
  | unassigned {e n ts n'} (value : Derives (.operators 6 e) n ts n') :
    Derives (.expression e) n ts n'
  | assign {t equals : Token} {e n ts n'} (h : t.kind = .identifier) (h' : equals.kind = .equal)
      (value : Derives (.expression e) (n + 1) ts n') :
    Derives (.expression (.assign ⟨t, n⟩ e)) n (t :: equals :: ts) n'
  | set {dot name equals : Token} {e v n ts n' us n''} (object : Derives (.call e) n ts n')
      (h : dot.kind = .dot) (h' : name.kind = .identifier) (h'' : equals.kind = .equal)
      (value : Derives (.expression v) n' us n'') :
    Derives (.expression (.set e name v)) n (ts ++ dot :: name :: equals :: us) n''
  | absent {n} : Derives (.optional none) n [] n
  | present {e n ts n'} (value : Derives (.expression e) n ts n') :
    Derives (.optional (some e)) n ts n'
  -- Routines
  | block {opened closed : Token} {ss n ts n'} (h : opened.kind = .leftBrace)
      (body : Derives (.declarations ss) n ts n') (h' : closed.kind = .rightBrace) :
    Derives (.block ss) n (opened :: (ts ++ [closed])) n'
  | routine {opened closed : Token} {params ps body n ts n'} (h : opened.kind = .leftParen)
      (list : Parameters params ps) (h' : closed.kind = .rightParen)
      (block : Derives (.block body) n ts n') :
    Derives (.routine params body) n (opened :: (ps ++ closed :: ts)) n'
  | method {name : Token} {params body n ts n'} (h : name.kind = .identifier)
      (routine : Derives (.routine params body) n ts n') :
    Derives (.method ⟨name, params, body, false⟩) n (name :: ts) n'
  | getter {name : Token} {body n ts n'} (h : name.kind = .identifier)
      (block : Derives (.block body) n ts n') :
    Derives (.method ⟨name, [], body, true⟩) n (name :: ts) n'
  | noMembers {n} : Derives (.members [] []) n [] n
  | member {r methods statics n ts n' us n''} (first : Derives (.method r) n ts n')
      (rest : Derives (.members methods statics) n' us n'') :
    Derives (.members (r :: methods) statics) n (ts ++ us) n''
  | staticMember {word : Token} {r methods statics n ts n' us n''} (h : word.kind = .classWord)
      (first : Derives (.method r) n ts n') (rest : Derives (.members methods statics) n' us n'') :
    Derives (.members methods (r :: statics)) n (word :: (ts ++ us)) n''
  -- Statements
  | expressionStatement {mark : Token} {e n ts n'} (value : Derives (.expression e) n ts n')
      (h : mark.kind = .semicolon) : Derives (.statement false (.expression e)) n (ts ++ [mark]) n'
  | print {word mark : Token} {e n ts n'} (h : word.kind = .printWord)
      (value : Derives (.expression e) n ts n') (h' : mark.kind = .semicolon) :
    Derives (.statement false (.print e)) n (word :: (ts ++ [mark])) n'
  | ifThen {word opened closed : Token} {isOpen c s n ts n' us n''} (h : word.kind = .ifWord)
      (h' : opened.kind = .leftParen) (condition : Derives (.expression c) n ts n')
      (h'' : closed.kind = .rightParen) (thenBranch : Derives (.statement isOpen s) n' us n'') :
    Derives (.statement true (.ifElse c s none)) n (word :: opened :: (ts ++ closed :: us)) n''
  | ifElse {word opened closed word' : Token} {isOpen c s s' n ts n' us n'' vs n'''}
      (h : word.kind = .ifWord) (h' : opened.kind = .leftParen)
      (condition : Derives (.expression c) n ts n') (h'' : closed.kind = .rightParen)
      (thenBranch : Derives (.statement false s) n' us n'') (hlast : word'.kind = .elseWord)
      (elseBranch : Derives (.statement isOpen s') n'' vs n''') :
    Derives (.statement isOpen (.ifElse c s (some s'))) n
      (word :: opened :: (ts ++ closed :: (us ++ word' :: vs))) n'''
  | whileLoop {word opened closed : Token} {isOpen c s n ts n' us n''} (h : word.kind = .whileWord)
      (h' : opened.kind = .leftParen) (condition : Derives (.expression c) n ts n')
      (h'' : closed.kind = .rightParen) (body : Derives (.statement isOpen s) n' us n'') :
    Derives (.statement isOpen (.whileLoop c s)) n (word :: opened :: (ts ++ closed :: us)) n''
  | forLoop {word opened mark closed : Token} {isOpen i c e s loop n ts n₁ us n₂ vs n₃ ws n₄ n₅}
      (h : word.kind = .forWord) (h' : opened.kind = .leftParen)
      (init : Derives (.initializer i) n ts n₁) (condition : Derives (.optional c) n₁ us n₂)
      (h'' : mark.kind = .semicolon) (increment : Derives (.optional e) n₂ vs n₃)
      (hlast : closed.kind = .rightParen) (body : Derives (.statement isOpen s) n₃ ws n₄)
      (standsFor : Loops i c e s n₄ loop n₅) :
    Derives (.statement isOpen loop) n
      (word :: opened :: (ts ++ (us ++ mark :: (vs ++ closed :: ws)))) n₅
  | ret {word mark : Token} {e n ts n'} (h : word.kind = .returnWord)
      (value : Derives (.optional e) n ts n') (h' : mark.kind = .semicolon) :
    Derives (.statement false (.ret word e)) n (word :: (ts ++ [mark])) n'
  | braced {ss n ts n'} (block : Derives (.block ss) n ts n') :
    Derives (.statement false (.block ss)) n ts n'
  | loopExit {word mark : Token} {n} (h : word.kind = .breakWord ∨ word.kind = .continueWord)
      (h' : mark.kind = .semicolon) : Derives (.statement false (.loopExit word)) n [word, mark] n
  -- Declarations
  | uninitialized {word name mark : Token} {n} (h : word.kind = .varWord)
      (h' : name.kind = .identifier) (h'' : mark.kind = .semicolon) :
    Derives (.newVariable (.var name none)) n [word, name, mark] n
  | initialized {word name equals mark : Token} {e n ts n'} (h : word.kind = .varWord)
      (h' : name.kind = .identifier) (h'' : equals.kind = .equal)
      (value : Derives (.expression e) n ts n') (hlast : mark.kind = .semicolon) :
    Derives (.newVariable (.var name (some e))) n (word :: name :: equals :: (ts ++ [mark])) n'
  | noInitializer {mark : Token} {n} (h : mark.kind = .semicolon) :
    Derives (.initializer none) n [mark] n
  | variableInitializer {s n ts n'} (declared : Derives (.newVariable s) n ts n') :
    Derives (.initializer (some s)) n ts n'
  | expressionInitializer {mark : Token} {e n ts n'} (value : Derives (.expression e) n ts n')
      (h : mark.kind = .semicolon) :
    Derives (.initializer (some (.expression e))) n (ts ++ [mark]) n'
  | classDecl {word name opened closed : Token}
      {superclass mixins methods statics n ts n₁ us n₂ vs n₃} (h : word.kind = .classWord)
      (h' : name.kind = .identifier) (parent : Superclass superclass n ts n₁)
      (mixed : Mixins mixins n₁ us n₂) (h'' : opened.kind = .leftBrace)
      (members : Derives (.members methods statics) n₂ vs n₃) (hlast : closed.kind = .rightBrace) :
    Derives (.declaration (.classDecl name superclass mixins methods statics)) n
      (word :: name :: (ts ++ (us ++ opened :: (vs ++ [closed])))) n₃
  | function {word name : Token} {params body n ts n'} (h : word.kind = .funWord)
      (h' : name.kind = .identifier) (routine : Derives (.routine params body) n ts n') :
    Derives (.declaration (.function ⟨name, params, body, false⟩)) n (word :: name :: ts) n'
  | loneRoutine {word mark : Token} {params body n ts n'} (h : word.kind = .funWord)
      (routine : Derives (.routine params body) n ts n') (h' : mark.kind = .semicolon) :
    Derives (.declaration (.expression (.function word params body))) n (word :: (ts ++ [mark])) n'
  | declared {s n ts n'} (declared : Derives (.newVariable s) n ts n') :
    Derives (.declaration s) n ts n'
  | undeclared {isOpen s n ts n'} (statement : Derives (.statement isOpen s) n ts n')
      (h : ∀ t ∈ ts.head?, t.kind ≠ .funWord) : Derives (.declaration s) n ts n'
  | done {n} : Derives (.declarations []) n [] n
  | more {s ss n ts n' us n''} (first : Derives (.declaration s) n ts n')
      (rest : Derives (.declarations ss) n' us n'') :
    Derives (.declarations (s :: ss)) n (ts ++ us) n''

/-! ## How phrases begin -/

/-- The tokens that an expression can begin with. -/
def beginsExpression (k : Kind) : Bool := beginsOperand k || k == .bang || k == .minus

/-- The tokens that a statement can begin with. -/
def beginsStatement (k : Kind) : Bool := beginsStatementForm k || beginsExpression k

namespace Phrase

/-- The phrase has no tokens. -/
def isEmpty : Phrase → Bool
  | argumentList [] | optional none | members [] [] | declarations [] => true
  | _ => false

/-- The tokens that the phrase can begin with. -/
def begins : Phrase → Kind → Bool
  | primary _ | call _ => beginsOperand
  | arguments _ | argumentList _ | unary _ | operators _ _ | expression _ | optional _ =>
    beginsExpression
  | block _ => (· == .leftBrace)
  | routine _ _ => (· == .leftParen)
  | method _ => (· == .identifier)
  | members _ _ => fun k => k == .identifier || k == .classWord
  | newVariable _ => (· == .varWord)
  | initializer _ => fun k => k == .semicolon || k == .varWord || beginsExpression k
  | statement _ _ => LoxLang.beginsStatement
  | declaration _ | declarations _ => fun k => beginsDeclarationForm k || LoxLang.beginsStatement k

end Phrase

/-- The tokens begin with one as told. -/
def BeginsWith (p : Kind → Bool) (ts : List Token) : Prop :=
  ∃ t us, ts = t :: us ∧ p t.kind = true

namespace BeginsWith

variable {p q : Kind → Bool} {ts : List Token}

theorem append (h : BeginsWith p ts) (us : List Token) : BeginsWith p (ts ++ us) := by
  obtain ⟨t, ts, rfl, ok⟩ := h
  exact ⟨t, ts ++ us, rfl, ok⟩

theorem mono (h : BeginsWith p ts) (le : ∀ k, p k = true → q k = true) : BeginsWith q ts := by
  obtain ⟨t, ts, rfl, ok⟩ := h
  exact ⟨t, ts, rfl, le _ ok⟩

theorem length_pos (h : BeginsWith p ts) : 0 < ts.length := by
  obtain ⟨t, ts, rfl, _⟩ := h
  simp

end BeginsWith

theorem begins_literal {t : Token} {v : Literal} (h : t.literal? = some v) :
    beginsOperand t.kind = true := by
  unfold Token.literal? at h
  split at h <;> simp_all [beginsOperand]

/-- A phrase that is not empty begins as told. -/
theorem Derives.begins {φ : Phrase} {n n' : Site} {ts : List Token} (h : Derives φ n ts n') :
    φ.isEmpty = false → BeginsWith φ.begins ts := by
  have expression : ∀ k, beginsOperand k = true → beginsExpression k = true := by
    intro k h
    simp [beginsExpression, h]
  have statement : ∀ k, beginsExpression k = true → LoxLang.beginsStatement k = true := by
    intro k h
    simp [LoxLang.beginsStatement, h]
  induction h with
  | literal h => exact fun _ => ⟨_, _, rfl, begins_literal h⟩
  | grouping h _ _ _ => exact fun _ => ⟨_, _, rfl, by rw [h]; rfl⟩
  | super h _ _ => exact fun _ => ⟨_, _, rfl, by rw [h]; rfl⟩
  | this h => exact fun _ => ⟨_, _, rfl, by rw [h]; rfl⟩
  | name h => exact fun _ => ⟨_, _, rfl, by rw [h]; rfl⟩
  | anonymous h _ _ => exact fun _ => ⟨_, _, rfl, by rw [h]; rfl⟩
  | operand _ ih => exact fun _ => ih rfl
  | called _ _ _ _ ih _ => exact fun _ => (ih rfl).append _
  | property _ _ _ ih => exact fun _ => (ih rfl).append _
  | lastArgument _ ih => exact fun _ => ih rfl
  | moreArguments _ _ _ ih _ => exact fun _ => (ih rfl).append _
  | noArguments => exact nofun
  | someArguments _ _ ih => exact fun _ => ih rfl
  | prefixed h _ _ =>
    refine fun _ => ⟨_, _, rfl, ?_⟩
    rcases h with h | h <;> rw [h] <;> rfl
  | unprefixed _ ih => exact fun _ => (ih rfl).mono expression
  | tightest _ ih => exact fun _ => ih rfl
  | tighter _ ih => exact fun _ => ih rfl
  | binary _ _ _ ih _ => exact fun _ => (ih rfl).append _
  | logical _ _ _ ih _ => exact fun _ => (ih rfl).append _
  | unassigned _ ih => exact fun _ => ih rfl
  | assign h _ _ _ => exact fun _ => ⟨_, _, rfl, by rw [h]; rfl⟩
  | set _ _ _ _ _ ih _ => exact fun _ => ((ih rfl).append _).mono expression
  | absent => exact nofun
  | present _ ih => exact fun _ => ih rfl
  | block h _ _ _ => exact fun _ => ⟨_, _, rfl, by rw [h]; rfl⟩
  | routine h _ _ _ _ => exact fun _ => ⟨_, _, rfl, by rw [h]; rfl⟩
  | method h _ _ => exact fun _ => ⟨_, _, rfl, by rw [h]; rfl⟩
  | getter h _ _ => exact fun _ => ⟨_, _, rfl, by rw [h]; rfl⟩
  | noMembers => exact nofun
  | member _ _ ih _ => exact fun _ =>
    ((ih rfl).append _).mono fun k h => by simp_all [Phrase.begins]
  | staticMember h _ _ _ _ => exact fun _ => ⟨_, _, rfl, by rw [h]; rfl⟩
  | expressionStatement _ _ ih => exact fun _ => ((ih rfl).append _).mono statement
  | print h _ _ _ => exact fun _ => ⟨_, _, rfl, by rw [h]; rfl⟩
  | ifThen h _ _ _ _ _ _ => exact fun _ => ⟨_, _, rfl, by rw [h]; rfl⟩
  | ifElse h _ _ _ _ _ _ _ _ _ => exact fun _ => ⟨_, _, rfl, by rw [h]; rfl⟩
  | whileLoop h _ _ _ _ _ _ => exact fun _ => ⟨_, _, rfl, by rw [h]; rfl⟩
  | forLoop h _ _ _ _ _ _ _ _ _ _ _ _ => exact fun _ => ⟨_, _, rfl, by rw [h]; rfl⟩
  | ret h _ _ _ => exact fun _ => ⟨_, _, rfl, by rw [h]; rfl⟩
  | braced _ ih =>
    exact fun _ => (ih rfl).mono fun k h => by rw [beq_iff_eq.mp h]; rfl
  | loopExit h _ =>
    refine fun _ => ⟨_, _, rfl, ?_⟩
    rcases h with h | h <;> rw [h] <;> rfl
  | uninitialized h _ _ => exact fun _ => ⟨_, _, rfl, by rw [h]; rfl⟩
  | initialized h _ _ _ _ _ => exact fun _ => ⟨_, _, rfl, by rw [h]; rfl⟩
  | noInitializer h => exact fun _ => ⟨_, _, rfl, by rw [h]; rfl⟩
  | variableInitializer _ ih => exact fun _ => (ih rfl).mono fun k h => by rw [beq_iff_eq.mp h]; rfl
  | expressionInitializer _ _ ih =>
    exact fun _ => ((ih rfl).append _).mono fun k h => by simp_all [Phrase.begins]
  | classDecl h _ _ _ _ _ _ _ => exact fun _ => ⟨_, _, rfl, by rw [h]; rfl⟩
  | function h _ _ _ => exact fun _ => ⟨_, _, rfl, by rw [h]; rfl⟩
  | loneRoutine h _ _ _ => exact fun _ => ⟨_, _, rfl, by rw [h]; rfl⟩
  | declared _ ih => exact fun _ => (ih rfl).mono fun k h => by rw [beq_iff_eq.mp h]; rfl
  | undeclared _ _ ih => exact fun _ => (ih rfl).mono fun k h => by simp_all [Phrase.begins]
  | done => exact nofun
  | more _ _ ih _ => exact fun _ => (ih rfl).append _

/-- A phrase that is empty has no tokens. -/
theorem Derives.of_isEmpty {φ : Phrase} {n n' : Site} {ts : List Token} (h : Derives φ n ts n')
    (empty : φ.isEmpty = true) : ts = [] ∧ n' = n := by
  cases h with
  | noArguments | absent | noMembers | done => exact ⟨rfl, rfl⟩
  | someArguments list _ => cases list <;> cases empty
  | @staticMember _ _ methods => cases methods <;> cases empty
  | _ => cases empty

end LoxLang
