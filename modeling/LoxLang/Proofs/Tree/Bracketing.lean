/-
LoxLang.Proofs.Tree.Bracketing: the written form of a tree as a bracketed text, and back.

The written form of a tree is a bracketed text, whose first word tells the construct, sometimes
together with the number and the shape of the other parts.  So the tree can be read off it, but for
the lines of its tokens and the marks of its references.

* `Expr.bracketed`, `Stmt.bracketed`, `Routine.bracketed`: the bracketed text of a tree.
* `Expr.restored`, `Stmt.restored`: the tree of a bracketed text, on line zero.

Main statements: `chars_bracketedExpr` and `chars_bracketedStmt`, the bracketed text is the written
form.
-/
import LoxLang.Proofs.Tree.Bracketed
import LoxLang.Token.Segment

namespace LoxLang

/-! ## From trees -/

section Bracketed

variable {ρ : Type}

/-- A token as a word. -/
def Token.word (t : Token) : Bracketed := .word t.lexeme

/-- The superclass and the mixins in the header of a class. -/
def headerWords (superclass : Option (Reference ρ)) (mixins : List (Reference ρ)) :
    List Bracketed :=
  (superclass.map fun r => [.word "<", r.token.word]).getD []
    ++ if mixins.isEmpty then [] else .word "<=" :: mixins.map (·.token.word)

/-- Signs and names stand in the header of a class. -/
theorem mem_headerWords {superclass : Option (Reference ρ)} {mixins : List (Reference ρ)}
    {b : Bracketed} (mem : b ∈ headerWords superclass mixins) :
    b = .word "<" ∨ b = .word "<=" ∨ ∃ r, (r ∈ superclass ∨ r ∈ mixins) ∧ b = r.token.word := by
  rcases List.mem_append.mp mem with mem | mem
  · cases superclass with
    | none => cases mem
    | some r =>
      simp only [Option.map_some, Option.getD_some, List.mem_cons, List.not_mem_nil, or_false]
        at mem
      rcases mem with rfl | rfl
      · exact .inl rfl
      · exact .inr (.inr ⟨r, .inl rfl, rfl⟩)
  · split at mem
    · cases mem
    · rcases List.mem_cons.mp mem with rfl | mem
      · exact .inr (.inl rfl)
      · obtain ⟨r, among, rfl⟩ := List.mem_map.mp mem
        exact .inr (.inr ⟨r, .inr among, rfl⟩)

/-- A routine of a class as a static method. -/
def Bracketed.static (b : Bracketed) : Bracketed := .parens [.word "static", b]

mutual

/-- The bracketed text of an expression. -/
def Expr.bracketed : Expr ρ → Bracketed
  | .literal v => .word (String.ofList v.chars)
  | .grouping e => .parens [.word "group", e.bracketed]
  | .unary op e => .parens [op.word, e.bracketed]
  | .binary l op r => .parens [op.word, l.bracketed, r.bracketed]
  | .logical l op r => .parens [op.word, l.bracketed, r.bracketed]
  | .variable r => r.token.word
  | .assign r e => .parens [.word "=", r.token.word, e.bracketed]
  | .call f _ es => .parens (.word "call" :: f.bracketed :: Expr.bracketedAll es)
  | .get e name => .parens [.word ".", e.bracketed, name.word]
  | .set e name v =>
    .parens [.word "=", .parens [.word ".", e.bracketed, name.word], v.bracketed]
  | .this _ => .word "this"
  | .super _ method => .parens [.word "super", method.word]
  | .function _ params body =>
    .parens [.word "fun", .parens (params.map Token.word), .braces (Stmt.bracketedAll body)]

def Expr.bracketedAll : List (Expr ρ) → List Bracketed
  | [] => []
  | e :: es => e.bracketed :: Expr.bracketedAll es

/-- The bracketed text of a statement. -/
def Stmt.bracketed : Stmt ρ → Bracketed
  | .missing => .parens [.word "error"]
  | .expression e => .parens [.word ";", e.bracketed]
  | .print e => .parens [.word "print", e.bracketed]
  | .var name none => .parens [.word "var", name.word]
  | .var name (some e) => .parens [.word "var", name.word, e.bracketed]
  | .block body => .parens [.word "block", .braces (Stmt.bracketedAll body)]
  | .ifElse c t none => .parens [.word "if", c.bracketed, t.bracketed]
  | .ifElse c t (some e) => .parens [.word "if", c.bracketed, t.bracketed, e.bracketed]
  | .whileLoop c b => .parens [.word "while", c.bracketed, b.bracketed]
  | .ret _ none => .parens [.word "return"]
  | .ret _ (some e) => .parens [.word "return", e.bracketed]
  | .loopExit keyword => .parens [keyword.word]
  | .function r => r.bracketed
  | .classDecl name superclass mixins methods statics =>
    .parens (.word "class" :: name.word :: (headerWords superclass mixins
      ++ (Routine.bracketedAll methods ++ (Routine.bracketedAll statics).map .static)))

def Stmt.bracketedAll : List (Stmt ρ) → List Bracketed
  | [] => []
  | s :: ss => s.bracketed :: Stmt.bracketedAll ss

/-- The bracketed text of a routine. -/
def Routine.bracketed : Routine ρ → Bracketed
  | ⟨name, params, body, getter⟩ =>
    .parens [.word (if getter then "getter" else "fun"), name.word,
      .parens (params.map Token.word), .braces (Stmt.bracketedAll body)]

def Routine.bracketedAll : List (Routine ρ) → List Bracketed
  | [] => []
  | r :: rs => r.bracketed :: Routine.bracketedAll rs

end

theorem Bracketed.charsAll_eq (bs : List Bracketed) : Bracketed.charsAll bs = bs.map chars := by
  induction bs with
  | nil => rfl
  | cons b bs ih => rw [charsAll, ih, List.map_cons]

theorem charsAll_words (ts : List Token) :
    Bracketed.charsAll (ts.map Token.word) = ts.map Token.chars := by
  rw [Bracketed.charsAll_eq, List.map_map]
  rfl

theorem chars_headerWords (superclass : Option (Reference ρ)) (mixins : List (Reference ρ)) :
    (headerWords superclass mixins).map Bracketed.chars =
      (superclass.map fun r => ["<".toList, r.token.chars]).getD []
        ++ if mixins.isEmpty then [] else "<=".toList :: mixins.map (·.token.chars) := by
  rw [headerWords, List.map_append]
  congr 1
  · cases superclass <;> rfl
  · split
    · rfl
    · rw [List.map_cons, List.map_map]
      rfl

mutual

/-- The written form of an expression is its bracketed text. -/
theorem chars_bracketedExpr : ∀ e : Expr ρ, e.bracketed.chars = e.chars
  | .literal _ => String.toList_ofList
  | .variable _ | .this _ | .super _ _ => rfl
  | .grouping e => by
    show parens [_, e.bracketed.chars] = _
    rw [chars_bracketedExpr e]
    rfl
  | .unary _ e => by
    show parens [_, e.bracketed.chars] = _
    rw [chars_bracketedExpr e]
    rfl
  | .binary l _ r => by
    show parens [_, l.bracketed.chars, r.bracketed.chars] = _
    rw [chars_bracketedExpr l, chars_bracketedExpr r]
    rfl
  | .logical l _ r => by
    show parens [_, l.bracketed.chars, r.bracketed.chars] = _
    rw [chars_bracketedExpr l, chars_bracketedExpr r]
    rfl
  | .assign _ e => by
    show parens [_, _, e.bracketed.chars] = _
    rw [chars_bracketedExpr e]
    rfl
  | .call f _ es => by
    show parens (_ :: f.bracketed.chars :: Bracketed.charsAll (Expr.bracketedAll es)) = _
    rw [chars_bracketedExpr f, chars_bracketedExprs es]
    rfl
  | .get e _ => by
    show parens [_, e.bracketed.chars, _] = _
    rw [chars_bracketedExpr e]
    rfl
  | .set e _ v => by
    show parens [_, parens [_, e.bracketed.chars, _], v.bracketed.chars] = _
    rw [chars_bracketedExpr e, chars_bracketedExpr v]
    rfl
  | .function _ params body => by
    show parens [_, parens (Bracketed.charsAll (params.map Token.word)),
      braces (Bracketed.charsAll (Stmt.bracketedAll body))] = _
    rw [charsAll_words, chars_bracketedStmts body]
    rfl

theorem chars_bracketedExprs : ∀ es : List (Expr ρ),
    Bracketed.charsAll (Expr.bracketedAll es) = Expr.charsAll es
  | [] => rfl
  | e :: es => congr (congrArg List.cons (chars_bracketedExpr e)) (chars_bracketedExprs es)

/-- The written form of a statement is its bracketed text. -/
theorem chars_bracketedStmt : ∀ s : Stmt ρ, s.bracketed.chars = s.chars
  | .missing | .var _ none | .ret _ none | .loopExit _ => rfl
  | .expression e => by
    show parens [_, e.bracketed.chars] = _
    rw [chars_bracketedExpr e]
    rfl
  | .print e => by
    show parens [_, e.bracketed.chars] = _
    rw [chars_bracketedExpr e]
    rfl
  | .var _ (some e) => by
    show parens [_, _, e.bracketed.chars] = _
    rw [chars_bracketedExpr e]
    rfl
  | .block body => by
    show parens [_, braces (Bracketed.charsAll (Stmt.bracketedAll body))] = _
    rw [chars_bracketedStmts body]
    rfl
  | .ifElse c t none => by
    show parens [_, c.bracketed.chars, t.bracketed.chars] = _
    rw [chars_bracketedExpr c, chars_bracketedStmt t]
    rfl
  | .ifElse c t (some e) => by
    show parens [_, c.bracketed.chars, t.bracketed.chars, e.bracketed.chars] = _
    rw [chars_bracketedExpr c, chars_bracketedStmt t, chars_bracketedStmt e]
    rfl
  | .whileLoop c b => by
    show parens [_, c.bracketed.chars, b.bracketed.chars] = _
    rw [chars_bracketedExpr c, chars_bracketedStmt b]
    rfl
  | .ret _ (some e) => by
    show parens [_, e.bracketed.chars] = _
    rw [chars_bracketedExpr e]
    rfl
  | .function r => chars_bracketedRoutine r
  | .classDecl name superclass mixins methods statics => by
    have own := chars_bracketedRoutines methods
    have shared := chars_bracketedRoutines statics
    rw [Bracketed.charsAll_eq] at own shared
    have static : ((Routine.bracketedAll statics).map .static).map Bracketed.chars =
        (Routine.charsAll statics).map fun cs => parens ["static".toList, cs] := by
      rw [← shared, List.map_map, List.map_map]
      rfl
    show parens (_ :: _ :: Bracketed.charsAll (_ ++ (_ ++ _))) = _
    rw [Bracketed.charsAll_eq, List.map_append, List.map_append, chars_headerWords, own, static,
      ← List.append_assoc]
    rfl

theorem chars_bracketedStmts : ∀ ss : List (Stmt ρ),
    Bracketed.charsAll (Stmt.bracketedAll ss) = Stmt.charsAll ss
  | [] => rfl
  | s :: ss => congr (congrArg List.cons (chars_bracketedStmt s)) (chars_bracketedStmts ss)

/-- The written form of a routine is its bracketed text. -/
theorem chars_bracketedRoutine : ∀ r : Routine ρ, r.bracketed.chars = r.chars
  | ⟨_, params, body, _⟩ => by
    show parens [_, _, parens (Bracketed.charsAll (params.map Token.word)),
      braces (Bracketed.charsAll (Stmt.bracketedAll body))] = _
    rw [charsAll_words, chars_bracketedStmts body]
    rfl

theorem chars_bracketedRoutines : ∀ rs : List (Routine ρ),
    Bracketed.charsAll (Routine.bracketedAll rs) = Routine.charsAll rs
  | [] => rfl
  | r :: rs => congr (congrArg List.cons (chars_bracketedRoutine r)) (chars_bracketedRoutines rs)

end

end Bracketed

/-! ## From bracketed texts -/

/-- A token without a value on line zero. -/
def Token.bare (kind : Kind) (s : String) : Token := ⟨kind, s, .nil, 0⟩

/-- A name on line zero. -/
def Token.name (s : String) : Token := .bare .identifier s

/-- A reference on line zero. -/
def Reference.bare (kind : Kind) (s : String) : Reference Unit := ⟨.bare kind s, ()⟩

/-- The spellings of the tokens that a tree keeps beside names. -/
def spellings : List (String × Kind) :=
  [("!", .bang), ("-", .minus), ("+", .plus), ("*", .star), ("/", .slash), ("==", .equalEqual),
    ("!=", .bangEqual), ("<", .less), (">", .greater), ("<=", .lessEqual), (">=", .greaterEqual),
    ("or", .orWord), ("and", .andWord), (")", .rightParen), ("this", .thisWord),
    ("super", .superWord), ("fun", .funWord), ("return", .returnWord), ("break", .breakWord),
    ("continue", .continueWord)]

/-- A token of a spelling on line zero. -/
def Token.spelled (s : String) : Token := .bare ((spellings.lookup s).getD .identifier) s

/-- The characters are those of a word of the language. -/
def isWordText : List Char → Bool
  | [] => false
  | c :: cs => isWordStart c && cs.all isWordPart

/-- The words that a row begins with. -/
def leadingNames : List Bracketed → List (Reference Unit)
  | .word s :: bs => .bare .identifier s :: leadingNames bs
  | _ => []

/-- The superclass in the header of a class. -/
def superclassOf : List Bracketed → Option (Reference Unit)
  | .word "<" :: .word s :: _ => some (.bare .identifier s)
  | _ => none

/-- The mixins in the header of a class. -/
def mixinsOf : List Bracketed → List (Reference Unit)
  | .word "<" :: _ :: .word "<=" :: bs => leadingNames bs
  | .word "<=" :: bs => leadingNames bs
  | _ => []

/-- The names of a parameter list. -/
def parametersOf (bs : List Bracketed) : List Token :=
  bs.map fun
    | .word s => .name s
    | _ => default

section Restored

variable (value : String → Float)

mutual

/-- The expression of a bracketed text; `value` tells numbers by their written forms. -/
def Expr.restored : Bracketed → Expr Unit
  | .word "nil" => .literal .nil
  | .word "true" => .literal (.bool true)
  | .word "false" => .literal (.bool false)
  | .word "this" => .this (.bare .thisWord "this")
  | .word s =>
    if isWordText s.toList then .variable (.bare .identifier s) else .literal (.number (value s))
  | .parens [.word "group", e] => .grouping (Expr.restored e)
  | .parens [.word ".", e, .word name] => .get (Expr.restored e) (.name name)
  | .parens [.word "=", .word name, e] => .assign (.bare .identifier name) (Expr.restored e)
  | .parens [.word "=", .parens [.word ".", e, .word name], v] =>
    .set (Expr.restored e) (.name name) (Expr.restored v)
  | .parens (.word "call" :: f :: es) =>
    .call (Expr.restored f) (.spelled ")") (Expr.restoredAll es)
  | .parens [.word "super", .word method] => .super (.bare .superWord "super") (.name method)
  | .parens [.word "fun", .parens params, .braces body] =>
    .function (.spelled "fun") (parametersOf params) (Stmt.restoredAll body)
  | .parens [.word op, e] => .unary (.spelled op) (Expr.restored e)
  | .parens [.word op, l, r] =>
    if op == "or" || op == "and" then .logical (Expr.restored l) (.spelled op) (Expr.restored r)
    else .binary (Expr.restored l) (.spelled op) (Expr.restored r)
  | _ => default

def Expr.restoredAll : List Bracketed → List (Expr Unit)
  | [] => []
  | b :: bs => Expr.restored b :: Expr.restoredAll bs

/-- The statement of a bracketed text. -/
def Stmt.restored : Bracketed → Stmt Unit
  | .parens [.word ";", e] => .expression (Expr.restored e)
  | .parens [.word "print", e] => .print (Expr.restored e)
  | .parens [.word "var", .word name] => .var (.name name) none
  | .parens [.word "var", .word name, e] => .var (.name name) (some (Expr.restored e))
  | .parens [.word "block", .braces body] => .block (Stmt.restoredAll body)
  | .parens [.word "if", c, t] => .ifElse (Expr.restored c) (Stmt.restored t) none
  | .parens [.word "if", c, t, e] =>
    .ifElse (Expr.restored c) (Stmt.restored t) (some (Stmt.restored e))
  | .parens [.word "while", c, b] => .whileLoop (Expr.restored c) (Stmt.restored b)
  | .parens [.word "return"] => .ret (.spelled "return") none
  | .parens [.word "return", e] => .ret (.spelled "return") (some (Expr.restored e))
  | .parens [.word "break"] => .loopExit (.spelled "break")
  | .parens [.word "continue"] => .loopExit (.spelled "continue")
  | .parens (.word "class" :: .word name :: parts) =>
    .classDecl (.name name) (superclassOf parts) (mixinsOf parts) (Routine.restoredMethods parts)
      (Routine.restoredStatics parts)
  | .parens [.word head, .word name, .parens params, .braces body] =>
    .function ⟨.name name, parametersOf params, Stmt.restoredAll body, head == "getter"⟩
  | _ => .missing

def Stmt.restoredAll : List Bracketed → List (Stmt Unit)
  | [] => []
  | b :: bs => Stmt.restored b :: Stmt.restoredAll bs

/-- The routine of a bracketed text, if it is one. -/
def Routine.restored : Bracketed → Option (Routine Unit)
  | .parens [.word head, .word name, .parens params, .braces body] =>
    some ⟨.name name, parametersOf params, Stmt.restoredAll body, head == "getter"⟩
  | _ => none

/-- The methods among the parts of a class. -/
def Routine.restoredMethods : List Bracketed → List (Routine Unit)
  | [] => []
  | b :: bs => (Routine.restored b).toList ++ Routine.restoredMethods bs

/-- The static method of a bracketed text, if it is one. -/
def Routine.restoredStatic : Bracketed → Option (Routine Unit)
  | .parens [.word "static", b] => Routine.restored b
  | _ => none

/-- The static methods among the parts of a class. -/
def Routine.restoredStatics : List Bracketed → List (Routine Unit)
  | [] => []
  | b :: bs => (Routine.restoredStatic b).toList ++ Routine.restoredStatics bs

end

end Restored

end LoxLang
