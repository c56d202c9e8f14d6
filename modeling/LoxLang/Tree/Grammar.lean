/-
LoxLang.Tree.Grammar: reading programs by recursive descent.

Every rule of the grammar is a function from the readers of its parts to the reader of the whole.
Expressions, statements and declarations contain each other; the rules take their readers as
arguments, and `readExpression`, `readStatement` and `readDeclaration` tie the knot under a bound on
nesting, which `Program.ofTokens` computes from the number of tokens.

* `readOperators`: the binary operators, one table of levels from the loosest to the tightest.
* `readPrimary`, `readChain`: operands with their calls and property accesses.
* `readClass`, `readRoutine`, `readVariable`: declarations.
* `readFor` and its companions: statements.
* `Program.ofTokens`, `readExpressionAlone`: whole texts.

A repetition is bounded by the same number as the nesting, since each turn consumes a token.
-/
import LoxLang.Tree.Cursor
import LoxLang.Tree.ForLoop

namespace LoxLang

/-- A program as it was read. -/
abbrev Program := List (Stmt Site)

/-! ## Lists of names -/

/-- The parameters of a list that is not empty, as many as are still allowed. -/
def readParameters : Nat → Read (List Token)
  | 0 => fail .tooManyParameters
  | allowed + 1 => do
    let name ← expectName .parameter
    match ← take? .comma with
    | some _ => return name :: (← readParameters allowed)
    | none => return [name]

/-- The parameters up to the closing parenthesis: `( name ( "," name )* )?`. -/
def readParameterList : Read (List Token) := do
  if ← isAt .rightParen then return []
  readParameters maxListed

/-- The names of mixins: `name ( "," name )*`. -/
def readMixins : Nat → Read (List (Reference Site))
  | 0 => outOfBound
  | bound + 1 => do
    let ref ← newReference (← expectName .mixin)
    match ← take? .comma with
    | some _ => return ref :: (← readMixins bound)
    | none => return [ref]

/-! ## Bodies and routines -/

/-- The declarations up to the closing brace or the end. -/
def readBlockItems (declaration : Read (Stmt Site)) : Nat → Read (List (Stmt Site))
  | 0 => outOfBound
  | bound + 1 => do
    if (← isAt .rightBrace) || (← isAtEnd) then return []
    let first ← declaration
    return first :: (← readBlockItems declaration bound)

/-- A body whose opening brace has been consumed: `declaration* "}"`. -/
def readBody (bound : Nat) (declaration : Read (Stmt Site)) : Read (List (Stmt Site)) := do
  let items ← readBlockItems declaration bound
  let _ ← expect .rightBrace .afterBlock
  return items

/-- A routine without a name, after its keyword: `"(" params ")" "{" body`. -/
def readAnonymous (bound : Nat) (declaration : Read (Stmt Site)) (keyword : Token) :
    Read (Expr Site) := do
  let _ ← expect .leftParen (.afterWord "fun")
  let params ← readParameterList
  let _ ← expect .rightParen .afterParameters
  let _ ← expect .leftBrace (.beforeRoutineBody .function)
  return .function keyword params (← readBody bound declaration)

/-- A named routine: `name ( "(" params ")" )? "{" body`.  Only a method may leave its parameter
list out, and is a getter then. -/
def readRoutine (bound : Nat) (declaration : Read (Stmt Site)) (role : RoutineRole) :
    Read (Routine Site) := do
  let name ← expectName (.routine role)
  let params ← match ← take? .leftParen with
    | some _ => do
      let params ← readParameterList
      let _ ← expect .rightParen .afterParameters
      pure (some params)
    | none =>
      if role = .function then fail (.missingMark .leftParen (.afterRoutineName role))
      else pure none
  let _ ← expect .leftBrace (.beforeRoutineBody role)
  return ⟨name, params.getD [], ← readBody bound declaration, params.isNone⟩

/-! ## Expressions -/

/-- The arguments of a list that is not empty, as many as are still allowed. -/
def readArguments (expression : Read (Expr Site)) : Nat → Read (List (Expr Site))
  | 0 => fail .tooManyArguments
  | allowed + 1 => do
    let first ← expression
    match ← take? .comma with
    | some _ => return first :: (← readArguments expression allowed)
    | none => return [first]

/-- The arguments up to the closing parenthesis: `( expression ( "," expression )* )?`. -/
def readArgumentList (expression : Read (Expr Site)) : Read (List (Expr Site)) := do
  if ← isAt .rightParen then return []
  readArguments expression maxListed

/-- The tokens that an operand can begin with. -/
def beginsOperand : Kind → Bool
  | .falseWord | .trueWord | .nilWord | .number | .string | .leftParen | .superWord | .thisWord
  | .identifier | .funWord => true
  | _ => false

/-- An operand: a literal, a grouping, a name, `this`, `super.name` or a routine without a name. -/
def readPrimary (bound : Nat) (expression : Read (Expr Site)) (declaration : Read (Stmt Site)) :
    Read (Expr Site) := do
  match ← takeIf beginsOperand with
  | none => fail .missingExpression
  | some t =>
    match t.kind with
    | .falseWord => return .literal (.bool false)
    | .trueWord => return .literal (.bool true)
    | .nilWord => return .literal .nil
    | .leftParen => do
      let inner ← expression
      let _ ← expect .rightParen .afterExpression
      return .grouping inner
    | .superWord => do
      let _ ← expect .dot (.afterWord "super")
      let method ← expectName .superMethod
      return .super (← newReference t) method
    | .thisWord => return .this (← newReference t)
    | .identifier => return .variable (← newReference t)
    | .funWord => readAnonymous bound declaration t
    | _ => return .literal t.literal

/-- The calls and property accesses that follow an operand, nested to the left. -/
def readChain (expression : Read (Expr Site)) : Nat → Expr Site → Read (Expr Site)
  | 0, _ => outOfBound
  | bound + 1, e => do
    match ← takeIf fun k => k == .leftParen || k == .dot with
    | none => return e
    | some t =>
      if t.kind = .leftParen then
        let arguments ← readArgumentList expression
        let paren ← expect .rightParen .afterArguments
        readChain expression bound (.call e paren arguments)
      else
        let name ← expectName .property
        readChain expression bound (.get e name)

/-- An operand under prefix operators, which associate to the right. -/
def readUnary (operand : Read (Expr Site)) : Nat → Read (Expr Site)
  | 0 => outOfBound
  | bound + 1 => do
    match ← takeIf fun k => k == .bang || k == .minus with
    | some op => return .unary op (← readUnary operand bound)
    | none => operand

/-- A level of binary operators. -/
structure OperatorLevel where
  kinds : List Kind
  /-- The operators evaluate their right side only if they have to. -/
  isLogical : Bool

/-- The levels of binary operators, the loosest first. -/
def operatorLevels : List OperatorLevel :=
  [⟨[.orWord], true⟩, ⟨[.andWord], true⟩, ⟨[.equalEqual, .bangEqual], false⟩,
    ⟨[.less, .greater, .lessEqual, .greaterEqual], false⟩, ⟨[.plus, .minus], false⟩,
    ⟨[.star, .slash], false⟩]

/-- The expression that an operator of a level makes of its two sides. -/
def OperatorLevel.combine (level : OperatorLevel) (left : Expr Site) (op : Token)
    (right : Expr Site) : Expr Site :=
  if level.isLogical then .logical left op right else .binary left op right

/-- The operators of one level that follow a left side, nested to the left. -/
def readOperatorTail (level : OperatorLevel) (operand : Read (Expr Site)) :
    Nat → Expr Site → Read (Expr Site)
  | 0, _ => outOfBound
  | bound + 1, left => do
    match ← takeIf level.kinds.contains with
    | none => return left
    | some op =>
      let right ← operand
      readOperatorTail level operand bound (level.combine left op right)

/-- An expression of binary operators: `tighter ( op tighter )*` on every level. -/
def readOperators (bound : Nat) (operand : Read (Expr Site)) :
    List OperatorLevel → Read (Expr Site)
  | [] => operand
  | level :: tighter => do
    let left ← readOperators bound operand tighter
    readOperatorTail level (readOperators bound operand tighter) bound left

/-- An assignment, which associates to the right.  Its target is read as an expression first and
has to be a name or a property access. -/
def readAssignment (bound : Nat) (expression : Read (Expr Site))
    (declaration : Read (Stmt Site)) : Read (Expr Site) := do
  let operand := do
    readChain expression bound (← readPrimary bound expression declaration)
  let target ← readOperators bound (readUnary operand bound) operatorLevels
  match ← take? .equal with
  | none => return target
  | some equals =>
    let value ← expression
    match target with
    | .variable ref => return .assign ref value
    | .get object name => return .set object name value
    | _ => failAt equals .invalidTarget

/-! ## Statements -/

/-- An expression statement: `expression ";"`. -/
def readExpressionStatement (expression : Read (Expr Site)) : Read (Stmt Site) := do
  let e ← expression
  let _ ← expect .semicolon .afterExpression
  return .expression e

/-- A variable declaration after its keyword: `name ( "=" expression )? ";"`. -/
def readVariable (expression : Read (Expr Site)) : Read (Stmt Site) := do
  let name ← expectName .newVariable
  let init ← match ← take? .equal with
    | some _ => some <$> expression
    | none => pure none
  let _ ← expect .semicolon .afterVariableDeclaration
  return .var name init

/-- A print statement after its keyword. -/
def readPrint (expression : Read (Expr Site)) : Read (Stmt Site) := do
  let e ← expression
  let _ ← expect .semicolon .afterValue
  return .print e

/-- A conditional after its keyword; `else` belongs to the nearest `if`. -/
def readIf (expression : Read (Expr Site)) (statement : Read (Stmt Site)) : Read (Stmt Site) := do
  let _ ← expect .leftParen (.afterWord "if")
  let condition ← expression
  let _ ← expect .rightParen .afterIfCondition
  let thenBranch ← statement
  match ← take? .elseWord with
  | some _ => return .ifElse condition thenBranch (some (← statement))
  | none => return .ifElse condition thenBranch none

/-- A `while` loop after its keyword. -/
def readWhile (expression : Read (Expr Site)) (statement : Read (Stmt Site)) :
    Read (Stmt Site) := do
  let _ ← expect .leftParen (.afterWord "while")
  let condition ← expression
  let _ ← expect .rightParen .afterWhileCondition
  return .whileLoop condition (← statement)

/-- An expression, unless the mark that ends its place follows at once. -/
def readUnless (mark : Kind) (expression : Read (Expr Site)) : Read (Option (Expr Site)) := do
  if ← isAt mark then return none
  some <$> expression

/-- A `for` loop after its keyword:
`"(" ( variable | expression ";" | ";" ) expression? ";" expression? ")" statement`. -/
def readFor (expression : Read (Expr Site)) (statement : Read (Stmt Site)) : Read (Stmt Site) := do
  let _ ← expect .leftParen (.afterWord "for")
  let init ← match ← takeIf fun k => k == .semicolon || k == .varWord with
    | none => some <$> readExpressionStatement expression
    | some t => if t.kind = .varWord then some <$> readVariable expression else pure none
  let condition ← readUnless .semicolon expression
  let _ ← expect .semicolon .afterLoopCondition
  let increment ← readUnless .rightParen expression
  let _ ← expect .rightParen .afterForClauses
  let body ← statement
  withSites (forLoop init condition increment body)

/-- A return statement after its keyword. -/
def readReturn (expression : Read (Expr Site)) (keyword : Token) : Read (Stmt Site) := do
  let value ← readUnless .semicolon expression
  let _ ← expect .semicolon .afterReturnValue
  return .ret keyword value

/-- A `break` or `continue` after its keyword. -/
def readLoopExit (keyword : Token) : Read (Stmt Site) := do
  let _ ← expect .semicolon (.afterWord keyword.lexeme)
  return .loopExit keyword

/-- The tokens that a statement other than an expression statement begins with. -/
def beginsStatementForm : Kind → Bool
  | .ifWord | .printWord | .whileWord | .forWord | .returnWord | .leftBrace | .breakWord
  | .continueWord => true
  | _ => false

/-- A statement; declarations are not among them. -/
def readStatementForm (bound : Nat) (expression : Read (Expr Site))
    (statement declaration : Read (Stmt Site)) : Read (Stmt Site) := do
  match ← takeIf beginsStatementForm with
  | none => readExpressionStatement expression
  | some t =>
    match t.kind with
    | .ifWord => readIf expression statement
    | .printWord => readPrint expression
    | .whileWord => readWhile expression statement
    | .forWord => readFor expression statement
    | .returnWord => readReturn expression t
    | .leftBrace => return .block (← readBody bound declaration)
    | _ => readLoopExit t

/-! ## Declarations -/

/-- The methods and the static methods of a class, up to the closing brace or the end. -/
def readMembers (method : RoutineRole → Read (Routine Site)) :
    Nat → Read (List (Routine Site) × List (Routine Site))
  | 0 => outOfBound
  | bound + 1 => do
    if (← isAt .rightBrace) || (← isAtEnd) then return ([], [])
    match ← take? .classWord with
    | some _ => do
      let first ← method .staticMethod
      let (methods, statics) ← readMembers method bound
      return (methods, first :: statics)
    | none => do
      let first ← method .method
      let (methods, statics) ← readMembers method bound
      return (first :: methods, statics)

/-- A class declaration after its keyword:
`name ( "<" name )? ( "<=" name ( "," name )* )? "{" ( "class"? routine )* "}"`. -/
def readClass (bound : Nat) (declaration : Read (Stmt Site)) : Read (Stmt Site) := do
  let name ← expectName .classItself
  let superclass ← match ← take? .less with
    | some _ => do
      let ref ← newReference (← expectName .superclass)
      pure (some ref)
    | none => pure none
  let mixins ← match ← take? .lessEqual with
    | some _ => readMixins bound
    | none => pure []
  let _ ← expect .leftBrace .beforeClassBody
  let (methods, statics) ← readMembers (readRoutine bound declaration) bound
  let _ ← expect .rightBrace .afterClassBody
  return .classDecl name superclass mixins methods statics

/-- A declaration that begins with `fun`: a function, or an expression statement that consists of a
routine without a name. -/
def readFunction (bound : Nat) (declaration : Read (Stmt Site)) (keyword : Token) :
    Read (Stmt Site) := do
  if ← isAt .identifier then
    return .function (← readRoutine bound declaration .function)
  readExpressionStatement (readAnonymous bound declaration keyword)

/-- The tokens that a declaration other than a statement begins with. -/
def beginsDeclarationForm : Kind → Bool
  | .classWord | .funWord | .varWord => true
  | _ => false

/-- A declaration or a statement. -/
def readDeclarationForm (bound : Nat) (expression : Read (Expr Site))
    (statement declaration : Read (Stmt Site)) : Read (Stmt Site) := do
  match ← takeIf beginsDeclarationForm with
  | none => statement
  | some t =>
    match t.kind with
    | .classWord => readClass bound declaration
    | .funWord => readFunction bound declaration t
    | _ => readVariable expression

/-! ## Tying the knot -/

mutual

/-- Reads an expression. -/
def readExpression : Nat → Read (Expr Site)
  | 0 => outOfBound
  | bound + 1 => readAssignment bound (readExpression bound) (readDeclaration bound)

/-- Reads a statement. -/
def readStatement : Nat → Read (Stmt Site)
  | 0 => outOfBound
  | bound + 1 =>
    readStatementForm bound (readExpression bound) (readStatement bound) (readDeclaration bound)

/-- Reads a declaration or a statement; a faulty one is missing. -/
def readDeclaration : Nat → Read (Stmt Site)
  | 0 => outOfBound
  | bound + 1 =>
    recovering
      (readDeclarationForm bound (readExpression bound) (readStatement bound)
        (readDeclaration bound))

end

/-- Reads declarations up to the end. -/
def readDeclarations (declaration : Read (Stmt Site)) : Nat → Read Program
  | 0 => outOfBound
  | bound + 1 => do
    if ← isAtEnd then return []
    let first ← declaration
    return first :: (← readDeclarations declaration bound)

/-! ## Whole texts -/

/-- A bound on nesting that a text of so many tokens cannot exceed: between two levels of nesting of
the same sort a token is consumed, and there are three sorts. -/
def nestingBound (tokens : List Token) : Nat := 3 * tokens.length + 3

/-- What reading a text yields. -/
structure Reading (α : Type) where
  result : α
  diagnostics : List Diagnostic
  /-- The token before which reading stopped. -/
  next : Token
  /-- The least site that no reference has yet. -/
  nextSite : Site

/-- Runs a reader on tokens; `default` stands in for a result that it gave up on. -/
def Reading.run {α : Type} (read : Read α) (default : α) (tokens : List Token) (endLine : Nat)
    (firstSite : Site) : Reading α :=
  let (result, cursor) := (read.run).run ⟨tokens, endLine, firstSite, []⟩
  ⟨result.toOption.getD default, cursor.diagnostics, cursor.next, cursor.nextSite⟩

/-- Reads a program; its references get sites from the given one on. -/
def Program.ofTokens (tokens : List Token) (endLine : Nat) (firstSite : Site) : Reading Program :=
  Reading.run (readDeclarations (readDeclaration (nestingBound tokens)) (nestingBound tokens)) []
    tokens endLine firstSite

/-- Reads a single expression from the beginning of a text; nothing if it is faulty. -/
def readExpressionAlone (tokens : List Token) (endLine : Nat) : Reading (Option (Expr Site)) :=
  Reading.run (some <$> readExpression (nestingBound tokens)) none tokens endLine 0

end LoxLang
