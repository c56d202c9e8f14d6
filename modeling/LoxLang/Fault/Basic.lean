/-
LoxLang.Fault.Basic: what can be wrong with a program.

Every complaint is a cause first and a text second.  The causes are grouped by the stage that finds
them; each group has one `message` function, and nothing else in the library words a complaint.

* `LexicalFault`: characters that form no token.
* `SyntaxFault`: tokens that form no program.
* `BindingFault`: programs that use names, `this`, `super` or `return` where they may not.
* `RuntimeFault`: operations that fail while a program runs.
* `InternalFault`: a name, scope or class that the static rules promise and that is not there.
-/
import LoxLang.Token.Basic

namespace LoxLang

/-! ## Characters -/

/-- A fault of the characters of a text. -/
inductive LexicalFault where
  | unexpectedCharacter (c : Char)
  | unterminatedString
  deriving DecidableEq, Repr

/-- The wording of a lexical fault. -/
def LexicalFault.message : LexicalFault → String
  | unexpectedCharacter c => "Unexpected character '" ++ c.toString ++ "'."
  | unterminatedString => "Unterminated string."

/-! ## Tokens -/

/-- What a named routine is declared as. -/
inductive RoutineRole where
  | function | method | staticMethod
  deriving DecidableEq, Repr

/-- The words for a role. -/
def RoutineRole.text : RoutineRole → String
  | function => "function"
  | method => "method"
  | staticMethod => "static method"

/-- What a missing identifier would have named. -/
inductive NameRole where
  | classItself | superclass | mixin | routine (role : RoutineRole) | parameter | newVariable
  | property | superMethod
  deriving DecidableEq, Repr

/-- The words for what is missing. -/
def NameRole.text : NameRole → String
  | classItself => "class name"
  | superclass => "superclass name"
  | mixin => "mixin name"
  | routine role => role.text ++ " name"
  | parameter => "parameter name"
  | newVariable => "variable name"
  | property => "property name after '.'"
  | superMethod => "superclass method name"

/-- The marks that the grammar asks for by themselves. -/
inductive Mark where
  | semicolon | leftParen | rightParen | leftBrace | rightBrace | dot
  deriving DecidableEq, Repr

/-- The kind of a mark's token. -/
def Mark.kind : Mark → Kind
  | semicolon => .semicolon
  | leftParen => .leftParen
  | rightParen => .rightParen
  | leftBrace => .leftBrace
  | rightBrace => .rightBrace
  | dot => .dot

/-- How a mark is written. -/
def Mark.text : Mark → String
  | semicolon => ";"
  | leftParen => "("
  | rightParen => ")"
  | leftBrace => "\x7b"
  | rightBrace => "\x7d"
  | dot => "."

/-- The place in a construct where a mark has to stand. -/
inductive Gap where
  | beforeClassBody | afterClassBody | afterExpression | afterParameters
  | afterRoutineName (role : RoutineRole) | beforeRoutineBody (role : RoutineRole)
  | afterVariableDeclaration | afterValue | afterBlock | afterReturnValue | afterIfCondition
  | afterWhileCondition | afterLoopCondition | afterForClauses | afterArguments
  | afterWord (word : String)
  deriving DecidableEq, Repr

/-- The words for a place. -/
def Gap.text : Gap → String
  | beforeClassBody => "before class body"
  | afterClassBody => "after class body"
  | afterExpression => "after expression"
  | afterParameters => "after parameters"
  | afterRoutineName role => "after " ++ role.text ++ " name"
  | beforeRoutineBody role => "before " ++ role.text ++ " body"
  | afterVariableDeclaration => "after variable declaration"
  | afterValue => "after value"
  | afterBlock => "after block"
  | afterReturnValue => "after return value"
  | afterIfCondition => "after if condition"
  | afterWhileCondition => "after while condition"
  | afterLoopCondition => "after loop condition"
  | afterForClauses => "after for clauses"
  | afterArguments => "after arguments"
  | afterWord word => "after '" ++ word ++ "'"

/-- The most parameters or arguments that a list may have. -/
def maxListed : Nat := 255

/-- A fault of the tokens of a text. -/
inductive SyntaxFault where
  | missingName (role : NameRole)
  | missingMark (mark : Mark) (gap : Gap)
  | missingExpression
  | invalidTarget
  | tooManyParameters
  | tooManyArguments
  deriving DecidableEq, Repr

/-- The wording of a syntax fault. -/
def SyntaxFault.message : SyntaxFault → String
  | missingName role => "Expect " ++ role.text ++ "."
  | missingMark mark gap => "Expect '" ++ mark.text ++ "' " ++ gap.text ++ "."
  | missingExpression => "Expect expression."
  | invalidTarget => "Invalid assignment target."
  | tooManyParameters => "Can't have more than " ++ toString maxListed ++ " parameters."
  | tooManyArguments => "Can't have more than " ++ toString maxListed ++ " arguments."

/-! ## Names -/

/-- A violation of the static rules on names. -/
inductive BindingFault where
  | ownInitializer
  | redeclared
  | unused (name : String)
  | returnAtTopLevel
  | returnFromInitializer
  | thisOutsideClass
  | superOutsideClass
  | superWithoutSuperclass
  | getterOutsideClass
  | initializerAsGetter
  | inheritsItself
  | mixesInItself
  deriving DecidableEq, Repr

/-- The wording of a binding fault. -/
def BindingFault.message : BindingFault → String
  | ownInitializer => "Can't read local variable in its own initializer."
  | redeclared => "Already a variable with this name in this scope."
  | unused name => "Unused variable '" ++ name ++ "'."
  | returnAtTopLevel => "Can't return from top-level code."
  | returnFromInitializer => "Can't return a value from an initializer."
  | thisOutsideClass => "Can't use 'this' outside of a class."
  | superOutsideClass => "Can't use 'super' outside of a class."
  | superWithoutSuperclass => "Can't use 'super' in a class with no superclass."
  | getterOutsideClass => "Getters can only be defined inside a class."
  | initializerAsGetter => "The initializer cannot be defined as a getter."
  | inheritsItself => "A class can't inherit from itself."
  | mixesInItself => "A class can't mixin itself."

/-! ## Running programs -/

/-- A failure of a running program. -/
inductive RuntimeFault where
  | uninitialized (name : String)
  | undefinedRead (name : String)
  | undefinedWrite (name : String)
  | operandNotNumber
  | operandsNotNumbers
  | operandsNotAddable
  | divisionByZero
  | notCallable
  | wrongArgumentCount (expected given : Nat)
  | propertyOfNoInstance
  | fieldOfNoInstance
  | undefinedProperty (name : String)
  | superclassNotClass
  | mixinNotClass
  | strayLoopExit (word : String)
  | stackOverflow
  deriving DecidableEq, Repr

/-- The wording of a runtime fault. -/
def RuntimeFault.message : RuntimeFault → String
  | uninitialized name => "Variable '" ++ name ++ "' was used before initialized."
  | undefinedRead name => "Undefined variable '" ++ name ++ "' referenced."
  | undefinedWrite name => "Undefined variable '" ++ name ++ "' assigned to."
  | operandNotNumber => "Operand must be a number."
  | operandsNotNumbers => "Operands must be numbers."
  | operandsNotAddable => "Operands must be two numbers or two strings."
  | divisionByZero => "Cannot divide by zero."
  | notCallable => "Can only call functions and classes."
  | wrongArgumentCount expected given =>
    "Expected " ++ toString expected ++ " arguments but got " ++ toString given ++ "."
  | propertyOfNoInstance => "Only instances have properties."
  | fieldOfNoInstance => "Only instances have fields."
  | undefinedProperty name => "Undefined property '" ++ name ++ "'."
  | superclassNotClass => "Superclass must be a class."
  | mixinNotClass => "Mixin must be a class."
  | strayLoopExit word => "'" ++ word ++ "' encountered outside of loop body."
  | stackOverflow => "Stack overflow."

/-- A broken promise of the static rules. -/
inductive InternalFault where
  | noScope (distance : Nat)
  | missingFromScope (name : String)
  | superNotResolved
  | propertyOfMetaclass (name : String)
  deriving DecidableEq, Repr

/-- The wording of an internal fault. -/
def InternalFault.message : InternalFault → String
  | noScope distance => "No scope " ++ toString distance ++ " levels up."
  | missingFromScope name => "Resolved variable '" ++ name ++ "' is missing from its scope."
  | superNotResolved => "'super' was not resolved."
  | propertyOfMetaclass name => "Metaclass property '" ++ name ++ "' looked up on a metaclass."

end LoxLang
