/-
LoxLang.Machine.Eval: running programs.

`eval` and `exec` walk over a tree whose references carry their distances.  Both are bounded: the
first bound counts how deeply expressions and statements may nest, through calls as well, and the
second how many turns one loop may take.

* A run that nests too deeply overflows.  The innermost call in progress turns that into a failure
  of the program; it is the only place that catches anything.
* Statements end with a `Completion`.  A `return` travels up to the call of its closure, `break` and
  `continue` travel up to the innermost loop of the same routine, and fail at the routine's end.

The rules for the parts take the evaluator as an argument; `eval` and `exec` tie the knot.

* `runAll`, `iterate`: sequences and loops.
* `callClosure`, `invoke`: calls.
* `withSuperclass`, `makeClass`, `declareClass`: class declarations.
* `evalForm`, `execForm`: one level of expressions and statements.
* `runProgram`: top-level code.
-/
import LoxLang.Machine.Basic
import LoxLang.Machine.Operators

namespace LoxLang

/-- How a statement ends. -/
inductive Completion where
  | normal
  | returned (v : Value)
  /-- By a `break` or a `continue`. -/
  | exited (keyword : Token)

/-- The bounds of a run. -/
structure Bounds where
  /-- How deeply expressions and statements may nest. -/
  nesting : Nat
  /-- How many turns one loop may take. -/
  turns : Nat

/-! ## Sequences and loops -/

/-- Evaluates expressions in order. -/
def evalAll (eval : Expr Distance → Run Value) : List (Expr Distance) → Run (List Value)
  | [] => return []
  | e :: es => do
    let v ← eval e
    return v :: (← evalAll eval es)

/-- Executes statements in order, up to the first that does not end normally. -/
def runAll (exec : Stmt Distance → Run Completion) : List (Stmt Distance) → Run Completion
  | [] => return .normal
  | s :: ss => do
    match ← exec s with
    | .normal => runAll exec ss
    | completion => return completion

/-- Executes a list of statements in a frame of its own. -/
def runBlock (exec : Stmt Distance → Run Completion) (body : List (Stmt Distance)) :
    Run Completion := do
  let env ← newFrame (← get).environment
  inEnvironment env (runAll exec body)

/-- Runs a loop for at most so many turns. -/
def iterate (condition : Run Value) (body : Run Completion) : Nat → Run Completion
  | 0 => throw .unfinished
  | turns + 1 => do
    if !(← condition).isTruthy then return .normal
    match ← body with
    | .returned v => return .returned v
    | .exited keyword =>
      if keyword.isBreak then return .normal
      else iterate condition body turns
    | .normal => iterate condition body turns

/-! ## Calls -/

/-- The failure of a `break` or `continue` that leaves its routine. -/
def strayExit (keyword : Token) : Failure :=
  .runtime (some keyword) (.strayLoopExit keyword.lexeme)

/-- Opens a frame for a call of a closure, which holds the arguments. -/
def openCall (f : Closure) (arguments : List Value) : Run Environment := do
  let env ← newFrame f.environment
  (f.params.zip arguments).forM fun (param, v) => defineIn env param.lexeme v
  return env

/-- Calls a closure: its body runs in a new frame that holds the arguments.  An initializer yields
the object that it is bound to. -/
def callClosure (exec : Stmt Distance → Run Completion) (f : Closure) (arguments : List Value) :
    Run Value := do
  let env ← openCall f arguments
  let completion ← inEnvironment env (runAll exec f.body)
  match completion with
  | .exited keyword => throw (strayExit keyword)
  | .returned v => if f.kind = .initializer then boundObject f else return v
  | .normal => if f.kind = .initializer then boundObject f else return .nil
where
  /-- The object that a method is bound to. -/
  boundObject (f : Closure) : Run Value := do
    orFail ((← get).store.readAt f.environment 0 thisName none)

/-- Makes an instance of a class and passes it through the initializer, if there is one. -/
def instantiate (exec : Stmt Distance → Run Completion) (c : Class) (arguments : List Value) :
    Run Value := do
  let o : Value := .instance ⟨← newObject, c⟩
  match c.findMethod initName with
  | none => return o
  | some method => do
    let init ← bindMethod method o
    let _ ← callClosure exec init arguments
    return o

/-- The number of arguments that a value takes when it is called; nothing if it cannot be. -/
def Value.arity? : Value → Option Nat
  | .function f => some f.arity
  | .clock => some 0
  | .class c => some c.arity
  | _ => none

/-- The value can be called with that many arguments; the closing parenthesis is blamed if not. -/
def checkCall (paren : Token) (callee : Value) (given : Nat) : Except Failure Unit :=
  match callee.arity? with
  | none => .error (.runtime (some paren) .notCallable)
  | some expected =>
    if given = expected then .ok ()
    else .error (.runtime (some paren) (.wrongArgumentCount expected given))

/-- Calls a value that can be called. -/
def invoke (exec : Stmt Distance → Run Completion) (callee : Value) (arguments : List Value) :
    Run Value :=
  match callee with
  | .function f => callClosure exec f arguments
  | .class c => instantiate exec c arguments
  | .clock => readClock
  | _ => return .nil

/-- Turns an overflow into a failure of the program at a token. -/
def catchOverflow {α : Type} (token : Option Token) (act : Run α) : Run α :=
  tryCatch act fun
    | .overflow => throw (.runtime token .stackOverflow)
    | failure => throw failure

/-- A getter is called as soon as it is read; any other property is the value itself. -/
def callIfGetter (exec : Stmt Distance → Run Completion) (v : Value) : Run Value :=
  match v with
  | .function f => if f.kind = .getter then callClosure exec f [] else return v
  | _ => return v

/-! ## Classes -/

/-- What a method is called for. -/
def methodKind (r : Routine Distance) : ClosureKind :=
  if r.getter then .getter else if r.name.lexeme = initName then .initializer else .plain

/-- What a static method is called for; none of them is an initializer. -/
def staticKind (r : Routine Distance) : ClosureKind := if r.getter then .getter else .plain

/-- The closures of the routines of a class; of two with one name the later one counts. -/
def newMethods (kind : Routine Distance → ClosureKind) (env : Environment) :
    List (Routine Distance) → List (String × Closure) → Run (List (String × Closure))
  | [], methods => return methods
  | r :: rs, methods => do
    let f ← newClosure (some r.name) r.params r.body env (kind r)
    newMethods kind env rs (putEntry r.name.lexeme f methods)

/-- The class that a reference to a parent means. -/
def readParent (fault : RuntimeFault) (ref : Reference Distance) : Run Class := do
  match ← readRef ref with
  | .class c => return c
  | _ => throw (.runtime (some ref.token) fault)

/-- The classes that references to mixins mean. -/
def readMixinClasses : List (Reference Distance) → Run (List Class)
  | [] => return []
  | ref :: refs => do
    let c ← readParent .mixinNotClass ref
    return c :: (← readMixinClasses refs)

/-- The class that a reference to a superclass means, if there is one. -/
def readSuperclass : Option (Reference Distance) → Run (Option Class)
  | none => return none
  | some ref => some <$> readParent .superclassNotClass ref

/-- Runs something in a frame of its own that holds the superclass, if there is one.  The way back
leads through the link of this frame, however that ends. -/
def withSuperclass {α : Type} (superclass : Option Class) (act : Run α) : Run α :=
  match superclass with
  | none => act
  | some c => do
    enterFrame
    defineHere superName (.class c)
    leaveAfter act

/-- What needs one level more overflows if no level is left. -/
def needLevel (left : Nat) : Run Unit := if left = 0 then throw .overflow else return ()

/-- The closures of the methods and of the static methods of a class over the current
environment. -/
def makeMembers (left : Nat) (methods statics : List (Routine Distance)) :
    Run (List (String × Closure) × List (String × Closure)) := do
  let env := (← get).environment
  needLevel left
  let methods ← newMethods methodKind env methods []
  let statics ← newMethods staticKind env statics []
  return (methods, statics)

/-- Makes a class whose parents are known, with the closures of its methods. -/
def makeClass (left : Nat) (name : Token) (superclass : Option Class) (mixins : List Class)
    (methods statics : List (Routine Distance)) : Run Class := do
  let (methods, statics) ← withSuperclass superclass (makeMembers left methods statics)
  let metaId ← newObject
  let id ← newObject
  return .build id metaId name.lexeme superclass mixins methods statics

/-- Declares a class.  Its name has no value while its methods are collected. -/
def declareClass (left : Nat) (name : Token) (superclass : Option (Reference Distance))
    (mixins : List (Reference Distance)) (methods statics : List (Routine Distance)) :
    Run Unit := do
  let superclass ← readSuperclass superclass
  let mixins ← readMixinClasses mixins
  declareHere name.lexeme
  let c ← makeClass left name superclass mixins methods statics
  defineHere name.lexeme (.class c)

/-! ## Expressions and statements -/

/-- Evaluates an expression, given how its parts are evaluated and executed. -/
def evalForm (eval : Expr Distance → Run Value) (exec : Stmt Distance → Run Completion) :
    Expr Distance → Run Value
  | .literal v => return v.value
  | .grouping e => eval e
  | .unary op e => do
    orFail (applyUnary op (← eval e))
  | .binary l op r => do
    let left ← eval l
    let right ← eval r
    orFail (applyBinary left op right)
  | .logical l op r => do
    let left ← eval l
    if settles op left then return left
    else eval r
  | .variable ref => readRef ref
  | .assign ref e => do
    let v ← eval e
    writeRef ref v
    return v
  | .call f paren es => do
    let callee ← eval f
    let arguments ← evalAll eval es
    orFail (checkCall paren callee arguments.length)
    catchOverflow (some paren) (invoke exec callee arguments)
  | .get e name => do
    let v ← eval e
    match v.receiver? with
    | none => throw (.runtime (some name) .propertyOfNoInstance)
    | some r => callIfGetter exec (← readProperty v r name)
  | .set e name value => do
    match (← eval e).receiver? with
    | none => throw (.runtime (some name) .fieldOfNoInstance)
    | some r =>
      let v ← eval value
      writeField r.id name.lexeme v
      return v
  | .this ref => readRef ref
  | .super ref method => readSuper ref method
  | .function _ params body => do
    return .function (← newClosure none params body (← get).environment .plain)

/-- Executes a statement, given how many levels are left below it and how its parts are evaluated
and executed. -/
def execForm (turns left : Nat) (eval : Expr Distance → Run Value)
    (exec : Stmt Distance → Run Completion) : Stmt Distance → Run Completion
  | .missing => return .normal
  | .expression e => do
    let _ ← eval e
    return .normal
  | .print e => do
    printLine (← eval e).text
    return .normal
  | .var name none => do
    declareHere name.lexeme
    return .normal
  | .var name (some e) => do
    defineHere name.lexeme (← eval e)
    return .normal
  | .block body => runBlock exec body
  | .ifElse c t e => do
    if (← eval c).isTruthy then exec t
    else
      match e with
      | none => return .normal
      | some e => exec e
  | .whileLoop c b => iterate (eval c) (exec b) turns
  | .ret _ none => return .returned .nil
  | .ret _ (some e) => do
    return .returned (← eval e)
  | .loopExit keyword => return .exited keyword
  | .function r => do
    let f ← newClosure (some r.name) r.params r.body (← get).environment .plain
    defineHere r.name.lexeme (.function f)
    return .normal
  | .classDecl name superclass mixins methods statics => do
    declareClass left name superclass mixins methods statics
    return .normal

/-! ## Tying the knot -/

mutual

/-- Evaluates an expression. -/
def eval (turns : Nat) : Nat → Expr Distance → Run Value
  | 0, _ => throw .overflow
  | n + 1, e => evalForm (eval turns n) (exec turns n) e

/-- Executes a statement. -/
def exec (turns : Nat) : Nat → Stmt Distance → Run Completion
  | 0, _ => throw .overflow
  | n + 1, s => execForm turns n (eval turns n) (exec turns n) s

end

/-! ## Top-level code -/

/-- Executes top-level statements.  A `return` ends only its own statement there, and a `break` or
`continue` outside every loop fails. -/
def runStatements (exec : Stmt Distance → Run Completion) : List (Stmt Distance) → Run Unit
  | [] => return
  | s :: ss => do
    match ← exec s with
    | .exited keyword => throw (strayExit keyword)
    | _ => runStatements exec ss

/-- Runs a program.  An overflow outside of every call is blamed on no token. -/
def runProgram (bounds : Bounds) (program : List (Stmt Distance)) : Run Unit :=
  catchOverflow none (runStatements (exec bounds.turns bounds.nesting) program)

/-- Evaluates a single expression. -/
def runExpression (bounds : Bounds) (e : Expr Distance) : Run Value :=
  catchOverflow none (eval bounds.turns bounds.nesting e)

end LoxLang
