/-
LoxLang.Proofs.Tree.Desugars: the statement that a `for` loop stands for.

A `for` loop is a `while` loop, in a block behind the first part of its header if there is one.  Its
body ends with the increment, which also stands in front of every `continue` that belongs to the
loop; such a `continue` is reached through blocks and the branches of `if` statements alone, so that
loops and routines inside keep their own.  A copy of the increment is the same expression with sites
of its own.

The relations here say so without an order of work; the reader's own `forLoop` is the function that
they describe.

* `Injects`: a statement with copies of the increment.
* `Turn`, `Test`, `Header`: what runs in every turn, what decides on it, and what stands around.
* `Loops`: the whole construct.

Main statement: `loops_iff`.
-/
import LoxLang.Tree.ForLoop

namespace LoxLang

/-! ## Loops as relations -/

/-- The statements through which a `continue` inside belongs to the loop around. -/
def Stmt.handsOn {ρ : Type} : Stmt ρ → Bool
  | .block _ | .loopExit _ | .ifElse .. => true
  | _ => false

mutual

/-- The second statement is the first one with a copy of the increment in front of every `continue`
that belongs to the loop around.  The sites of the copies count on from the first number. -/
inductive Injects (increment : Expr Site) : Site → Stmt Site → Stmt Site → Site → Prop
  | goesOn {keyword : Token} {n : Site} (h : keyword.isBreak = false) :
    Injects increment n (.loopExit keyword)
      (.block [.expression (increment.number n).1, .loopExit keyword]) (increment.number n).2
  | leaves {keyword : Token} {n : Site} (h : keyword.isBreak = true) :
    Injects increment n (.loopExit keyword) (.loopExit keyword) n
  | block {body body' : List (Stmt Site)} {n n' : Site} (h : InjectsAll increment n body body' n') :
    Injects increment n (.block body) (.block body') n'
  | ifThen {c : Expr Site} {t t' : Stmt Site} {n n' : Site} (h : Injects increment n t t' n') :
    Injects increment n (.ifElse c t none) (.ifElse c t' none) n'
  | ifElse {c : Expr Site} {t t' e e' : Stmt Site} {n n' n'' : Site}
      (h : Injects increment n t t' n') (h' : Injects increment n' e e' n'') :
    Injects increment n (.ifElse c t (some e)) (.ifElse c t' (some e')) n''
  | keeps {s : Stmt Site} {n : Site} (h : s.handsOn = false) : Injects increment n s s n

/-- The same for statements in order. -/
inductive InjectsAll (increment : Expr Site) :
    Site → List (Stmt Site) → List (Stmt Site) → Site → Prop
  | nil {n : Site} : InjectsAll increment n [] [] n
  | cons {s s' : Stmt Site} {ss ss' : List (Stmt Site)} {n n' n'' : Site}
      (first : Injects increment n s s' n') (rest : InjectsAll increment n' ss ss' n'') :
    InjectsAll increment n (s :: ss) (s' :: ss') n''

end

/-- What runs in every turn of a loop: the body, and then the increment if there is one. -/
inductive Turn : Option (Expr Site) → Site → Stmt Site → Stmt Site → Site → Prop
  | plain {s : Stmt Site} {n : Site} : Turn none n s s n
  | counted {e : Expr Site} {s s' : Stmt Site} {n n' : Site} (h : Injects e n s s' n') :
    Turn (some e) n s (.block [s', .expression e]) n'

/-- What decides whether there is another turn; without a condition there always is one. -/
inductive Test : Option (Expr Site) → Expr Site → Prop
  | always : Test none (.literal (.bool true))
  | given {c : Expr Site} : Test (some c) c

/-- What stands around the loop: nothing, or a block that begins with the first part of the
header. -/
inductive Header : Option (Stmt Site) → Stmt Site → Stmt Site → Prop
  | none {loop : Stmt Site} : Header none loop loop
  | some {s loop : Stmt Site} : Header (some s) loop (.block [s, loop])

/-- The statement that a `for` loop stands for. -/
inductive Loops (init : Option (Stmt Site)) (condition increment : Option (Expr Site))
    (body : Stmt Site) : Site → Stmt Site → Site → Prop
  | intro {c : Expr Site} {s loop : Stmt Site} {n n' : Site} (test : Test condition c)
      (turn : Turn increment n body s n') (header : Header init (.whileLoop c s) loop) :
    Loops init condition increment body n loop n'

/-! ## The function that they describe -/

variable {increment : Expr Site}

mutual

theorem injects_withIncrement (s : Stmt Site) (n : Site) :
    Injects increment n s (s.withIncrement increment n).1 (s.withIncrement increment n).2 := by
  match s with
  | .block body => exact .block (injects_withIncrementAll body n)
  | .loopExit keyword =>
    rw [Stmt.withIncrement]
    cases h : keyword.isBreak with
    | true => exact .leaves h
    | false => exact .goesOn h
  | .ifElse c t none => exact .ifThen (injects_withIncrement t n)
  | .ifElse c t (some e) =>
    exact .ifElse (injects_withIncrement t n) (injects_withIncrement e _)
  | .missing | .expression _ | .print _ | .var _ _ | .whileLoop _ _ | .ret _ _ | .function _
  | .classDecl _ _ _ _ _ => exact .keeps rfl

theorem injects_withIncrementAll (ss : List (Stmt Site)) (n : Site) :
    InjectsAll increment n ss (Stmt.withIncrementAll increment ss n).1
      (Stmt.withIncrementAll increment ss n).2 := by
  match ss with
  | [] => exact .nil
  | s :: ss => exact .cons (injects_withIncrement s n) (injects_withIncrementAll ss _)

end

mutual

/-- There is no other way to put the copies in. -/
theorem withIncrement_eq : ∀ (s : Stmt Site) {s' : Stmt Site} {n n' : Site},
    Injects increment n s s' n' → s.withIncrement increment n = (s', n')
  | .block body, _, _, _, h => by
    cases h with
    | block h =>
      show (fun r => (Stmt.block r.1, r.2)) (Stmt.withIncrementAll increment body _) = _
      rw [withIncrementAll_eq body h]
    | keeps h => cases h
  | .loopExit keyword, _, _, _, h => by
    cases h with
    | goesOn h =>
      rw [Stmt.withIncrement, h]
      rfl
    | leaves h =>
      rw [Stmt.withIncrement, h]
      rfl
    | keeps h => cases h
  | .ifElse c t none, _, _, _, h => by
    cases h with
    | ifThen h =>
      show (fun r => (Stmt.ifElse c r.1 none, r.2)) (Stmt.withIncrement increment t _) = _
      rw [withIncrement_eq t h]
    | keeps h => cases h
  | .ifElse c t (some e), _, _, _, h => by
    cases h with
    | ifElse h h' =>
      show (fun r => (fun r' => (Stmt.ifElse c r.1 (some r'.1), r'.2))
        (Stmt.withIncrement increment e r.2)) (Stmt.withIncrement increment t _) = _
      rw [withIncrement_eq t h]
      show (fun r => (Stmt.ifElse c _ (some r.1), r.2)) (Stmt.withIncrement increment e _) = _
      rw [withIncrement_eq e h']
    | keeps h => cases h
  | .missing, _, _, _, h | .expression _, _, _, _, h | .print _, _, _, _, h
  | .var _ _, _, _, _, h | .whileLoop _ _, _, _, _, h | .ret _ _, _, _, _, h
  | .function _, _, _, _, h | .classDecl .., _, _, _, h => by
    cases h
    rfl

theorem withIncrementAll_eq : ∀ (ss : List (Stmt Site)) {ss' : List (Stmt Site)} {n n' : Site},
    InjectsAll increment n ss ss' n' → Stmt.withIncrementAll increment ss n = (ss', n')
  | [], _, _, _, h => by
    cases h
    rfl
  | s :: ss, _, _, _, h => by
    cases h with
    | cons first rest =>
      show (fun r => (fun r' => (r.1 :: r'.1, r'.2)) (Stmt.withIncrementAll increment ss r.2))
        (s.withIncrement increment _) = _
      rw [withIncrement_eq s first]
      show (fun r => (_ :: r.1, r.2)) (Stmt.withIncrementAll increment ss _) = _
      rw [withIncrementAll_eq ss rest]

end

/-- What runs in every turn is what the reader puts together. -/
theorem Turn.eq {increment : Option (Expr Site)} {s s' : Stmt Site} {n n' : Site}
    (h : Turn increment n s s' n') : loopBody increment s n = (s', n') := by
  cases h with
  | plain => rfl
  | @counted e _ _ _ _ h =>
    show (fun r => (Stmt.block [r.1, .expression e], r.2)) (s.withIncrement e n) = _
    rw [withIncrement_eq s h]

theorem turn_loopBody (increment : Option (Expr Site)) (s : Stmt Site) (n : Site) :
    Turn increment n s (loopBody increment s n).1 (loopBody increment s n).2 := by
  cases increment with
  | none => exact .plain
  | some e => exact .counted (injects_withIncrement s n)

theorem Test.eq {condition : Option (Expr Site)} {c : Expr Site} (h : Test condition c) :
    condition.getD (.literal (.bool true)) = c := by
  cases h <;> rfl

theorem test_getD (condition : Option (Expr Site)) :
    Test condition (condition.getD (.literal (.bool true))) := by
  cases condition with
  | none => exact .always
  | some c => exact .given

/-- A `for` loop stands for what the reader makes of it, and for nothing else. -/
theorem loops_iff {init : Option (Stmt Site)} {condition increment : Option (Expr Site)}
    {body loop : Stmt Site} {n n' : Site} :
    Loops init condition increment body n loop n' ↔
      forLoop init condition increment body n = (loop, n') := by
  constructor
  · rintro ⟨test, turn, header⟩
    cases header with
    | none =>
      show (fun r => (Stmt.whileLoop (condition.getD (.literal (.bool true))) r.1, r.2))
        (loopBody increment body n) = _
      rw [turn.eq, test.eq]
    | @some s =>
      show (fun r => (Stmt.block [s, .whileLoop (condition.getD (.literal (.bool true))) r.1], r.2))
        (loopBody increment body n) = _
      rw [turn.eq, test.eq]
  · intro h
    have turn := turn_loopBody increment body n
    have whole : Loops init condition increment body n
        (forLoop init condition increment body n).1
          (forLoop init condition increment body n).2 := by
      cases init with
      | none => exact .intro (test_getD condition) turn .none
      | some s => exact .intro (test_getD condition) turn .some
    rwa [h] at whole

end LoxLang
