/-
LoxLang.Proofs.Tree.Postfix: what the postfix form tells of an expression.

Postfix form needs no parentheses as long as every operator shows how many operands it takes.  The
minus sign does not: `-(a - b)` and `a - -b` are both written `a b - -`.  But for that the form
tells the expression, as a stack machine reads it back; and since there is one operand more than
there are operators of two, it cannot matter where the signs of minus all have one operand or all
have two.

* `PostfixSymbol`: a word of the postfix form, with what it stands for.
* `Expr.symbols`, `applied`: the symbols of an expression, and a stack machine that reads them.
* `Expr.IsArithmetic`: finite numbers and variables, put together by operators and groupings.
* `Expr.ungrouped`, `Expr.minusSigns`: an expression without its groupings, and which of its signs
  of minus have two operands.

Main statement: `postfix_tells`.
-/
import LoxLang.Proofs.Number.Told
import LoxLang.Proofs.Tree.Printed
import LoxLang.Tree.Postfix

namespace LoxLang

/-! ## Symbols -/

/-- A symbol of the postfix form: an operand, or an operator and whether it has two operands. -/
inductive PostfixSymbol where
  | operand (e : Expr Unit)
  | operator (two : Bool) (op : Token)

/-- How a symbol is written. -/
def PostfixSymbol.text : PostfixSymbol → String
  | .operand e => e.text
  | .operator _ op => op.lexeme

/-- For the sign of minus, whether it has two operands. -/
def PostfixSymbol.minus? : PostfixSymbol → Option Bool
  | .operand _ => none
  | .operator two op => if op.lexeme = "-" then some two else none

section Expressions

variable {ρ : Type}

/-- The symbols of an expression in postfix order, on line zero; groupings have none. -/
def Expr.symbols : Expr ρ → List PostfixSymbol
  | .grouping e => e.symbols
  | .unary op e => e.symbols ++ [.operator false op.unlined]
  | .binary l op r => l.symbols ++ (r.symbols ++ [.operator true op.unlined])
  | e => [.operand e.unlined]

/-- The expression without its groupings. -/
def Expr.ungrouped : Expr ρ → Expr ρ
  | .grouping e => e.ungrouped
  | .unary op e => .unary op e.ungrouped
  | .binary l op r => .binary l.ungrouped op r.ungrouped
  | e => e

/-- For each sign of minus in postfix order, whether it has two operands. -/
def Expr.minusSigns (e : Expr ρ) : List Bool := e.symbols.filterMap PostfixSymbol.minus?

/-- Finite numbers and variables, put together by operators and groupings. -/
inductive Expr.IsArithmetic : Expr ρ → Prop where
  | number {x : Float} (finite : Number.isFinite x = true) : IsArithmetic (.literal (.number x))
  | name (r : Reference ρ) : IsArithmetic (.variable r)
  | grouping {e : Expr ρ} (inner : e.IsArithmetic) : IsArithmetic (.grouping e)
  | unary {op : Token} {e : Expr ρ} (inner : e.IsArithmetic) : IsArithmetic (.unary op e)
  | binary {l : Expr ρ} {op : Token} {r : Expr ρ} (left : l.IsArithmetic)
    (right : r.IsArithmetic) : IsArithmetic (.binary l op r)

/-- Whether an expression is arithmetic can be decided by its constructors. -/
def Expr.decideArithmetic : (e : Expr ρ) → Decidable e.IsArithmetic
  | .literal (.number x) =>
    decidable_of_iff (Number.isFinite x = true) ⟨.number, fun | .number finite => finite⟩
  | .variable r => .isTrue (.name r)
  | .grouping e =>
    @decidable_of_iff _ e.IsArithmetic ⟨.grouping, fun | .grouping inner => inner⟩
      e.decideArithmetic
  | .unary _ e =>
    @decidable_of_iff _ e.IsArithmetic ⟨.unary, fun | .unary inner => inner⟩ e.decideArithmetic
  | .binary l _ r =>
    @decidable_of_iff _ (l.IsArithmetic ∧ r.IsArithmetic)
      ⟨fun h => .binary h.1 h.2, fun | .binary left right => ⟨left, right⟩⟩
      (@instDecidableAnd _ _ l.decideArithmetic r.decideArithmetic)
  | .literal .nil | .literal (.bool _) | .literal (.string _) | .logical _ _ _ | .assign _ _
  | .call _ _ _ | .get _ _ | .set _ _ _ | .this _ | .super _ _ | .function _ _ _ => .isFalse nofun

instance : DecidablePred (Expr.IsArithmetic (ρ := ρ)) := Expr.decideArithmetic

/-- A stack machine: operands are pushed, and an operator takes its operands off the stack. -/
def applied : List PostfixSymbol → List (Expr Unit) → List (Expr Unit)
  | [], stack => stack
  | .operand e :: rest, stack => applied rest (e :: stack)
  | .operator false op :: rest, e :: stack => applied rest (.unary op e :: stack)
  | .operator true op :: rest, r :: l :: stack => applied rest (.binary l op r :: stack)
  | .operator _ _ :: _, _ => []

variable {e e' : Expr ρ}

/-- The machine reads an expression back and leaves it on the stack. -/
theorem applied_symbols (arithmetic : e.IsArithmetic) (rest : List PostfixSymbol)
    (stack : List (Expr Unit)) :
    applied (e.symbols ++ rest) stack = applied rest (e.ungrouped.unlined :: stack) := by
  induction arithmetic generalizing rest stack with
  | number => rfl
  | name r => rfl
  | grouping _ ih => exact ih rest stack
  | unary _ ih =>
    rw [Expr.symbols, List.append_assoc, ih]
    rfl
  | binary _ _ left right =>
    rw [Expr.symbols, List.append_assoc, left, List.append_assoc, right]
    rfl

/-- Groupings and lines do not show in the symbols. -/
theorem symbols_unlined_ungrouped (arithmetic : e.IsArithmetic) :
    e.ungrouped.unlined.symbols = e.symbols := by
  induction arithmetic with
  | number => rfl
  | name r => rfl
  | grouping _ ih => exact ih
  | unary _ ih => exact congrArg (· ++ _) ih
  | binary _ _ left right =>
    rw [Expr.symbols, ← left, ← right]
    rfl

/-- The symbols tell an expression but for its groupings and lines. -/
theorem symbols_eq_iff (arithmetic : e.IsArithmetic) (arithmetic' : e'.IsArithmetic) :
    e.symbols = e'.symbols ↔ e.ungrouped.unlined = e'.ungrouped.unlined := by
  constructor
  · intro same
    have read := applied_symbols arithmetic [] []
    rw [same, applied_symbols arithmetic' [] []] at read
    exact (List.cons.inj read).1.symm
  · intro same
    rw [← symbols_unlined_ungrouped arithmetic, same, symbols_unlined_ungrouped arithmetic']

end Expressions

/-! ## Words -/

/-- The spellings of the operators with one operand or with two. -/
def spellingsOf (two : Bool) : List String := if two then operatorWords false else ["!", "-"]

/-- The symbols that an arithmetic expression read from a text can have. -/
inductive PostfixSymbol.Known : PostfixSymbol → Prop where
  | number {x : Float} (finite : Number.isFinite x = true) : Known (.operand (.literal (.number x)))
  | name {s : String} (word : isWordText s.toList = true) :
    Known (.operand (.variable (.bare .identifier s)))
  | operator {two : Bool} {s : String} (among : s ∈ spellingsOf two) :
    Known (.operator two (.spelled s))

/-- The same symbol, or signs of minus that may have different numbers of operands. -/
inductive PostfixSymbol.Alike : PostfixSymbol → PostfixSymbol → Prop where
  | refl (s : PostfixSymbol) : Alike s s
  | minus (two two' : Bool) : Alike (.operator two (.spelled "-")) (.operator two' (.spelled "-"))

section Words

variable {ρ : Type} {e e' : Expr ρ} {s s' : PostfixSymbol}

theorem known_symbols (arithmetic : e.IsArithmetic) (fits : e.erase.Fits Authentic) :
    ∀ s ∈ e.symbols, s.Known := by
  induction arithmetic with
  | number finite => exact List.forall_mem_singleton.mpr (.number finite)
  | name r =>
    have named : Authentic .identifier r.token := fits
    have symbol : (Expr.variable r).symbols =
        [.operand (.variable (.bare .identifier r.name))] := by
      rw [Reference.name, named.reference]
      rfl
    rw [symbol]
    exact List.forall_mem_singleton.mpr (.name named.name.2.1)
  | grouping _ ih => exact ih fits
  | @unary op _ _ ih =>
    obtain ⟨same, written⟩ := spelled_unary fits.1
    have among : op.lexeme ∈ spellingsOf false := by simpa [spellingsOf] using written
    rw [Expr.symbols, same]
    exact List.forall_mem_append.mpr ⟨ih fits.2, List.forall_mem_singleton.mpr (.operator among)⟩
  | binary _ _ left right =>
    obtain ⟨same, among⟩ := fits.2.1.spelled
    rw [Expr.symbols, same]
    exact List.forall_mem_append.mpr ⟨left fits.1, List.forall_mem_append.mpr
      ⟨right fits.2.2, List.forall_mem_singleton.mpr (.operator among)⟩⟩

/-- Operators are written neither as words nor with digits or blanks. -/
theorem operator_text {two : Bool} {s : String} (among : s ∈ spellingsOf two) :
    isWordText s.toList = false ∧ ∀ c ∈ s.toList, (!c.isDigit && c != ' ') = true := by
  have all : ∀ two, ∀ s ∈ spellingsOf two, isWordText s.toList = false ∧
      s.toList.all (fun c => !c.isDigit && c != ' ') = true := by decide
  exact ⟨(all two s among).1, List.all_eq_true.mp (all two s among).2⟩

/-- Only the sign of minus may have one operand or two. -/
theorem eq_minus_of_both {s : String} (one : s ∈ spellingsOf false) (two : s ∈ spellingsOf true) :
    s = "-" := by
  have all : ∀ s ∈ spellingsOf false, s ∈ spellingsOf true → s = "-" := by decide
  exact all s one two

theorem shortText_ne_operator {x : Float} {two : Bool} {op : String}
    (finite : Number.isFinite x = true) (among : op ∈ spellingsOf two) :
    Number.shortText x ≠ op := by
  rintro rfl
  obtain ⟨c, mem, digit⟩ := Number.exists_digit_shortText finite
  simpa [digit] using (operator_text among).2 c mem

theorem shortText_ne_name {x : Float} {name : String} (finite : Number.isFinite x = true)
    (word : isWordText name.toList = true) : Number.shortText x ≠ name := by
  rintro rfl
  rw [isWordText_shortText finite] at word
  cases word

theorem name_ne_operator {name op : String} {two : Bool} (word : isWordText name.toList = true)
    (among : op ∈ spellingsOf two) : name ≠ op := by
  rintro rfl
  rw [(operator_text among).1] at word
  cases word

theorem text_name (s : String) :
    PostfixSymbol.text (.operand (.variable (.bare .identifier s))) = s := String.ofList_toList

/-- The words of symbols have no blanks in them. -/
theorem PostfixSymbol.Known.blank_notMem (h : s.Known) : ' ' ∉ s.text.toList := by
  have clear {s : String} (h : (Bracketed.word s).IsClear) : ' ' ∉ s.toList :=
    fun mem => absurd (h.2 _ mem) (by decide)
  cases h with
  | number finite => exact clear (clear_of_isFinite finite)
  | name word =>
    rw [text_name]
    exact clear (clear_of_isWordText word)
  | operator among => exact fun mem => absurd ((operator_text among).2 _ mem) (by decide)

/-- A word tells its symbol, but for the number of operands of the sign of minus. -/
theorem PostfixSymbol.Known.alike (h : s.Known) (h' : s'.Known) (same : s.text = s'.text) :
    Alike s s' := by
  cases h with
  | number finite =>
    cases h' with
    | number finite' => exact Number.shortText_injOn finite finite' same ▸ .refl _
    | name word => exact absurd (same.trans (text_name _)) (shortText_ne_name finite word)
    | operator among => exact absurd same (shortText_ne_operator finite among)
  | name word =>
    rw [text_name] at same
    cases h' with
    | number finite => exact absurd same.symm (shortText_ne_name finite word)
    | name word' =>
      rw [text_name] at same
      exact same ▸ .refl _
    | operator among => exact absurd same (name_ne_operator word among)
  | @operator two op among =>
    cases h' with
    | number finite => exact absurd same.symm (shortText_ne_operator finite among)
    | name word =>
      rw [text_name] at same
      exact absurd same.symm (name_ne_operator word among)
    | @operator two' op' among' =>
      obtain rfl : op = op' := same
      by_cases arity : two = two'
      · exact arity ▸ .refl _
      · -- The word is in both lists.
        cases two <;> cases two'
        · exact absurd rfl arity
        · exact eq_minus_of_both among among' ▸ .minus false true
        · exact eq_minus_of_both among' among ▸ .minus true false
        · exact absurd rfl arity

/-- The blanks of the postfix form stand between its symbols. -/
theorem splitOn_postfixChars (arithmetic : e.IsArithmetic) (known : ∀ s ∈ e.symbols, s.Known) :
    e.postfixChars.splitOn ' ' = e.symbols.map fun s => s.text.toList := by
  have single {s : PostfixSymbol} (h : s.Known) : s.text.toList.splitOn ' ' = [s.text.toList] :=
    List.splitOn_eq_singleton h.blank_notMem
  induction arithmetic with
  | @number x _ =>
    have word : (Expr.literal (.number x) : Expr ρ).postfixChars =
        (PostfixSymbol.operand (.literal (.number x))).text.toList := String.toList_ofList.symm
    rw [word]
    exact single (known _ List.mem_cons_self)
  | name r =>
    have word : (Expr.variable r).postfixChars =
        (PostfixSymbol.operand (.variable r.unlined)).text.toList := String.toList_ofList.symm
    rw [word]
    exact single (known _ List.mem_cons_self)
  | grouping _ ih => exact ih known
  | unary _ ih =>
    have parts := List.forall_mem_append.mp known
    have op := single (parts.2 _ List.mem_cons_self)
    rw [Expr.symbols, List.map_append, ← ih parts.1]
    simp only [Expr.postfixChars, words]
    rw [List.intercalate_cons_cons, List.intercalate_singleton, List.append_assoc,
      List.singleton_append, List.splitOn_append_cons_self]
    exact congrArg _ op
  | binary _ _ left right =>
    have parts := List.forall_mem_append.mp known
    have parts' := List.forall_mem_append.mp parts.2
    have op := single (parts'.2 _ List.mem_cons_self)
    rw [Expr.symbols, List.map_append, List.map_append, ← left parts.1, ← right parts'.1]
    simp only [Expr.postfixChars, words]
    rw [List.intercalate_cons_cons, List.intercalate_cons_cons, List.intercalate_singleton,
      List.append_assoc, List.append_assoc, List.singleton_append, List.singleton_append,
      List.splitOn_append_cons_self, List.splitOn_append_cons_self]
    exact congrArg (fun last => _ ++ (_ ++ last)) op

/-- The text tells the words. -/
theorem postfixText_eq_iff (arithmetic : e.IsArithmetic) (known : ∀ s ∈ e.symbols, s.Known)
    (arithmetic' : e'.IsArithmetic) (known' : ∀ s ∈ e'.symbols, s.Known) :
    e.postfixText = e'.postfixText ↔
      e.symbols.map PostfixSymbol.text = e'.symbols.map PostfixSymbol.text := by
  have words (ss : List PostfixSymbol) :
      ss.map (fun s => s.text.toList) = (ss.map PostfixSymbol.text).map String.toList := by
    rw [List.map_map]
    rfl
  have split := splitOn_postfixChars arithmetic known
  have split' := splitOn_postfixChars arithmetic' known'
  rw [words] at split split'
  rw [Expr.postfixText, Expr.postfixText, String.ofList_inj]
  constructor
  · intro same
    rw [same, split'] at split
    exact (List.map_injective_iff.mpr (fun _ _ => String.toList_inj.mp) split).symm
  · intro same
    have joined : [' '].intercalate (e.postfixChars.splitOn ' ') = e.postfixChars :=
      List.intercalate_splitOn ' '
    rw [← joined, split, same, ← split', List.intercalate_splitOn]

end Words

/-! ## Signs of minus -/

section Minus

variable {ρ : Type} {e e' : Expr ρ} {s s' : PostfixSymbol} {ss ss' : List PostfixSymbol}

theorem forall₂_alike (known : ∀ s ∈ ss, s.Known) (known' : ∀ s ∈ ss', s.Known)
    (same : ss.map PostfixSymbol.text = ss'.map PostfixSymbol.text) :
    List.Forall₂ PostfixSymbol.Alike ss ss' := by
  induction ss generalizing ss' with
  | nil =>
    obtain rfl := List.map_eq_nil_iff.mp same.symm
    exact .nil
  | cons s ss ih =>
    obtain ⟨s', ss', rfl, head, tail⟩ := List.map_eq_cons_iff.mp same.symm
    obtain ⟨first, rest⟩ := List.forall_mem_cons.mp known
    obtain ⟨first', rest'⟩ := List.forall_mem_cons.mp known'
    exact .cons (first.alike first' head.symm) (ih rest rest' tail.symm)

/-- Alike symbols are the same if the signs of minus among them are. -/
theorem eq_of_alike (alike : List.Forall₂ PostfixSymbol.Alike ss ss')
    (signs : ss.filterMap PostfixSymbol.minus? = ss'.filterMap PostfixSymbol.minus?) :
    ss = ss' := by
  induction alike with
  | nil => rfl
  | @cons s _ _ _ head _ ih =>
    cases head with
    | refl =>
      rw [List.filterMap_cons, List.filterMap_cons] at signs
      cases minus : s.minus? with
      | none => exact congrArg _ (ih (by simpa [minus] using signs))
      | some two => exact congrArg _ (ih (by simpa [minus] using signs))
    | minus two two' =>
      obtain ⟨rfl, rest⟩ : two = two' ∧ _ := List.cons.inj signs
      exact congrArg _ (ih rest)

/-- A symbol is an operator with two operands. -/
def PostfixSymbol.takesTwo : PostfixSymbol → Bool
  | .operator two _ => two
  | .operand _ => false

/-- A symbol is an operand. -/
def PostfixSymbol.isOperand : PostfixSymbol → Bool
  | .operand _ => true
  | .operator _ _ => false

/-- There is one operand more than there are operators that take two. -/
theorem countP_symbols (arithmetic : e.IsArithmetic) :
    e.symbols.countP PostfixSymbol.isOperand = e.symbols.countP PostfixSymbol.takesTwo + 1 := by
  induction arithmetic with
  | number | name => rfl
  | grouping _ ih => exact ih
  | unary _ ih =>
    rw [Expr.symbols, List.countP_append, List.countP_append, ih]
    rfl
  | binary _ _ left right =>
    rw [Expr.symbols, List.countP_append, List.countP_append, List.countP_append,
      List.countP_append, left, right]
    simp [PostfixSymbol.isOperand, PostfixSymbol.takesTwo]
    omega

/-- Where symbols are alike, the signs of minus are as many, and those that take two operands make
up for the difference between all operators that do. -/
theorem counts_of_alike (alike : List.Forall₂ PostfixSymbol.Alike ss ss') :
    (ss.filterMap PostfixSymbol.minus?).length = (ss'.filterMap PostfixSymbol.minus?).length ∧
      ss.countP PostfixSymbol.isOperand = ss'.countP PostfixSymbol.isOperand ∧
      ss.countP PostfixSymbol.takesTwo + (ss'.filterMap PostfixSymbol.minus?).count true =
        ss'.countP PostfixSymbol.takesTwo + (ss.filterMap PostfixSymbol.minus?).count true := by
  induction alike with
  | nil => exact ⟨rfl, rfl, rfl⟩
  | @cons s _ _ _ head _ ih =>
    obtain ⟨length, operands, balance⟩ := ih
    cases head with
    | refl =>
      rw [List.filterMap_cons, List.filterMap_cons, List.countP_cons, List.countP_cons,
        List.countP_cons, List.countP_cons, operands]
      cases s.minus? with
      | none =>
        dsimp only
        exact ⟨length, rfl, by omega⟩
      | some two =>
        simp only [List.length_cons, List.count_cons]
        exact ⟨congrArg _ length, trivial, by omega⟩
    | minus two two' =>
      have minus (b : Bool) : PostfixSymbol.minus? (.operator b (.spelled "-")) = some b := rfl
      rw [List.filterMap_cons_some (minus two), List.filterMap_cons_some (minus two'),
        List.countP_cons, List.countP_cons, List.countP_cons, List.countP_cons, List.count_cons,
        List.count_cons, operands]
      refine ⟨congrArg (· + 1) length, rfl, ?_⟩
      cases two <;> cases two' <;> simp [PostfixSymbol.takesTwo] <;> omega

theorem eq_of_uniform {signs signs' : List Bool} (length : signs.length = signs'.length) {b : Bool}
    (absent : (!b) ∉ signs) (absent' : (!b) ∉ signs') : signs = signs' := by
  have all {signs : List Bool} (absent : (!b) ∉ signs) : signs = List.replicate signs.length b := by
    refine List.eq_replicate_of_mem fun b' mem => ?_
    by_contra other
    exact absent (Bool.eq_not_of_ne other ▸ mem)
  rw [all absent, all absent', length]

/-- Where all signs of minus of an expression take the same number of operands, those of an
expression with alike symbols take as many. -/
theorem minusSigns_eq (arithmetic : e.IsArithmetic) (arithmetic' : e'.IsArithmetic)
    (alike : List.Forall₂ PostfixSymbol.Alike e.symbols e'.symbols)
    (uniform : true ∉ e.minusSigns ∨ false ∉ e.minusSigns) : e.minusSigns = e'.minusSigns := by
  obtain ⟨length, operands, balance⟩ := counts_of_alike alike
  change e.minusSigns.length = e'.minusSigns.length at length
  change _ + e'.minusSigns.count true = _ + e.minusSigns.count true at balance
  have two := countP_symbols arithmetic
  have two' := countP_symbols arithmetic'
  have both := List.count_not_add_count e.minusSigns true
  have both' := List.count_not_add_count e'.minusSigns true
  have counts (b : Bool) : e.minusSigns.count b = e'.minusSigns.count b := by
    cases b
    · rw [Bool.not_true] at both both'
      omega
    · omega
  have absent {b : Bool} (h : b ∉ e.minusSigns) : b ∉ e'.minusSigns := by
    rwa [← List.count_eq_zero, ← counts, List.count_eq_zero]
  rcases uniform with one | both
  · exact eq_of_uniform length (b := false) one (absent one)
  · exact eq_of_uniform length (b := true) both (absent both)

end Minus

/-- The postfix forms of two expressions, as they are read from texts and made of finite numbers and
variables, are the same with the same signs of minus exactly if the expressions are, but for their
groupings and the lines of their tokens.  The form is enough if in one of the two there are not both
signs of minus with one operand and with two. -/
theorem postfix_tells {source source' : String} {endLine endLine' : Nat} {e e' : Expr Site}
    (read : e ∈ (readExpressionAlone (Scan.ofString source).tokens endLine).result)
    (read' : e' ∈ (readExpressionAlone (Scan.ofString source').tokens endLine').result)
    (arithmetic : e.IsArithmetic) (arithmetic' : e'.IsArithmetic) :
    (e.postfixText = e'.postfixText ∧ e.minusSigns = e'.minusSigns ↔
      e.ungrouped.unlined = e'.ungrouped.unlined) ∧
    (e.postfixText = e'.postfixText → true ∉ e.minusSigns ∨ false ∉ e.minusSigns →
      e.ungrouped.unlined = e'.ungrouped.unlined) := by
  have known := known_symbols arithmetic (fits_expression (authentic_scan source) endLine e read)
  have known' :=
    known_symbols arithmetic' (fits_expression (authentic_scan source') endLine' e' read')
  have texts := postfixText_eq_iff arithmetic known arithmetic' known'
  rw [← symbols_eq_iff arithmetic arithmetic', texts]
  have enough (same : e.symbols.map PostfixSymbol.text = e'.symbols.map PostfixSymbol.text)
      (signs : e.minusSigns = e'.minusSigns) : e.symbols = e'.symbols :=
    eq_of_alike (forall₂_alike known known' same) signs
  refine ⟨⟨fun ⟨same, signs⟩ => enough same signs, fun same => ?_⟩, fun same uniform => ?_⟩
  · exact ⟨congrArg _ same, congrArg (List.filterMap PostfixSymbol.minus?) same⟩
  · exact enough same
      (minusSigns_eq arithmetic arithmetic' (forall₂_alike known known' same) uniform)

/-- Other groupings, another line and another numeral do not show, also where both signs of minus
occur. -/
theorem postfix_tells_regrouped :
    ∃ e ∈ (readExpressionAlone (Scan.ofString "-a * (b - 1)").tokens 1).result,
      ∃ e' ∈ (readExpressionAlone (Scan.ofString "(-a)\n* ((b - 1.0))").tokens 2).result,
        e.IsArithmetic ∧ e'.IsArithmetic ∧ e.ungrouped.unlined = e'.ungrouped.unlined := by
  have read : (readExpressionAlone (Scan.ofString "-a * (b - 1)").tokens 1).result.isSome := by
    decide +kernel
  have read' :
      (readExpressionAlone (Scan.ofString "(-a)\n* ((b - 1.0))").tokens 2).result.isSome := by
    decide +kernel
  have arithmetic : (Option.get _ read).IsArithmetic := by decide +kernel +revert
  have arithmetic' : (Option.get _ read').IsArithmetic := by decide +kernel +revert
  refine ⟨_, Option.get_mem read, _, Option.get_mem read', arithmetic, arithmetic', ?_⟩
  exact (postfix_tells (Option.get_mem read) (Option.get_mem read') arithmetic arithmetic').1.mp
    (by clear arithmetic arithmetic'; decide +kernel +revert)

/-- Where both signs of minus occur, the form may be that of another expression as well. -/
example :
    (readExpressionAlone (Scan.ofString "-(a - b)").tokens 1).result.map
      (fun e => (e.postfixText, e.minusSigns)) = some ("a b - -", [true, false]) ∧
    (readExpressionAlone (Scan.ofString "a - -b").tokens 1).result.map
      (fun e => (e.postfixText, e.minusSigns)) = some ("a b - -", [false, true]) := by
  decide +kernel

end LoxLang
