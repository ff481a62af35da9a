import QuerySignature.Proofs.Printed.Words

namespace QuerySignature

/-! # Reading expressions

A text is read lexeme by lexeme, with a stack of the forms that have begun and miss an expression.
An operator ends the forms before it that bind at least as tightly as its left operand has to; a
parenthesis, a comma and the words of CASE end all of them, up to the form that they belong to.

- `State.step`: what a lexeme does.
- `readExpr?`: the expression that a text is read as, in its canonical form.
- `Ready`: the stacks on which a form that binds with some strength may begin.
- `close_join`: an operator behind its left operand, on such a stack.
-/

/-! ## Forms that have begun -/

/-- An operator between two expressions. -/
inductive Connector where
  | and
  | or
  | arithmetic (op : ArithmeticOp)
  | compare (op : CompareOp)
  | like (negated : Bool)
  deriving DecidableEq, Repr

namespace Connector

/-- How tightly what an operator makes binds. -/
def precedence : Connector → Nat
  | or => 1
  | and => 2
  | compare _ | like _ => 4
  | arithmetic op => op.precedence

/-- The place of the left operand. -/
def leftPlace : Connector → Nat
  | compare _ | like _ => Expr.operandPlace
  | op => op.precedence

/-- The place of the right operand. -/
def rightPlace : Connector → Nat
  | compare _ | like _ => Expr.operandPlace
  | arithmetic op => op.precedence + 1
  | op => op.precedence

/-- What an operator makes of two canonical expressions. -/
def join : Connector → Expr → Expr → Expr
  | and => joinAnd
  | or => joinOr
  | arithmetic op => .arithmetic op
  | compare op => .compare op
  | like negated => .like negated

/-- An operator as text, with what is around it. -/
def text : Connector → String
  | and => " AND "
  | or => " OR "
  | arithmetic op => " " ++ op.text ++ " "
  | compare op => " " ++ op.text ++ " "
  | like negated => " " ++ negation negated ++ "LIKE "

end Connector

/-- The operator that a word stands for behind an expression. -/
def connector? : String → Option Connector
  | "AND" => some .and
  | "OR" => some .or
  | "+" => some (.arithmetic .add)
  | "-" => some (.arithmetic .sub)
  | "*" => some (.arithmetic .mul)
  | "/" => some (.arithmetic .div)
  | "%" => some (.arithmetic .mod)
  | "=" => some (.compare .eq)
  | "<>" => some (.compare .ne)
  | "<" => some (.compare .lt)
  | "<=" => some (.compare .le)
  | ">" => some (.compare .gt)
  | ">=" => some (.compare .ge)
  | _ => none

/-- A form that ends in a list of expressions in parentheses. -/
inductive Listing where
  | items (negated : Bool) (value : Expr)
  | arguments (function : String) (distinct : Bool)

namespace Listing

/-- The form with its list. -/
def expr : Listing → List Expr → Expr
  | items negated value => .inList negated value
  | arguments function distinct => .call function distinct

/-- How tightly the form binds. -/
def precedence : Listing → Nat
  | items .. => 4
  | arguments .. => 7

end Listing

/-- A form that misses an expression. -/
inductive Unfinished where
  /-- A left operand and its operator. -/
  | operator (left : Expr) (op : Connector)
  | not
  /-- BETWEEN, which misses its lower bound. -/
  | low (negated : Bool) (value : Expr)
  /-- BETWEEN, which misses its upper bound. -/
  | high (negated : Bool) (value low : Expr)
  | paren
  | listed (listing : Listing) (done : List Expr)
  /-- CASE without any branches yet. -/
  | caseOperand
  | condition (operand : Option Expr) (branches : List WhenThen)
  | result (operand : Option Expr) (branches : List WhenThen) (condition : Expr)
  | otherwise (operand : Option Expr) (branches : List WhenThen)

namespace Unfinished

/-- The place of the expression that a form misses. -/
def place : Unfinished → Nat
  | operator _ op => op.rightPlace
  | not => 3
  | low .. | high .. => Expr.operandPlace
  | _ => 0

/-- How tightly the form binds that has begun. -/
def precedence : Unfinished → Nat
  | operator _ op => op.precedence
  | not => 3
  | low .. | high .. => 4
  | listed listing _ => listing.precedence
  | _ => 7

/-- The whole form with its last expression, if that ends it and it binds tightly enough. -/
def whole? (place : Nat) (last : Expr) : Unfinished → Option Expr
  | operator left op => if place ≤ op.precedence then some (op.join left last) else none
  | not => if place ≤ 3 then some (.not last) else none
  | high negated value lower => if place ≤ 4 then some (.between negated value lower last) else none
  | _ => none

end Unfinished

/-- Ends the forms that bind at least with some strength, from the last of them on. -/
def close (place : Nat) (last : Expr) : List Unfinished → Expr × List Unfinished
  | [] => (last, [])
  | form :: rest =>
    match form.whole? place last with
    | some whole => close place whole rest
    | none => (last, form :: rest)

/-! ## States and steps -/

/-- What has been read. -/
inductive State where
  /-- An expression is to follow. -/
  | want (stack : List Unfinished)
  | got (value : Expr) (stack : List Unfinished)
  /-- An expression and NOT. -/
  | behindNot (value : Expr) (stack : List Unfinished)
  /-- An expression and IS or IS NOT. -/
  | behindIs (negated : Bool) (value : Expr) (stack : List Unfinished)
  /-- An expression and IN or NOT IN. -/
  | behindIn (negated : Bool) (value : Expr) (stack : List Unfinished)
  | stuck

namespace State

/-- The state behind a word that goes on with a CASE behind its operand or a branch. -/
def branch (operand : Option Expr) (branches : List WhenThen) (stack : List Unfinished) :
    String → State
  | "WHEN" => want (.condition operand branches :: stack)
  | "ELSE" => want (.otherwise operand branches :: stack)
  | "END" => got (.case operand branches none) stack
  | _ => stuck

/-- The state behind a word where an expression is to follow. -/
def start (stack : List Unfinished) (text : String) : State :=
  if text = "NOT" then want (.not :: stack)
  else if text = "CASE" then want (.caseOperand :: stack)
  else if text = "DISTINCT" then
    -- right behind the parenthesis of a call
    match stack with
    | .listed (.arguments function _) [] :: rest =>
      want (.listed (.arguments function true) [] :: rest)
    | _ => stuck
  else if text ∈ ["WHEN", "ELSE", "END"] then
    -- right behind CASE, which has no operand then
    match stack with
    | .caseOperand :: rest => branch none [] rest text
    | _ => stuck
  else got (atom text) stack

/-- The state behind an operator and what has been ended before it. The AND of a BETWEEN is told
from others by its lower bound. -/
def connect (op : Connector) : Expr × List Unfinished → State
  | (left, .low negated value :: rest) =>
    match op with
    | .and => want (.high negated value left :: rest)
    | op => want (.operator left op :: .low negated value :: rest)
  | (left, stack) => want (.operator left op :: stack)

/-- The state behind a word that tests the expression before it. -/
def test (negated : Bool) (text : String) : Expr × List Unfinished → State
  | (value, stack) =>
    match text with
    | "BETWEEN" => want (.low negated value :: stack)
    | "IN" => behindIn negated value stack
    | "LIKE" => want (.operator value (.like negated) :: stack)
    | _ => stuck

/-- The state behind a word of CASE and what has been ended before it. -/
def ended (text : String) : Expr × List Unfinished → State
  | (operand, .caseOperand :: rest) => branch (some operand) [] rest text
  | (condition, .condition operand branches :: rest) =>
    if text = "THEN" then want (.result operand branches condition :: rest) else stuck
  | (result, .result operand branches condition :: rest) =>
    branch operand (branches ++ [⟨condition, result⟩]) rest text
  | (value, .otherwise operand branches :: rest) =>
    if text = "END" then got (.case operand branches (some value)) rest else stuck
  | _ => stuck

/-- The state behind a word that follows an expression. -/
def goOn (value : Expr) (stack : List Unfinished) (text : String) : State :=
  match connector? text with
  | some op => connect op (close op.leftPlace value stack)
  | none =>
    if text = "NOT" then
      match close Expr.operandPlace value stack with
      | (value, rest) => behindNot value rest
    else if text = "IS" then
      match close Expr.operandPlace value stack with
      | (value, rest) => behindIs false value rest
    else if text ∈ ["BETWEEN", "IN", "LIKE"] then
      test false text (close Expr.operandPlace value stack)
    else ended text (close 0 value stack)

/-- The state behind a lexeme. -/
def step : State → Lexeme → State
  | want stack, .word text => start stack text
  | got value stack, .word text => goOn value stack text
  | behindNot value stack, .word text => test true text (value, stack)
  | behindIs negated value stack, .word text =>
    if text = "NULL" then got (.isNull negated value) stack
    else if text = "NOT" then behindIs true value stack
    else stuck
  | want stack, .quoted text => got (.literal (.string text)) stack
  | want stack, .opening => want (.paren :: stack)
  | behindIn negated value stack, .opening => want (.listed (.items negated value) [] :: stack)
  -- a name in front of a parenthesis is that of a function
  | got (.column ⟨none, function⟩) stack, .opening =>
    want (.listed (.arguments function false) [] :: stack)
  | want (.listed listing [] :: stack), .closing => got (listing.expr []) stack
  | got value stack, .closing =>
    match close 0 value stack with
    | (inner, .paren :: rest) => got inner rest
    | (last, .listed listing done :: rest) => got (listing.expr (done ++ [last])) rest
    | _ => stuck
  | got value stack, .comma =>
    match close 0 value stack with
    | (next, .listed listing done :: rest) => want (.listed listing (done ++ [next]) :: rest)
    | _ => stuck
  | _, _ => stuck

/-- The state behind a text. -/
def read (state : State) (text : List Char) : State := (lex text).foldl step state

end State

/-- The expression that a text is read as, in its canonical form. -/
def readExpr? (text : String) : Option Expr :=
  match (State.want []).read text.toList with
  | .got value stack =>
    match close 0 value stack with
    | (e, []) => some e
    | _ => none
  | _ => none

/-! ## Stacks -/

/-- A form that binds with some strength may begin on a stack: so it may stand where the last form
misses an expression, and that form itself on the stack below. -/
def Ready (precedence : Nat) : List Unfinished → Prop
  | [] => True
  | form :: rest => form.place ≤ precedence ∧ Ready form.precedence rest

theorem Ready.mono {p q : Nat} {stack : List Unfinished} (h : Ready p stack) (hpq : p ≤ q) :
    Ready q stack := by
  cases stack with
  | nil => trivial
  | cons form rest => exact ⟨Nat.le_trans h.1 hpq, h.2⟩

theorem close_cons_of_none {place : Nat} {last : Expr} {form : Unfinished} {rest : List Unfinished}
    (h : form.whole? place last = none) :
    close place last (form :: rest) = (last, form :: rest) := by
  rw [close, h]

theorem close_operator {place : Nat} {left last : Expr} {op : Connector} (h : place ≤ op.precedence)
    (rest : List Unfinished) :
    close place last (.operator left op :: rest) = close place (op.join left last) rest := by
  rw [close, Unfinished.whole?, if_pos h]

/-- The chains of an operator are put together in any way if its right operand may be one. -/
theorem Connector.join_assoc {op : Connector} (h : op.rightPlace ≤ op.precedence) (a b c : Expr) :
    op.join (op.join a b) c = op.join a (op.join b c) := by
  cases op with
  | and => exact joinAnd_assoc a b c
  | or => exact joinOr_assoc a b c
  | arithmetic op => exact absurd h (Nat.not_succ_le_self _)
  | compare op => exact absurd h (Nat.not_succ_le_self 4)
  | like negated => exact absurd h (Nat.not_succ_le_self 4)

theorem ArithmeticOp.five_le_precedence (op : ArithmeticOp) : 5 ≤ op.precedence := by
  cases op <;> decide

namespace Connector

variable {op other : Connector}

theorem precedence_le_leftPlace (op : Connector) : op.precedence ≤ op.leftPlace := by
  cases op with
  | compare op => exact Nat.le_succ 4
  | like negated => exact Nat.le_succ 4
  | _ => exact Nat.le_refl _

theorem precedence_le_rightPlace (op : Connector) : op.precedence ≤ op.rightPlace := by
  cases op with
  | and | or => exact Nat.le_refl _
  | _ => exact Nat.le_succ _

theorem rightPlace_le (op : Connector) : op.rightPlace ≤ 7 := by
  cases op with
  | arithmetic op => cases op <;> decide
  | _ => exact Nat.le_of_ble_eq_true rfl

theorem leftPlace_le (op : Connector) : op.leftPlace ≤ 7 := by
  cases op with
  | arithmetic op => cases op <;> decide
  | _ => exact Nat.le_of_ble_eq_true rfl

/-- All that bind tighter than a conjunction have operands that bind tighter than tests. -/
theorem five_le_leftPlace (h : 3 ≤ op.precedence) : 5 ≤ op.leftPlace := by
  cases op with
  | and | or => exact absurd h (by decide)
  | arithmetic op => exact op.five_le_precedence
  | compare op => exact Nat.le_refl _
  | like negated => exact Nat.le_refl _

/-- An operator ends one whose right operand it may be in only if both are of one chain. -/
theorem eq_of_le (hright : other.rightPlace ≤ op.precedence)
    (hleft : op.leftPlace ≤ other.precedence) : other = op := by
  have hop := op.precedence_le_leftPlace
  have hother := other.precedence_le_rightPlace
  -- no room is left between the four strengths, so both bind alike and `other` makes chains
  have heq : other.precedence = op.precedence := by omega
  have hchain : other.rightPlace ≤ other.precedence := by omega
  cases other with
  | and =>
    cases op with
    | and => rfl
    | arithmetic op =>
      have hfive := op.five_le_precedence
      have htwo : 2 = op.precedence := heq
      omega
    | _ => cases heq
  | or =>
    cases op with
    | or => rfl
    | arithmetic op =>
      have hfive := op.five_le_precedence
      have hone : 1 = op.precedence := heq
      omega
    | _ => cases heq
  | _ => exact absurd hchain (Nat.not_succ_le_self _)

end Connector

/-- A form in which an operator may begin is left open by it, unless both are of one chain. -/
theorem Unfinished.whole?_of_place_le {form : Unfinished} {op : Connector}
    (h : form.place ≤ op.precedence) :
    (∃ left, form = .operator left op ∧ op.leftPlace ≤ op.precedence) ∨
      ∀ last, form.whole? op.leftPlace last = none := by
  cases form with
  | operator left other =>
    by_cases hleft : op.leftPlace ≤ other.precedence
    · obtain rfl := Connector.eq_of_le h hleft
      exact .inl ⟨left, rfl, hleft⟩
    · exact .inr fun last => if_neg hleft
  | not =>
    have hfive := Connector.five_le_leftPlace h
    exact .inr fun last => if_neg (by omega)
  | high negated value lower =>
    have hplace : 5 ≤ op.precedence := h
    have hfive := op.precedence_le_leftPlace
    exact .inr fun last => if_neg (by omega)
  | _ => exact .inr fun last => rfl

/-- An operator behind its left operand: some forms of the stack may be ended before it, and what
it then makes is what it makes of the left operand alone. -/
theorem close_join {op : Connector} {stack : List Unfinished} (h : Ready op.precedence stack)
    (left : Expr) :
    ∃ whole rest, close op.leftPlace left stack = (whole, rest) ∧ Ready op.precedence rest ∧
      ∀ place ≤ op.precedence, ∀ right,
        close place (op.join whole right) rest = close place (op.join left right) stack := by
  induction stack generalizing left with
  | nil => exact ⟨left, [], rfl, trivial, fun _ _ _ => rfl⟩
  | cons form rest ih =>
    rcases Unfinished.whole?_of_place_le h.1 with ⟨first, rfl, hplace⟩ | hopen
    · -- the form is of the same chain, so it is ended and joined
      obtain ⟨whole, below, hclose, hready, hwhole⟩ := ih h.2 (op.join first left)
      refine ⟨whole, below, ?_, hready, ?_⟩
      · rw [close_operator hplace, hclose]
      · intro place hle right
        rw [hwhole place hle, Connector.join_assoc h.1, close_operator hle]
    · exact ⟨left, form :: rest, close_cons_of_none (hopen left), h, fun _ _ _ => rfl⟩

theorem State.connect_of_ready {op : Connector} {left : Expr} {stack : List Unfinished}
    (h : Ready op.precedence stack) :
    connect op (left, stack) = want (.operator left op :: stack) := by
  unfold connect
  split
  · next left negated value rest hstack =>
    cases hstack
    cases op with
    | and =>
      have hplace : 5 ≤ 2 := h.1
      exact absurd hplace (by decide)
    | _ => rfl
  · next left stack _ hstack =>
    cases hstack
    rfl

/-- A test leaves all forms open in which it may begin. -/
theorem close_operandPlace {stack : List Unfinished} (h : Ready 4 stack) (value : Expr) :
    close Expr.operandPlace value stack = (value, stack) := by
  cases stack with
  | nil => rfl
  | cons form rest =>
    have htest : form.place ≤ (Connector.compare .eq).precedence := h.1
    rcases Unfinished.whole?_of_place_le htest with ⟨left, -, hplace⟩ | hopen
    · exact absurd hplace (Nat.not_succ_le_self 4)
    · exact close_cons_of_none (hopen value)

end QuerySignature
