import QuerySignature.Proofs.Printed.Scanning

namespace QuerySignature

/-! # Expressions up to parentheses

The parentheses that a tree holds are printed like those that its shape asks for, and a chain of
ANDs or of ORs is printed without any. So a text does not tell trees apart that differ in these;
their canonical form has no parentheses, and its chains lean to the left.

- `joinAnd_assoc`, `joinOr_assoc`: chains are put together in any way.
- `Expr.canonical`: the form of a tree in which its text can be read.
- `Expr.Legible`: the trees whose texts can be read.
-/

/-! ## Chains -/

/-- The conjunction of two expressions, as a chain that leans to the left. -/
def joinAnd (left : Expr) : Expr → Expr
  | .and first second => .and (joinAnd left first) second
  | right => .and left right

/-- The disjunction of two expressions, as a chain that leans to the left. -/
def joinOr (left : Expr) : Expr → Expr
  | .or first second => .or (joinOr left first) second
  | right => .or left right

/-- What is no conjunction becomes the last of a chain. -/
theorem joinAnd_eq_and {left right : Expr} (h : ∀ first second, right ≠ .and first second) :
    joinAnd left right = .and left right := by
  unfold joinAnd
  split
  · next first second => exact absurd rfl (h first second)
  · rfl

theorem joinAnd_assoc (a b c : Expr) : joinAnd (joinAnd a b) c = joinAnd a (joinAnd b c) := by
  fun_induction joinAnd b c with
  | case1 first second ih => rw [joinAnd, joinAnd, ih]
  | case2 right hright => rw [joinAnd_eq_and hright, joinAnd]

/-- What is no disjunction becomes the last of a chain. -/
theorem joinOr_eq_or {left right : Expr} (h : ∀ first second, right ≠ .or first second) :
    joinOr left right = .or left right := by
  unfold joinOr
  split
  · next first second => exact absurd rfl (h first second)
  · rfl

theorem joinOr_assoc (a b c : Expr) : joinOr (joinOr a b) c = joinOr a (joinOr b c) := by
  fun_induction joinOr b c with
  | case1 first second ih => rw [joinOr, joinOr, ih]
  | case2 right hright => rw [joinOr_eq_or hright, joinOr]

/-! ## Canonical forms -/

mutual

/-- An expression without parentheses, with chains of ANDs and of ORs that lean to the left. -/
def Expr.canonical : Expr → Expr
  | .paren inner => inner.canonical
  | .and left right => joinAnd left.canonical right.canonical
  | .or left right => joinOr left.canonical right.canonical
  | .arithmetic op left right => .arithmetic op left.canonical right.canonical
  | .compare op left right => .compare op left.canonical right.canonical
  | .between negated value low high =>
    .between negated value.canonical low.canonical high.canonical
  | .inList negated value items => .inList negated value.canonical (canonicalAll items)
  | .inQuery negated value query => .inQuery negated value.canonical query
  | .like negated value pattern => .like negated value.canonical pattern.canonical
  | .isNull negated value => .isNull negated value.canonical
  | .not operand => .not operand.canonical
  | .call function distinct arguments => .call function distinct (canonicalAll arguments)
  | .case operand branches otherwise =>
    .case (canonicalSome operand) (canonicalBranches branches) (canonicalSome otherwise)
  | .literal value => .literal value
  | .column c => .column c
  | .parameter name => .parameter name
  | .scalar query => .scalar query
  | .hasRows query => .hasRows query
  | .star => .star

/-- Each of a list of expressions in its canonical form. -/
def canonicalAll : List Expr → List Expr
  | [] => []
  | e :: rest => e.canonical :: canonicalAll rest

/-- The canonical form of an expression, if there is one. -/
def canonicalSome : Option Expr → Option Expr
  | none => none
  | some e => some e.canonical

/-- The branches of a CASE in canonical form. -/
def canonicalBranches : List WhenThen → List WhenThen
  | [] => []
  | ⟨condition, result⟩ :: rest => ⟨condition.canonical, result.canonical⟩ :: canonicalBranches rest

end

/-! ## Legible trees -/

/-- The words that have a meaning in expressions. -/
def keywords : List String :=
  ["AND", "OR", "NOT", "BETWEEN", "IN", "LIKE", "IS", "NULL", "TRUE", "FALSE", "CASE", "WHEN",
    "THEN", "ELSE", "END", "DISTINCT"]

/-- A name that is no keyword. -/
structure IsName (name : String) : Prop where
  identifier : IsIdentifier name
  free : name ∉ keywords

mutual

/-- An expression whose text can be read: without numbers that are not whole and without queries,
with names where names stand. -/
def Expr.Legible : Expr → Prop
  | .literal (.float _) | .inQuery .. | .scalar _ | .hasRows _ => False
  | .literal _ | .star => True
  | .column c => (∀ table ∈ c.table, IsName table) ∧ IsName c.name
  | .parameter name => ∀ parameter ∈ name, IsIdentifier parameter
  | .arithmetic _ left right | .compare _ left right => left.Legible ∧ right.Legible
  | .and left right | .or left right => left.Legible ∧ right.Legible
  | .between _ value low high => value.Legible ∧ low.Legible ∧ high.Legible
  | .inList _ value items => value.Legible ∧ LegibleAll items
  | .like _ value pattern => value.Legible ∧ pattern.Legible
  | .isNull _ value | .not value | .paren value => value.Legible
  | .call function _ arguments => IsName function ∧ LegibleAll arguments
  | .case operand branches otherwise =>
    LegibleSome operand ∧ LegibleBranches branches ∧ LegibleSome otherwise

/-- So can all of a list of expressions. -/
def LegibleAll : List Expr → Prop
  | [] => True
  | e :: rest => e.Legible ∧ LegibleAll rest

/-- So can an expression, if there is one. -/
def LegibleSome : Option Expr → Prop
  | none => True
  | some e => e.Legible

/-- So can the branches of a CASE. -/
def LegibleBranches : List WhenThen → Prop
  | [] => True
  | ⟨condition, result⟩ :: rest => condition.Legible ∧ result.Legible ∧ LegibleBranches rest

end

end QuerySignature
