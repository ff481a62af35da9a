import QuerySignature.SqlType.Name

namespace QuerySignature

/-! # Type variables

Every expression of a statement gets a type variable. A constraint relates two terms over
variables; what it says of the variables themselves is the list of its `equations`, in the order
in which they are to be solved.

- `TypeTerm.equations_tuple_tuple`: two tuples are related item by item.
- `TypeTerm.equations_var_tuple`: a variable is related to every variable of a tuple.
- `TypeTerm.equations_ofVars_ofVars`: two rows of variables are related place by place.
-/

/-- What is known of a type. -/
inductive TypeInfo where
  | exact (type : SqlType)
  /-- Some numeric type, the result of arithmetic. -/
  | number
  | unknown
  deriving DecidableEq, Repr, Inhabited

namespace TypeInfo

/-- What is known, in words. -/
def text : TypeInfo → String
  | exact type => type.name
  | number => "number"
  | unknown => "?"

/-- Reads what is known, from words. -/
def ofText? (text : String) : Option TypeInfo :=
  if text = "?" then some unknown
  else if text = "number" then some number
  else (SqlType.ofDeclared? text).map exact

end TypeInfo

/-- A type variable: its number, the text it was made for, and what was known when it was made. -/
structure TypeVar where
  id : Nat
  label : String
  info : TypeInfo
  /-- It stands for a whole list of values. -/
  list : Bool
  /-- It stands for an output column of a query inside the statement. -/
  projected : Bool
  deriving DecidableEq, Repr, Inhabited

/-- The same variable, marked as an output column. -/
def TypeVar.asProjected (v : TypeVar) : TypeVar := { v with projected := true }

/-- A variable or a row of terms. -/
inductive TypeTerm where
  | var (v : TypeVar)
  | tuple (items : List TypeTerm)
  deriving Inhabited

/-- A row of variables. -/
def TypeTerm.ofVars (vars : List TypeVar) : TypeTerm := .tuple (vars.map .var)

/-- How far a constraint binds. -/
inductive Strength where
  /-- The two sides have one type, or the statement is refused. -/
  | strict
  /-- The two sides have one type if they can. -/
  | bestEffort
  /-- The two sides take the wider type. -/
  | widest
  deriving DecidableEq, Repr, Inhabited

/-- What is done to the sides of a widening constraint first. -/
inductive Coercion where
  /-- An operand of arithmetic: what is not numeric counts as a double. -/
  | sum
  /-- The argument of SUM: integers become the type of their sums. -/
  | sumFunction
  deriving DecidableEq, Repr, Inhabited

/-- A relation between two terms, with the text of the expression that asks for it. -/
structure Constraint where
  label : String
  left : TypeTerm
  right : TypeTerm
  strength : Strength
  coercion : Option Coercion
  /-- The right side holds a list placeholder. -/
  list : Bool
  deriving Inhabited

namespace Constraint

/-- Two terms that must have one type. -/
def strict (label : String) (left right : TypeTerm) : Constraint :=
  ⟨label, left, right, .strict, none, false⟩

/-- Two variables that should have one type. -/
def bestEffort (label : String) (left right : TypeVar) : Constraint :=
  ⟨label, .var left, .var right, .bestEffort, none, false⟩

/-- Two variables that take the wider type. -/
def widest (label : String) (coercion : Option Coercion) (left right : TypeVar) : Constraint :=
  ⟨label, .var left, .var right, .widest, coercion, false⟩

end Constraint

/-! ## Equations of a constraint -/

namespace TypeTerm

mutual

/-- The variables of a term, in order. -/
def vars : TypeTerm → List TypeVar
  | .var v => [v]
  | .tuple items => varsOfAll items

/-- The variables of a row of terms. -/
def varsOfAll : List TypeTerm → List TypeVar
  | [] => []
  | item :: rest => item.vars ++ varsOfAll rest

end

mutual

/-- The pairs of variables that two related terms relate. Rows are related item by item, as far as
both reach; a variable is related to every variable of a row. -/
def equations : TypeTerm → TypeTerm → List (TypeVar × TypeVar)
  | .var v, right => right.vars.map fun w => (v, w)
  | .tuple items, .var w => (varsOfAll items).map fun v => (v, w)
  | .tuple lefts, .tuple rights => equationsOfAll lefts rights

/-- The pairs of variables that two related rows relate. -/
def equationsOfAll : List TypeTerm → List TypeTerm → List (TypeVar × TypeVar)
  | left :: lefts, right :: rights => left.equations right ++ equationsOfAll lefts rights
  | _, _ => []

end

@[simp] theorem equations_var_var (v w : TypeVar) : (var v).equations (var w) = [(v, w)] := rfl

theorem equations_var_tuple (v : TypeVar) (items : List TypeTerm) :
    (var v).equations (tuple items) = (varsOfAll items).map fun w => (v, w) := rfl

theorem equations_tuple_tuple (left right : TypeTerm) (lefts rights : List TypeTerm) :
    (tuple (left :: lefts)).equations (tuple (right :: rights)) =
      left.equations right ++ (tuple lefts).equations (tuple rights) := rfl

theorem varsOfAll_map_var (vars : List TypeVar) : varsOfAll (vars.map .var) = vars := by
  induction vars with
  | nil => rfl
  | cons v rest ih => exact congrArg (v :: ·) ih

theorem equations_var_ofVars (v : TypeVar) (vars : List TypeVar) :
    (var v).equations (ofVars vars) = vars.map fun w => (v, w) := by
  rw [ofVars, equations_var_tuple, varsOfAll_map_var]

theorem equations_ofVars_ofVars (vars others : List TypeVar) :
    (ofVars vars).equations (ofVars others) = vars.zip others := by
  induction vars generalizing others with
  | nil => cases others <;> rfl
  | cons v rest ih =>
    cases others with
    | nil => rfl
    | cons w others => exact congrArg ((v, w) :: ·) (ih others)

end TypeTerm

/-- The pairs of variables that a constraint relates. -/
def Constraint.equations (c : Constraint) : List (TypeVar × TypeVar) := c.left.equations c.right

end QuerySignature
