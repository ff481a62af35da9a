namespace QuerySignature

/-! # SQL types

The types of columns and placeholders. Two families of names live side by side: the lower-case
column types of MySQL and the upper-case storage classes of SQLite.

- `family` groups the types; within a family, and between text and temporal types, values compare.
- `rank` orders the types that widen into one another; `widest` takes the wider of two.
- `widest_self`, `widest_eq_or`: taking the wider type is idempotent and gives one of the two.
- `compatible_refl`, `compatible_symm`: compatibility is reflexive and symmetric.
-/

/-- A column type. -/
inductive SqlType where
  | tinyInt
  | smallInt
  | mediumInt
  | int
  | bigInt
  | float
  | double
  | decimal
  | char
  | varchar
  | text
  | enum
  | set
  | date
  | dateTime
  | timestamp
  | time
  | year
  | bit
  | blob
  | json
  | storageInteger
  | storageReal
  | storageNumeric
  | storageText
  | storageBlob
  | storageDate
  deriving DecidableEq, Repr, Inhabited

/-- A group of types whose values compare. -/
inductive TypeFamily where
  | numeric
  | text
  | temporal
  | binary
  | json
  deriving DecidableEq, Repr

namespace SqlType

/-- The family of a type. -/
def family : SqlType → TypeFamily
  | tinyInt | smallInt | mediumInt | int | bigInt | year | storageInteger => .numeric
  | float | double | decimal | storageReal | storageNumeric => .numeric
  | char | varchar | text | enum | set | storageText => .text
  | date | dateTime | timestamp | time | storageDate => .temporal
  | bit | blob | storageBlob => .binary
  | json => .json

/-- Whether a type is numeric. -/
def isNumeric (t : SqlType) : Bool := t.family == .numeric

/-- The place of a type in the order of widening; a storage class shares the place of its column
type, and a type that takes no part has none. -/
def rank : SqlType → Option Nat
  | tinyInt => some 0
  | smallInt => some 1
  | mediumInt => some 2
  | int => some 3
  | bigInt | storageInteger => some 4
  | float => some 5
  | double | storageReal => some 6
  | decimal | storageNumeric => some 7
  | varchar | storageText => some 8
  | _ => none

/-- The wider of two types; the first unless the second has the higher rank. -/
def widest (a b : SqlType) : SqlType :=
  match a.rank, b.rank with
  | some ra, some rb => if ra < rb then b else a
  | _, _ => a

/-- Whether an equation between two types can hold: within a family, or between text and a point in
time. -/
def compatible (a b : SqlType) : Bool :=
  a.family == b.family ||
    (a.family == .temporal && b.family == .text) || (a.family == .text && b.family == .temporal)

@[simp] theorem widest_self (a : SqlType) : widest a a = a := by
  cases a <;> rfl

theorem widest_eq_or (a b : SqlType) : widest a b = a ∨ widest a b = b := by
  fun_cases widest a b with
  | case1 => exact Or.inr rfl
  | case2 => exact Or.inl rfl
  | case3 => exact Or.inl rfl

@[simp] theorem compatible_refl (a : SqlType) : compatible a a = true := by
  simp [compatible]

theorem compatible_symm {a b : SqlType} (h : compatible a b = true) : compatible b a = true := by
  revert h
  simp only [compatible]
  cases a.family <;> cases b.family <;> decide

end SqlType

end QuerySignature
