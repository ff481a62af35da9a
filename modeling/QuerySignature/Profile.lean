import QuerySignature.Json.Decode
import QuerySignature.SqlType.Name

namespace QuerySignature

/-! # Profiles

A profile holds the choices of types that depend on the database: the types of literals and
predicates, the results of functions, and what stands in for a type that nothing determines.

- `Profile.ofJson?`: reads a profile from JSON.
-/

/-- A database family. -/
inductive Dialect where
  | mysql
  | sqlite
  deriving DecidableEq, Repr, Inhabited

namespace Dialect

/-- The name of a dialect. -/
def name : Dialect → String
  | mysql => "mysql"
  | sqlite => "sqlite"

/-- The dialect of a name. -/
def ofName? (name : String) : Option Dialect :=
  match name with
  | "mysql" => some mysql
  | "sqlite" => some sqlite
  | _ => none

end Dialect

/-- The types that a dialect gives to expressions whose type is not declared. -/
structure Profile where
  dialect : Dialect
  /-- String literals, and whatever nothing determines. -/
  textType : SqlType
  /-- Numbers of which no more is known. -/
  floatType : SqlType
  integerLiteralType : SqlType
  floatLiteralType : SqlType
  /-- Comparisons and conditions. -/
  predicateType : SqlType
  countType : SqlType
  avgType : SqlType
  /-- Sums of integers. -/
  sumIntegerType : SqlType
  floorType : SqlType
  dateType : SqlType
  /-- Row counts in LIMIT and OFFSET. -/
  limitType : SqlType
  deriving DecidableEq, Repr, Inhabited

namespace Profile

/-- The profile of MySQL. -/
def mysql : Profile where
  dialect := .mysql
  textType := .varchar
  floatType := .double
  integerLiteralType := .bigInt
  floatLiteralType := .double
  predicateType := .tinyInt
  countType := .bigInt
  avgType := .decimal
  sumIntegerType := .decimal
  floorType := .bigInt
  dateType := .date
  limitType := .bigInt

/-- The profile of SQLite. -/
def sqlite : Profile where
  dialect := .sqlite
  textType := .storageText
  floatType := .storageReal
  integerLiteralType := .storageInteger
  floatLiteralType := .storageReal
  predicateType := .storageInteger
  countType := .storageInteger
  avgType := .storageReal
  sumIntegerType := .storageInteger
  floorType := .storageInteger
  dateType := .storageDate
  limitType := .storageInteger

/-- The profile of a dialect. -/
def ofDialect : Dialect → Profile
  | .mysql => mysql
  | .sqlite => sqlite

/-- Reads a declared type. -/
def typeOf? (value : Json) : Option SqlType := value.text?.bind SqlType.ofDeclared?

/-- Reads a profile; every member must be there. -/
def ofJson? (value : Json) : Option Profile := do
  let dialect ← value.required? (fun v => v.choice?.bind Dialect.ofName?) "dialect" 0
  let textType ← value.required? typeOf? "text_type" 1
  let floatType ← value.required? typeOf? "float_type" 2
  let integerLiteralType ← value.required? typeOf? "integer_literal_type" 3
  let floatLiteralType ← value.required? typeOf? "float_literal_type" 4
  let predicateType ← value.required? typeOf? "predicate_type" 5
  let countType ← value.required? typeOf? "count_type" 6
  let avgType ← value.required? typeOf? "avg_type" 7
  let sumIntegerType ← value.required? typeOf? "sum_integer_type" 8
  let floorType ← value.required? typeOf? "floor_type" 9
  let dateType ← value.required? typeOf? "date_type" 10
  let limitType ← value.required? typeOf? "limit_type" 11
  if value.fits 12 then
    pure { dialect, textType, floatType, integerLiteralType, floatLiteralType, predicateType,
           countType, avgType, sumIntegerType, floorType, dateType, limitType }
  else none

end Profile

end QuerySignature
