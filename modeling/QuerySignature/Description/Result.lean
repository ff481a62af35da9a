import QuerySignature.SqlType.Name

namespace QuerySignature

/-! # Described columns and parameters

What a description says of one output column and of one placeholder.
-/

/-- An output column, with its type. -/
structure ResultColumn where
  name : String
  type : SqlType
  notNull : Bool
  /-- The visible table of the column that it is a reference to, empty when it is computed. -/
  table : String
  deriving DecidableEq, Repr, Inhabited

/-- A placeholder, with its type. -/
structure ResultParameter where
  name : String
  type : SqlType
  notNull : Bool
  /-- It stands for all items of an IN list. -/
  list : Bool
  deriving DecidableEq, Repr, Inhabited

/-- The type of a placeholder as text, with brackets when it stands for a list. -/
def ResultParameter.typeText (p : ResultParameter) : String :=
  if p.list then p.type.name ++ "[]" else p.type.name

end QuerySignature
