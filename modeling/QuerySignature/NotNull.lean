import QuerySignature.Scope.Resolve

namespace QuerySignature

/-! # Columns that a criterion proves not null

A row passes a criterion only if the criterion is true of it. A comparison with a null operand is
never true, nor is IS NOT NULL of one; so a column that such a condition refers to is not null in
any row that passes. Of an AND either side suffices, of an OR both must prove it.
-/

namespace Scope

/-- Whether an expression refers to a column. -/
def refersTo (scope : Scope) (column : SourceColumn) (e : Expr) : Bool :=
  (scope.columnOf? e).any fun found => found.sameAs column

/-- Whether a criterion is true only of rows in which a column is not null. -/
def provesNotNull (scope : Scope) (column : SourceColumn) : Expr → Bool
  | .paren inner => scope.provesNotNull column inner
  | .and left right => scope.provesNotNull column left || scope.provesNotNull column right
  | .or left right => scope.provesNotNull column left && scope.provesNotNull column right
  | .compare _ left right => scope.refersTo column left || scope.refersTo column right
  | .isNull true value => scope.refersTo column value
  | _ => false

end Scope

end QuerySignature
