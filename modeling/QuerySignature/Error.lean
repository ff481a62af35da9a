import QuerySignature.Solver.Solution
import QuerySignature.Syntax.Printer

namespace QuerySignature

/-! # Why a statement is refused

Each way in which a statement cannot be described, with the words it is reported in.
-/

/-- The numbers of arguments that a function takes. -/
structure Arity where
  least : Nat
  most : Option Nat
  deriving DecidableEq, Repr, Inhabited

namespace Arity

/-- Whether a number of arguments is allowed. -/
def admits (arity : Arity) (count : Nat) : Bool :=
  arity.least ≤ count && arity.most.all (count ≤ ·)

/-- The allowed numbers in words. -/
def text (arity : Arity) : String :=
  match arity.most with
  | some most =>
    if most = arity.least then toString most else toString arity.least ++ ".." ++ toString most
  | none => toString arity.least ++ "+"

end Arity

/-- A reason to refuse a statement. -/
inductive AnalysisError where
  /-- A form without a type, by its text. -/
  | unsupported (text : String)
  | clash (clash : Clash)
  | unknownTable (name : String)
  | unknownColumn (name : String) (candidates : List String)
  /-- A reference with several meanings, each a visible table and a column. -/
  | ambiguousColumn (name : String) (meanings : List (String × String))
  | unknownFunction (name : String)
  | wrongArity (function : String) (arity : Arity) (got : Nat)
  | wrongColumnCount (expected got : Nat)
  deriving DecidableEq, Repr

namespace AnalysisError

/-- The reason in words. -/
def message : AnalysisError → String
  | unsupported text => "Unsupported expression: " ++ text
  | clash ⟨left, right, label⟩ =>
    "Type mismatch: " ++ left.text ++ " and " ++ right.text ++ " in '" ++ label ++ "'"
  | unknownTable name => "Unknown table '" ++ name ++ "'"
  | unknownColumn name candidates =>
    "Unknown column '" ++ name ++ "'" ++
      (if candidates.isEmpty then "" else " (available: " ++ commas candidates ++ ")")
  | ambiguousColumn name meanings =>
    "Column '" ++ name ++ "' is ambiguous: " ++
      commas (meanings.map fun (table, column) => table ++ "." ++ column)
  | unknownFunction name => "Function not supported: " ++ name
  | wrongArity function arity got =>
    function ++ " expects " ++ arity.text ++ " argument(s), got " ++ toString got
  | wrongColumnCount expected got =>
    "Column count doesn't match value count: expected " ++ toString expected ++ ", got " ++
      toString got

end AnalysisError

end QuerySignature
