import QuerySignature.Solver.Forest

namespace QuerySignature

/-! # Solving constraints

Constraints are solved in their order, each one equation after the other. An equation merges the
classes of its two variables; if they cannot be merged, a strict constraint refuses the statement
and any other is passed over.

- `Forest.constrainAll_append`: solving a list is solving its parts one after the other.
-/

/-- Two classes that a strict constraint could not merge. -/
structure Clash where
  left : TypeInfo
  right : TypeInfo
  label : String
  deriving DecidableEq, Repr

/-- Solves one equation of a constraint. -/
def Forest.merge (profile : Profile) (c : Constraint) (forest : Forest) (pair : TypeVar × TypeVar) :
    Except Clash Forest :=
  let (left, forest) := forest.find pair.1
  let (right, forest) := forest.find pair.2
  if left = right then .ok forest
  else
    match TypeInfo.merge? profile c.strength c.coercion
        (forest.infoAt left) (forest.infoAt right) with
    | some info => .ok (forest.link left right info)
    | none =>
      match c.strength with
      | .strict => .error ⟨forest.infoAt left, forest.infoAt right, c.label⟩
      | _ => .ok forest

/-- Solves a constraint. -/
def Forest.constrain (profile : Profile) (forest : Forest) (c : Constraint) : Except Clash Forest :=
  c.equations.foldlM (Forest.merge profile c) forest

/-- The classes after a list of constraints. -/
def Forest.constrainAll (profile : Profile) (forest : Forest) (constraints : List Constraint) :
    Except Clash Forest :=
  constraints.foldlM (Forest.constrain profile) forest

theorem Forest.constrainAll_append (profile : Profile) (forest : Forest)
    (first second : List Constraint) :
    forest.constrainAll profile (first ++ second) =
      (forest.constrainAll profile first).bind fun between =>
        between.constrainAll profile second := by
  simp [constrainAll, List.foldlM_append, bind]

/-- What solving has found out, by variable. -/
structure Solution where
  infos : List (Nat × TypeInfo)
  deriving DecidableEq, Repr, Inhabited

namespace Solution

/-- The solution that the classes stand for. -/
def ofForest (forest : Forest) : Solution :=
  ⟨forest.map fun (id, _) => (id, forest.infoAt (forest.root id))⟩

/-- What is known of a variable; what was known from the start, when no constraint mentions it. -/
def infoOf (solution : Solution) (v : TypeVar) : TypeInfo :=
  match solution.infos.find? fun entry => entry.1 == v.id with
  | some entry => entry.2
  | none => v.info

/-- The type that is reported for a variable: a number counts as a double, and the unknown as
text. -/
def typeOf (solution : Solution) (profile : Profile) (v : TypeVar) : SqlType :=
  match solution.infoOf v with
  | .exact t => t
  | .number => profile.floatType
  | .unknown => profile.textType

end Solution

/-- Solves a list of constraints. -/
def solve (profile : Profile) (constraints : List Constraint) : Except Clash Solution :=
  (Forest.constrainAll profile [] constraints).map Solution.ofForest

end QuerySignature
