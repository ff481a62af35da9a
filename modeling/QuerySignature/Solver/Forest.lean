import QuerySignature.Solver.Merge

namespace QuerySignature

/-! # Classes of type variables

The classes that solving has merged so far are the trees of a forest. Every variable met so far
has a node with its parent; a root is its own parent and carries what is known of its class.
Looking up a root hangs every node on the way directly below it.

- `Forest.get?_put`: putting a node changes that node only.
-/

/-- A variable's place in the forest, and what is known of the class if the node is its root. -/
structure Node where
  parent : Nat
  info : TypeInfo
  deriving DecidableEq, Repr, Inhabited

/-- Nodes by the numbers of their variables. -/
abbrev Forest := List (Nat × Node)

namespace Forest

/-- The node of a variable. -/
def get? : Forest → Nat → Option Node
  | [], _ => none
  | (other, node) :: rest, id => if other = id then some node else get? rest id

/-- Puts a node in place of the variable's earlier one. -/
def put (id : Nat) (node : Node) : Forest → Forest
  | [] => [(id, node)]
  | (other, old) :: rest =>
    if other = id then (id, node) :: rest else (other, old) :: put id node rest

theorem get?_put (forest : Forest) (id other : Nat) (node : Node) :
    (put id node forest).get? other = if other = id then some node else forest.get? other := by
  induction forest with
  | nil =>
    by_cases h : other = id
    · simp [put, get?, h]
    · simp [put, get?, h, Ne.symm h]
  | cons entry rest ih =>
    obtain ⟨key, old⟩ := entry
    by_cases hk : key = id
    · subst hk
      by_cases h : other = key
      · simp [put, get?, h]
      · simp [put, get?, h, Ne.symm h]
    · by_cases h : key = other
      · subst h
        simp [put, get?, hk]
      · simp [put, get?, hk, h, ih]

/-- Enters a variable as a class of its own, unless it is known. -/
def enter (forest : Forest) (v : TypeVar) : Forest :=
  match forest.get? v.id with
  | some _ => forest
  | none => put v.id ⟨v.id, v.info⟩ forest

/-- Follows at most `steps` parents. -/
def climb (forest : Forest) : Nat → Nat → Nat
  | 0, id => id
  | steps + 1, id =>
    match forest.get? id with
    | some node => if node.parent = id then id else climb forest steps node.parent
    | none => id

/-- The root above a variable. No way up is longer than the forest has nodes. -/
def root (forest : Forest) (id : Nat) : Nat := forest.climb forest.length id

/-- Hangs the nodes on the way from `id` to `top` directly below `top`. -/
def compress (top : Nat) : Nat → Nat → Forest → Forest
  | 0, _, forest => forest
  | steps + 1, id, forest =>
    if id = top then forest
    else match forest.get? id with
      | some node => compress top steps node.parent (put id ⟨top, node.info⟩ forest)
      | none => forest

/-- The root of a variable's class, and the forest with the variable entered and its way up
shortened. -/
def find (forest : Forest) (v : TypeVar) : Nat × Forest :=
  let entered := forest.enter v
  let top := entered.root v.id
  (top, compress top entered.length v.id entered)

/-- What is known at a node. -/
def infoAt (forest : Forest) (id : Nat) : TypeInfo :=
  match forest.get? id with
  | some node => node.info
  | none => .unknown

/-- Hangs the root `lower` below the root `upper`, of whose class `info` is known now. -/
def link (forest : Forest) (upper lower : Nat) (info : TypeInfo) : Forest :=
  put upper ⟨upper, info⟩ (put lower ⟨upper, forest.infoAt lower⟩ forest)

end Forest

end QuerySignature
