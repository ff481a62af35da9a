import QuerySignature.Description.Result
import QuerySignature.Relation.Basic

namespace QuerySignature

/-! # Object trees

The rows of a join are flat; the objects they describe are nested as the relations are. An object
tree has a node for the root relation and for every other relation of which a column is projected.
A relation without one is left out, and the relations below it hang off the nearest ancestor that
is kept.
-/

namespace ObjectTree

/-- A field of the objects of a node. -/
inductive Field where
  /-- The value at a place of the row. -/
  | column (name : String) (index : Nat)
  /-- The objects of another node. -/
  | child (name : String) (cardinality : Cardinality) (node : Nat)
  deriving DecidableEq, Repr, Inhabited

/-- The name of a field. -/
def Field.name : Field → String
  | .column name _ => name
  | .child name _ _ => name

/-- A node: the objects of one relation. -/
structure Node where
  name : String
  /-- The place of the value that tells objects apart; without one all rows make one object. -/
  keyIndex : Option Nat
  fields : List Field
  deriving DecidableEq, Repr, Inhabited

end ObjectTree

/-- A list of nodes, the root in front, that refer to each other by place. -/
structure ObjectTree where
  nodes : List ObjectTree.Node
  deriving DecidableEq, Repr, Inhabited

namespace ObjectTree

/-- The places of the columns that belong to a relation. -/
def projected (columns : List ResultColumn) (relation : Relation) : List Nat :=
  (List.range columns.length).filter fun index =>
    columns[index]?.any fun column => sameName column.table relation.key

/-- The place of the parent of a relation. -/
def parentIndex? (relations : List Relation) (relation : Relation) : Option Nat :=
  relations.findIdx? fun candidate => sameName candidate.key relation.parent

/-- The node of the nearest ancestor that is kept, at most so many links up; parent links may go
round in circles. -/
def keptAncestor? (relations : List Relation) (kept : List Nat) : Nat → Relation → Option Nat
  | 0, _ => none
  | steps + 1, relation =>
    if relation.isRoot then none
    else
      match parentIndex? relations relation with
      | none => none
      | some parent =>
        match kept.findIdx? (· == parent) with
        | some node => some node
        | none =>
          match relations[parent]? with
          | some next => keptAncestor? relations kept steps next
          | none => none

/-- The places of the relations that get a node, the root in front. -/
def keptRelations (columns : List ResultColumn) (relations : List Relation) (root : Nat) :
    List Nat :=
  root :: (List.range relations.length).filter fun index =>
    index != root && relations[index]?.any fun relation => !(projected columns relation).isEmpty

/-- The place of the value that tells the objects of a relation apart: its join column if that is
projected, or else its first column. -/
def keyIndex (columns : List ResultColumn) (relation : Relation) : Option Nat :=
  let indexes := projected columns relation
  let named := indexes.find? fun index =>
    columns[index]?.any fun column => sameName column.name relation.joinColumn
  named.or indexes.head?

/-- The fields of a relation's own columns. -/
def columnFields (columns : List ResultColumn) (relation : Relation) : List Field :=
  (projected columns relation).filterMap fun index =>
    columns[index]?.map fun column => .column column.name index

/-- The fields for the nodes that hang off the node at a place. -/
def childFields (kept : List Relation) (parents : List (Option Nat)) (node : Nat) : List Field :=
  (kept.zip parents).zipIdx.filterMap fun ((child, parent), index) =>
    if parent == some node then some (.child child.key child.cardinality index) else none

/-- The object tree of a result. Without a root relation there is no node. -/
def build (columns : List ResultColumn) (relations : List Relation) : ObjectTree :=
  match relations.findIdx? Relation.isRoot with
  | none => ⟨[]⟩
  | some root =>
    let places := keptRelations columns relations root
    let kept := places.filterMap (relations[·]?)
    let parents := kept.map (keptAncestor? relations places relations.length)
    ⟨kept.zipIdx.map fun (relation, node) =>
      { name := relation.key
        keyIndex := keyIndex columns relation
        fields := columnFields columns relation ++ childFields kept parents node }⟩

end ObjectTree

end QuerySignature
