import QuerySignature.Json.Writer
import QuerySignature.Nesting.Tree

namespace QuerySignature

/-! # Collecting rows into objects

The rows that agree in the key of a node make one object of it, in the order in which the keys
first appear; a row whose key is missing or null belongs to none. An object takes its values from
the first of its rows and its children from all of them.
-/

namespace ObjectTree

/-- A flat row. -/
abbrev Row := List Json

/-- What tells the object of a row apart; `none` when the row belongs to no object. -/
def keyText? (keyIndex : Option Nat) (row : Row) : Option String :=
  match keyIndex with
  | none => some ""
  | some index =>
    match row[index]? with
    | none | some .null => none
    | some value => some value.compact

/-- Adds a row to the group of its key, or starts a new last group. -/
def addToGroup (key : String) (row : Row) : List (String × List Row) → List (String × List Row)
  | [] => [(key, [row])]
  | (other, rows) :: rest =>
    if other = key then (other, rows ++ [row]) :: rest else (other, rows) :: addToGroup key row rest

/-- The rows grouped by their keys, in the order of first appearance. -/
def groups (keyIndex : Option Nat) (rows : List Row) : List (String × List Row) :=
  rows.foldl (fun done row =>
    match keyText? keyIndex row with
    | some key => addToGroup key row done
    | none => done) []

/-- The value at a place of the first row of a group, null when the row is too short. -/
def cell (group : List Row) (index : Nat) : Json :=
  (group.head?.bind (·[index]?)).getD .null

/-- The objects of a child as the value of a field. -/
def childValue (cardinality : Cardinality) (objects : List Json) : Json :=
  match cardinality with
  | .many => .list objects
  | .one => objects.head?.getD .null

/-- An object from its fields, with a way to collect the children; of fields of one name the last
counts. -/
def object (children : Nat → List Json) (group : List Row) (fields : List Field) : Json :=
  .ofFields (fields.map fun field =>
    match field with
    | .column name index => (name, cell group index)
    | .child name cardinality node => (name, childValue cardinality (children node)))

/-- The objects of a node from a list of rows, down to the given depth. -/
def collectNode (tree : ObjectTree) : Nat → Nat → List Row → List Json
  | 0, _, _ => []
  | depth + 1, node, rows =>
    match tree.nodes[node]? with
    | none => []
    | some info =>
      (groups info.keyIndex rows).map fun (_, group) =>
        object (fun child => tree.collectNode depth child group) group info.fields

/-- The objects of the root from a list of rows. No way down a tree is longer than it has nodes. -/
def collect (tree : ObjectTree) (rows : List Row) : List Json :=
  tree.collectNode tree.nodes.length 0 rows

end ObjectTree

end QuerySignature
