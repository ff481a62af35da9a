import QuerySignature.Json.Decode
import QuerySignature.Text.Caseless

namespace QuerySignature

/-! # Fragments

A dynamic query is a query some parts of which may be left out: items of the projection, sources,
conditions, common tables. A fragment is one such part, with what it reads and what it brings.
-/

/-- A column of a table, by the name under which the table is visible. -/
structure TableField where
  table : String
  field : String
  deriving DecidableEq, Repr, Inhabited

/-- Whether two names mean the same column. -/
def TableField.sameAs (a b : TableField) : Bool :=
  sameName a.table b.table && sameName a.field b.field

/-- A part of a query that may be left out. -/
structure Fragment where
  text : String
  /-- The text of an item of the projection without its alias, when it has one. -/
  bareText : Option String := none
  /-- The visible name of the table that the fragment brings. -/
  relation : Option String := none
  /-- The table that this one hangs off. -/
  parent : Option String := none
  /-- The columns that the fragment brings, if it is a source, or else reads. -/
  fields : List TableField := []
  /-- The tables that an item of the projection reads. -/
  reads : List String := []
  /-- The places of the parameters without which a condition falls away. -/
  conditionOn : List Nat := []
  /-- The places of the parameters in the text. -/
  parameters : List Nat := []
  deriving DecidableEq, Repr, Inhabited

/-- The fragments of a query by kind. -/
structure Fragments where
  ctes : List Fragment
  items : List Fragment
  sources : List Fragment
  conditions : List Fragment
  deriving DecidableEq, Repr, Inhabited

/-- A fragment and what it is needed for. One that nothing needs in particular is always needed. -/
structure Need where
  text : String
  bareText : Option String := none
  /-- The places of the selected items that need it. -/
  items : List Nat := []
  /-- The parameters that need it when they are bound. -/
  bound : List String := []
  /-- The names of the parameters in its text. -/
  parameters : List String := []
  /-- The columns that need it when the result is ordered by them. -/
  order : List String := []
  deriving DecidableEq, Repr, Inhabited

/-- Whether a fragment is needed always. -/
def Need.isRequired (need : Need) : Bool :=
  need.items.isEmpty && need.bound.isEmpty && need.order.isEmpty

/-- The needs of a query's fragments by kind. -/
structure Needs where
  ctes : List Need
  items : List Need
  sources : List Need
  conditions : List Need
  deriving DecidableEq, Repr, Inhabited

/-! ## Reading fragments -/

namespace TableField

/-- Reads a column of a table. -/
def ofJson? (value : Json) : Option TableField := do
  let table ← value.required? Json.text? "table" 0
  let field ← value.required? Json.text? "field" 1
  if value.fits 2 then pure ⟨table, field⟩ else none

end TableField

namespace Fragment

/-- Reads a fragment; what it does not say is empty. -/
def ofJson? (value : Json) : Option Fragment := do
  let text ← value.optional? Json.text? "" "fragment" 0
  let bareText ← value.optional? Json.nullableText? none "fragmentWithoutAlias" 1
  let relation ← value.optional? Json.nullableText? none "relation" 2
  let parent ← value.optional? Json.nullableText? none "parentRelation" 3
  let fields ← value.optional? (Json.listOf? TableField.ofJson?) [] "fields" 4
  let reads ← value.optional? (Json.listOf? Json.text?) [] "dependOn" 5
  let conditionOn ← value.optional? (Json.listOf? Json.nat?) [] "dependOnParams" 6
  let parameters ← value.optional? (Json.listOf? Json.nat?) [] "parameters" 7
  if value.fits 8 then
    pure { text, bareText, relation, parent, fields, reads, conditionOn, parameters }
  else none

end Fragment

namespace Fragments

/-- Reads the fragments of a query. -/
def ofJson? (value : Json) : Option Fragments := do
  let ctes ← value.optional? (Json.listOf? Fragment.ofJson?) [] "with" 0
  let items ← value.optional? (Json.listOf? Fragment.ofJson?) [] "select" 1
  let sources ← value.optional? (Json.listOf? Fragment.ofJson?) [] "from" 2
  let conditions ← value.optional? (Json.listOf? Fragment.ofJson?) [] "where" 3
  if value.fits 4 then pure { ctes, items, sources, conditions } else none

end Fragments

end QuerySignature
