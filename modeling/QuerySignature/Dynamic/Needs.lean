import QuerySignature.Distinct
import QuerySignature.Dynamic.Fragment
import QuerySignature.Text.Segments

namespace QuerySignature

/-! # What needs a fragment

A selected item needs itself, a condition the parameters in it. A source is needed by whatever
reads it or a source joined through it: selected items, conditions that are kept, and columns
ordered by. If a condition without parameters reads it, it is always needed, and so is the first
source.
-/

/-- The names at places of a list, as far as there are any. -/
def namesAt (names : List String) (places : List Nat) : List String :=
  places.filterMap (names[·]?)

/-- A relation and those joined through it, with the columns that they bring. -/
structure Reach where
  relations : List String
  fields : List TableField
  deriving DecidableEq, Repr, Inhabited

/-- Adds a source, unless its relation is there. -/
def Reach.add (reach : Reach) (source : Fragment) : Reach :=
  match source.relation with
  | some relation =>
    if relation ∈ reach.relations then reach
    else ⟨reach.relations ++ [relation], reach.fields ++ source.fields⟩
  | none => reach

/-- Adds the sources that hang off a relation. -/
def Reach.addChildren (sources : List Fragment) (relation : String) (reach : Reach) : Reach :=
  (sources.filter fun source => source.parent == some relation).foldl Reach.add reach

/-- Adds the sources that hang off the relation at each place from `place` on, those added on the
way included. -/
def Reach.extend (sources : List Fragment) : Nat → Nat → Reach → Reach
  | 0, _, reach => reach
  | steps + 1, place, reach =>
    match reach.relations[place]? with
    | none => reach
    | some relation => Reach.extend sources steps (place + 1) (reach.addChildren sources relation)

/-- What a source reaches by links read downwards. Every step after the first goes on from a
relation of its own. -/
def Reach.ofSource (sources : List Fragment) (source : Fragment) : Reach :=
  Reach.extend sources (sources.length + 1) 0 ⟨source.relation.toList, source.fields⟩

/-- Whether a condition reads one of the columns reached. -/
def Reach.isReadBy (reach : Reach) (condition : Fragment) : Bool :=
  condition.fields.any fun field => reach.fields.any fun own => own.sameAs field

/-- Whether a column to order by is one of the columns reached. -/
def Reach.orders (reach : Reach) (column : String) : Bool :=
  let (qualifier, name) := (qualified? column).getD ("", column)
  reach.fields.any fun field =>
    sameName field.field name && (qualifier.isEmpty || sameName field.table qualifier)

namespace Fragments

/-- What needs an item: only its own selection. -/
def itemNeed (names : List String) (fragment : Fragment) (index : Nat) : Need :=
  { text := fragment.text
    bareText := fragment.bareText
    items := [index]
    parameters := namesAt names fragment.parameters }

/-- What needs a source. -/
def sourceNeed (fragments : Fragments) (names order : List String) (fragment : Fragment)
    (index : Nat) : Need :=
  let always : Need := { text := fragment.text, parameters := namesAt names fragment.parameters }
  if index = 0 ∧ fragment.parent = none then always
  else
    let reach := Reach.ofSource fragments.sources fragment
    let readers := fragments.conditions.filter reach.isReadBy
    if readers.any fun condition => condition.conditionOn.isEmpty then always
    else
      { always with
        items := (List.range fragments.items.length).filter fun index =>
          fragments.items[index]?.any fun item =>
            item.reads.any fun table => table ∈ reach.relations
        bound := distinct (readers.flatMap fun condition => namesAt names condition.conditionOn)
        order := order.filter reach.orders }

/-- What needs a common table: whatever needs a source that reads it. -/
def cteNeed (fragments : Fragments) (names : List String) (sources : List Need)
    (fragment : Fragment) : Need :=
  let readers := (fragments.sources.zip sources).filterMap fun (source, need) =>
    if source.relation.isSome && source.relation == fragment.relation then some need else none
  { text := fragment.text
    items := distinct (readers.flatMap (·.items))
    bound := distinct (readers.flatMap (·.bound))
    parameters := namesAt names fragment.parameters
    order := distinct (readers.flatMap (·.order)) }

/-- What needs a condition: all of its parameters. -/
def conditionNeed (names : List String) (fragment : Fragment) : Need :=
  { text := fragment.text
    bound := distinct (namesAt names fragment.conditionOn)
    parameters := namesAt names fragment.parameters }

/-- What needs each fragment, given the names of the parameters and the columns that the result may
be ordered by. -/
def needs (fragments : Fragments) (names order : List String) : Needs :=
  let sources := fragments.sources.zipIdx.map fun (fragment, index) =>
    fragments.sourceNeed names order fragment index
  { ctes := fragments.ctes.map (fragments.cteNeed names sources)
    items := fragments.items.zipIdx.map fun (fragment, index) => itemNeed names fragment index
    sources
    conditions := fragments.conditions.map (conditionNeed names) }

end Fragments

end QuerySignature
