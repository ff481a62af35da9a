import QuerySignature.Proofs.Fragments.Kept

namespace QuerySignature

/-! # What a source depends on

The needs of a source are worked out from the relations that a walk collects: it goes through a list
that grows while it is gone through, for as many steps as there are sources. Here the walk is also
described without a number of steps, and what comes of it without the walk.

- `Reach.Collects.ofSource`: the walk ends, and within the steps that it is given, however the links
  run;
- `Fragments.needs_of_source`: what needs a source is what needs the relations that hang off its own,
  by links read downwards, and their columns.
-/

/-! ## The walk -/

namespace Reach

/-- The walk from a place on, without a number of steps: it ends when no relation is left. -/
inductive Collects (sources : List Fragment) : Nat → Reach → Reach → Prop
  | done {place : Nat} {reach : Reach} (past : reach.relations[place]? = none) :
    Collects sources place reach reach
  | next {place : Nat} {reach final : Reach} {parent : String}
      (here : reach.relations[place]? = some parent)
      (rest : Collects sources (place + 1) (reach.addChildren sources parent) final) :
    Collects sources place reach final

variable {sources : List Fragment} {reach : Reach} {source : Fragment} {root : String}

/-- The walk has one end. -/
theorem Collects.unique {place : Nat} {a b : Reach} (ha : Collects sources place reach a)
    (hb : Collects sources place reach b) : a = b := by
  induction ha with
  | done past =>
    cases hb with
    | done => rfl
    | next here => nomatch past.symm.trans here
  | next here _ ih =>
    cases hb with
    | done past => nomatch past.symm.trans here
    | next here' rest =>
      obtain rfl := Option.some.inj (here.symm.trans here')
      exact ih rest

/-- With steps for all relations that there can be, the walk ends before they are used up. -/
theorem Collects.extend (named : SourcesNamed sources) {steps place : Nat}
    (grown : Grown sources root reach) (enough : sources.length + 1 ≤ steps + place) :
    Collects sources place reach (Reach.extend sources steps place reach) := by
  induction steps generalizing place reach with
  | zero =>
    have hle := grown.length_le
    exact .done (List.getElem?_eq_none_iff.2 (by omega))
  | succ steps ih =>
    unfold Reach.extend
    -- the list may grow, but never beyond the number of sources, so that one step less is enough
    cases hplace : reach.relations[place]? with
    | none => exact .done hplace
    | some parent =>
      have hgrown := grown.addChildren named (List.mem_of_getElem? hplace)
      exact .next hplace (ih hgrown (by omega))

/-- The walk from a source ends with what the source reaches. -/
theorem Collects.ofSource (named : SourcesNamed sources) (mem : source ∈ sources)
    (own : source.relation = some root) :
    Collects sources 0 ⟨[root], source.fields⟩ (Reach.ofSource sources source) := by
  rw [Reach.ofSource, own]
  exact Collects.extend named (Grown.start named mem own) (by omega)

end Reach

/-! ## What hangs off a relation -/

section

variable (sources : List Fragment) (root : String)

/-- A column of what hangs off a relation. -/
def FieldBelow (field : TableField) : Prop :=
  ∃ below ∈ sources, ∃ relation, HangsOff sources root relation ∧
    below.relation = some relation ∧ field ∈ below.fields

/-- A condition shares a column with what hangs off a relation. -/
def ReadBelow (condition : Fragment) : Prop :=
  ∃ own, FieldBelow sources root own ∧ ∃ field ∈ condition.fields, own.sameAs field = true

/-- A column to order by is, by its last segment, one of what hangs off a relation, and of the table
before the last dot, if one is written there. -/
def OrderBelow (column : String) : Prop :=
  ∃ own, FieldBelow sources root own ∧ sameName own.field (lastSegment column) = true ∧
    ∀ table name, qualified? column = some (table, name) → table ≠ "" →
      sameName own.table table = true

end

namespace Reach

variable {sources : List Fragment} {source : Fragment} {root : String}
  (named : SourcesNamed sources) (mem : source ∈ sources) (own : source.relation = some root)

include named mem own

/-- A condition reads what a source reaches if it shares a column with what hangs off it. -/
theorem isReadBy_ofSource_iff {condition : Fragment} :
    (ofSource sources source).isReadBy condition = true ↔ ReadBelow sources root condition := by
  simp only [isReadBy, List.any_eq_true, ReadBelow, FieldBelow, mem_fields_ofSource named mem own]
  constructor
  · rintro ⟨field, hfield, other, hbelow, hsame⟩
    exact ⟨other, hbelow, field, hfield, hsame⟩
  · rintro ⟨other, hbelow, field, hfield, hsame⟩
    exact ⟨field, hfield, other, hbelow, hsame⟩

theorem orders_ofSource_iff {column : String} :
    (ofSource sources source).orders column = true ↔ OrderBelow sources root column := by
  have hmem (field : TableField) : field ∈ (ofSource sources source).fields ↔
      FieldBelow sources root field := mem_fields_ofSource named mem own
  unfold orders OrderBelow lastSegment lastSegmentChars qualified?
  cases hcut : cutAtLastDot? column.toList with
  | none => simp [hmem]
  | some parts => simp [hmem, or_iff_not_imp_left]

end Reach

/-! ## Repetitions -/

/-- The items that are not there yet are added, each at its first place. -/
theorem foldl_addDistinct_eq {α : Type} [DecidableEq α] (items done : List α) :
    items.foldl addDistinct done = done ++ (items.filter (· ∉ done)).eraseDups := by
  induction items generalizing done with
  | nil => simp
  | cons item rest ih =>
    rw [List.foldl_cons, ih]
    by_cases h : item ∈ done
    · simp [addDistinct, h]
    · have hrest : rest.filter (· ∉ done ++ [item]) =
          (rest.filter (· ∉ done)).filter fun other => !other == item := by
        rw [List.filter_filter]
        refine List.filter_congr ?_
        intro other _
        rw [Bool.eq_iff_iff]
        simp [and_comm]
      rw [addDistinct, if_neg h, hrest, List.append_assoc, List.singleton_append,
        List.filter_cons_of_pos (by simpa using h), List.eraseDups_cons]

/-- What is left of a list without its repetitions is what the library leaves of it. -/
theorem distinct_eq_eraseDups {α : Type} [DecidableEq α] (items : List α) :
    distinct items = items.eraseDups := by
  rw [distinct, foldl_addDistinct_eq]
  simp

/-! ## What needs a source -/

namespace Fragments

/-- An item of the projection reads a relation that hangs off another. -/
def ItemBelow (fragments : Fragments) (root : String) (index : Nat) : Prop :=
  ∃ item, fragments.items[index]? = some item ∧
    ∃ table ∈ item.reads, HangsOff fragments.sources root table

/-- A condition without parameters shares a column with what hangs off a relation. -/
def AlwaysBelow (fragments : Fragments) (root : String) : Prop :=
  ∃ condition ∈ fragments.conditions,
    ReadBelow fragments.sources root condition ∧ condition.conditionOn = []

open scoped Classical in
/-- The conditions that share a column with what hangs off a relation. -/
noncomputable def readersBelow (fragments : Fragments) (root : String) : List Fragment :=
  fragments.conditions.filter fun condition => ReadBelow fragments.sources root condition

open scoped Classical in
/-- What a source depends on is what the relations that hang off its own are read by: the items that
read them, in order, the parameters of the conditions that share a column with them, each once and
in order, and the columns to order by that are theirs. -/
structure NeededBelow (fragments : Fragments) (names order : List String) (root : String)
    (need : Need) : Prop where
  items_increasing : need.items.Pairwise (· < ·)
  mem_items : ∀ index, index ∈ need.items ↔ fragments.ItemBelow root index
  bound_once : need.bound.Nodup
  bound : need.bound = ((fragments.readersBelow root).flatMap fun condition =>
    condition.conditionOn.filterMap (names[·]?)).eraseDups
  order : need.order = order.filter fun column => OrderBelow fragments.sources root column

variable {fragments : Fragments} {names order : List String} {fragment : Fragment} {place : Nat}
  {root : String}

section

variable (named : SourcesNamed fragments.sources) (mem : fragment ∈ fragments.sources)
  (own : fragment.relation = some root)

include named mem own

theorem readAlways_iff_alwaysBelow :
    fragments.ReadAlways fragment ↔ fragments.AlwaysBelow root := by
  simp only [ReadAlways, AlwaysBelow, Reach.isReadBy_ofSource_iff named mem own, and_comm]

theorem filter_isReadBy_eq :
    fragments.conditions.filter (Reach.ofSource fragments.sources fragment).isReadBy =
      fragments.readersBelow root := by
  classical
  refine List.filter_congr ?_
  intro condition _
  rw [Bool.eq_iff_iff, decide_eq_true_iff]
  exact Reach.isReadBy_ofSource_iff named mem own

/-- With reasons, a source is needed for what is below it. -/
theorem neededBelow_sourceNeed (h : ¬ fragments.NeedsNoReason fragment place) :
    fragments.NeededBelow names order root
      (fragments.sourceNeed names order fragment place) := by
  constructor
  · rw [sourceNeed_of_reasons h]
    exact List.pairwise_lt_range.filter _
  · intro index
    simp only [mem_items_sourceNeed h, ItemBelow, Reach.mem_relations_ofSource named mem own]
  · rw [sourceNeed_of_reasons h]
    exact nodup_distinct _
  · rw [sourceNeed_of_reasons h, filter_isReadBy_eq named mem own, distinct_eq_eraseDups]
    rfl
  · classical
    rw [sourceNeed_of_reasons h]
    refine List.filter_congr ?_
    intro column _
    rw [Bool.eq_iff_iff, decide_eq_true_iff]
    exact Reach.orders_ofSource_iff named mem own

end

/-- The walk through what hangs off a source ends, with all of it and nothing else. The source
depends on nothing if a condition without parameters shares a column with it, and otherwise on just
what reads it. -/
theorem needs_of_source (names order : List String) (named : SourcesNamed fragments.sources)
    (here : fragments.sources[place]? = some fragment) (own : fragment.relation = some root)
    (later : ¬ (place = 0 ∧ fragment.parent = none)) :
    (∃ reach, Reach.Collects fragments.sources 0 ⟨[root], fragment.fields⟩ reach ∧
      (∀ relation, relation ∈ reach.relations ↔ HangsOff fragments.sources root relation) ∧
      ∀ field, field ∈ reach.fields ↔ FieldBelow fragments.sources root field) ∧
    ∃ need, (fragments.needs names order).sources[place]? = some need ∧
      need.text = fragment.text ∧
      need.parameters = fragment.parameters.filterMap (names[·]?) ∧
      (fragments.AlwaysBelow root → need.items = [] ∧ need.bound = [] ∧ need.order = []) ∧
      (¬ fragments.AlwaysBelow root → fragments.NeededBelow names order root need) := by
  have mem := List.mem_of_getElem? here
  have halways := readAlways_iff_alwaysBelow named mem own
  refine ⟨⟨Reach.ofSource fragments.sources fragment, .ofSource named mem own,
    fun relation => Reach.mem_relations_ofSource named mem own,
    fun field => Reach.mem_fields_ofSource named mem own⟩, ?_⟩
  refine ⟨fragments.sourceNeed names order fragment place, ?_, ?_⟩
  · rw [getElem?_sources_needs, here]
    rfl
  -- what is always read needs no reason
  by_cases h : fragments.AlwaysBelow root
  · rw [sourceNeed_of_needsNoReason (.inr (halways.2 h))]
    exact ⟨rfl, rfl, fun _ => ⟨rfl, rfl, rfl⟩, fun hnot => absurd h hnot⟩
  · have hreasons : ¬ fragments.NeedsNoReason fragment place :=
      not_or.2 ⟨later, mt halways.1 h⟩
    refine ⟨?_, ?_, fun habove => absurd habove h,
      fun _ => neededBelow_sourceNeed named mem own hreasons⟩
    · rw [sourceNeed_of_reasons hreasons]
    · rw [sourceNeed_of_reasons hreasons]
      rfl

end Fragments

/-! ## Two tables joined through each other -/

/-- Two tables that hang off each other, each read by an item and the latter by a condition with a
parameter. A condition without parameters reads the first table only. -/
def circularlyJoined : Fragments where
  ctes := []
  items := [columnFragment "m1.id" "m1" "id", columnFragment "m2.name" "m2" "name",
    columnFragment "m3.name" "m3" "name"]
  sources := [joinedFragment "FROM mytable1 m1" "m1" none ["id", "value"],
    joinedFragment "INNER JOIN mytable2 m2 ON m2.id = m3.id" "m2" (some "m3") ["id", "name"],
    joinedFragment "INNER JOIN mytable3 m3 ON m3.id = m2.id" "m3" (some "m2") ["id", "name"]]
  conditions := [{ text := "AND m1.value > 0", fields := [⟨"m1", "value"⟩] },
    { listedIds with conditionOn := [0, 7, 0] }]

/-- Each of the two tables is needed for what reads either. -/
theorem Fragments.needs_of_source_circularlyJoined :
    ∃ need, (circularlyJoined.needs ["ids"] ["M3.name", "m1.value", "id"]).sources[1]? = some need ∧
      need.items = [1, 2] ∧ need.bound = ["ids"] ∧ need.order = ["M3.name", "id"] ∧
      circularlyJoined.NeededBelow ["ids"] ["M3.name", "m1.value", "id"] "m2" need ∧
      HangsOff circularlyJoined.sources "m2" "m3" := by
  have named : SourcesNamed circularlyJoined.sources := by decide
  have here : circularlyJoined.sources[1]? = some circularlyJoined.sources[1] := rfl
  have own : circularlyJoined.sources[1].relation = some "m2" := rfl
  have hread : ¬ circularlyJoined.AlwaysBelow "m2" := by
    rw [← Fragments.readAlways_iff_alwaysBelow named (List.mem_of_getElem? here) own]
    decide
  obtain ⟨⟨reach, hwalk, hrelations, -⟩, need, hneed, -, -, -, hbelow⟩ :=
    Fragments.needs_of_source ["ids"] ["M3.name", "m1.value", "id"] named here own (by decide)
  have heq : need =
      { text := "INNER JOIN mytable2 m2 ON m2.id = m3.id"
        items := [1, 2]
        bound := ["ids"]
        order := ["M3.name", "id"] } := by
    rw [← Option.some.injEq, ← hneed]
    decide
  have hreach := hwalk.unique (.ofSource named (List.mem_of_getElem? here) own)
  refine ⟨need, hneed, by rw [heq], by rw [heq], by rw [heq], hbelow hread, ?_⟩
  rw [← hrelations, hreach]
  decide

end QuerySignature
