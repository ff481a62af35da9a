import QuerySignature.Proofs.Fragments.Reach

namespace QuerySignature

/-! # Which sources are kept

Whoever runs a dynamic query chooses items of the projection, parameters to bind and columns to
order by, and keeps the fragments that are needed for what was chosen. A source is of use only
together with the one that it hangs off, so that one should be kept with it.

- `Fragments.need_within_parent`: whatever needs a source needs the one that it hangs off, which
  else is always needed;
- `Fragments.kept_with_parent_iff`: a source is kept with what hangs off it under every choice,
  unless the latter is always kept for no reason but that nothing needs it in particular.
-/

/-- What is asked of a dynamic query: the items selected, the parameters bound and the columns that
the result is ordered by. -/
structure Choice where
  items : List Nat
  bound : List String
  order : List String
  deriving DecidableEq, Repr

/-- The choice of nothing. -/
def Choice.nothing : Choice := ⟨[], [], []⟩

namespace Need

/-- Whether a fragment is kept under a choice. -/
def isKept (need : Need) (choice : Choice) : Bool :=
  need.isRequired || need.items.any (· ∈ choice.items) || need.bound.any (· ∈ choice.bound) ||
    need.order.any (· ∈ choice.order)

/-- Whatever needs the one fragment needs the other. -/
structure Within (a b : Need) : Prop where
  items : a.items ⊆ b.items
  bound : a.bound ⊆ b.bound
  order : a.order ⊆ b.order

/-- A fragment is kept if it is always needed, or if something that needs it is chosen. -/
theorem isKept_iff {need : Need} {choice : Choice} :
    need.isKept choice = true ↔
      need.isRequired = true ∨ (∃ item ∈ need.items, item ∈ choice.items) ∨
        (∃ name ∈ need.bound, name ∈ choice.bound) ∨
          ∃ column ∈ need.order, column ∈ choice.order := by
  simp [isKept, or_assoc]

theorem isKept_of_isRequired {need : Need} {choice : Choice} (h : need.isRequired = true) :
    need.isKept choice = true :=
  isKept_iff.2 (.inl h)

/-- Under the choice of nothing only what is always needed is kept. -/
theorem isKept_nothing {need : Need} : need.isKept .nothing = need.isRequired := by
  rw [Bool.eq_iff_iff, isKept_iff]
  simp [Choice.nothing]

/-- A fragment chosen for something keeps the one that is needed for the same. -/
theorem Within.isKept {a b : Need} (h : a.Within b) {choice : Choice}
    (kept : a.isKept choice = true) : a.isRequired = true ∨ b.isKept choice = true := by
  rcases isKept_iff.1 kept with hrequired | ⟨item, hitem, hin⟩ | ⟨name, hname, hin⟩ |
    ⟨column, hcolumn, hin⟩
  · exact .inl hrequired
  · exact .inr (isKept_iff.2 (.inr (.inl ⟨item, h.items hitem, hin⟩)))
  · exact .inr (isKept_iff.2 (.inr (.inr (.inl ⟨name, h.bound hname, hin⟩))))
  · exact .inr (isKept_iff.2 (.inr (.inr (.inr ⟨column, h.order hcolumn, hin⟩))))

end Need

/-! ## Reading what is reached -/

namespace Reach

/-- What reads some of the columns reached reads some of those that a larger reach has. -/
theorem isReadBy_mono {a b : Reach} (h : a.fields ⊆ b.fields) {condition : Fragment}
    (reads : a.isReadBy condition = true) : b.isReadBy condition = true := by
  simp only [isReadBy, List.any_eq_true] at reads ⊢
  obtain ⟨field, hfield, own, hown, hsame⟩ := reads
  exact ⟨field, hfield, own, h hown, hsame⟩

theorem orders_mono {a b : Reach} (h : a.fields ⊆ b.fields) {column : String}
    (orders : a.orders column = true) : b.orders column = true := by
  simp only [Reach.orders, List.any_eq_true] at orders ⊢
  obtain ⟨field, hfield, hsame⟩ := orders
  exact ⟨field, h hfield, hsame⟩

section

variable {sources : List Fragment} (named : SourcesNamed sources) {child parent : Fragment}
  (hchild : child ∈ sources) (hparent : parent ∈ sources) {relation : String}
  (own : parent.relation = some relation) (link : child.parent = some relation)

include named hchild hparent own link

/-- A source reaches what a source below it reaches. -/
theorem relations_subset_of_link :
    (ofSource sources child).relations ⊆ (ofSource sources parent).relations := by
  obtain ⟨below, hbelow⟩ := Option.isSome_iff_exists.1 (named.isSome child hchild)
  have hlink : HangsOff sources relation below := .step .root hchild link hbelow
  intro other hother
  have hangs : HangsOff sources below other := (mem_relations_ofSource named hchild hbelow).1 hother
  exact (mem_relations_ofSource named hparent own).2 (hlink.trans hangs)

theorem fields_subset_of_link :
    (ofSource sources child).fields ⊆ (ofSource sources parent).fields := by
  obtain ⟨below, hbelow⟩ := Option.isSome_iff_exists.1 (named.isSome child hchild)
  have hlink : HangsOff sources relation below := .step .root hchild link hbelow
  intro field hfield
  obtain ⟨source, hsource, other, hangs, hname, hbring⟩ :=
    (mem_fields_ofSource named hchild hbelow).1 hfield
  exact (mem_fields_ofSource named hparent own).2
    ⟨source, hsource, other, hlink.trans hangs, hname, hbring⟩

end

end Reach

/-! ## What needs a source -/

namespace Fragments

variable {fragments : Fragments} {names order : List String} {fragment : Fragment} {index : Nat}

/-- A condition without parameters reads what a source reaches. -/
def ReadAlways (fragments : Fragments) (fragment : Fragment) : Prop :=
  ∃ condition ∈ fragments.conditions, condition.conditionOn = [] ∧
    (Reach.ofSource fragments.sources fragment).isReadBy condition = true

instance (fragments : Fragments) (fragment : Fragment) :
    Decidable (fragments.ReadAlways fragment) :=
  inferInstanceAs (Decidable (∃ condition ∈ fragments.conditions, condition.conditionOn = [] ∧
    (Reach.ofSource fragments.sources fragment).isReadBy condition = true))

/-- The first source and those that a condition without parameters reads need no reason. -/
def NeedsNoReason (fragments : Fragments) (fragment : Fragment) (index : Nat) : Prop :=
  (index = 0 ∧ fragment.parent = none) ∨ fragments.ReadAlways fragment

theorem any_readers_iff :
    ((fragments.conditions.filter (Reach.ofSource fragments.sources fragment).isReadBy).any
      fun condition => condition.conditionOn.isEmpty) = true ↔ fragments.ReadAlways fragment := by
  simp only [List.any_eq_true, List.mem_filter, List.isEmpty_iff, ReadAlways]
  constructor
  · rintro ⟨condition, ⟨hmem, hreads⟩, hfree⟩
    exact ⟨condition, hmem, hfree, hreads⟩
  · rintro ⟨condition, hmem, hfree, hreads⟩
    exact ⟨condition, ⟨hmem, hreads⟩, hfree⟩

theorem sourceNeed_of_needsNoReason (h : fragments.NeedsNoReason fragment index) :
    fragments.sourceNeed names order fragment index =
      { text := fragment.text, parameters := namesAt names fragment.parameters } := by
  unfold sourceNeed
  by_cases hfirst : index = 0 ∧ fragment.parent = none
  · rw [if_pos hfirst]
  · rw [if_neg hfirst]
    simp only [any_readers_iff.2 (h.resolve_left hfirst), if_true]

theorem isRequired_of_needsNoReason (h : fragments.NeedsNoReason fragment index) :
    (fragments.sourceNeed names order fragment index).isRequired = true := by
  rw [sourceNeed_of_needsNoReason h]
  rfl

section

variable (h : ¬ fragments.NeedsNoReason fragment index)

include h

theorem sourceNeed_of_reasons :
    fragments.sourceNeed names order fragment index =
      { text := fragment.text
        parameters := namesAt names fragment.parameters
        items := (List.range fragments.items.length).filter fun index =>
          fragments.items[index]?.any fun item =>
            item.reads.any fun table =>
              table ∈ (Reach.ofSource fragments.sources fragment).relations
        bound := distinct ((fragments.conditions.filter
          (Reach.ofSource fragments.sources fragment).isReadBy).flatMap
            fun condition => namesAt names condition.conditionOn)
        order := order.filter (Reach.ofSource fragments.sources fragment).orders } := by
  obtain ⟨hfirst, hreaders⟩ := not_or.1 h
  unfold sourceNeed
  rw [if_neg hfirst]
  simp only [mt any_readers_iff.1 hreaders, if_false, Bool.false_eq_true]

/-- A source is needed by the items that read a relation reached. -/
theorem mem_items_sourceNeed {place : Nat} :
    place ∈ (fragments.sourceNeed names order fragment index).items ↔
      ∃ item, fragments.items[place]? = some item ∧ ∃ table ∈ item.reads,
        table ∈ (Reach.ofSource fragments.sources fragment).relations := by
  rw [sourceNeed_of_reasons h]
  simp only [List.mem_filter, List.mem_range, Option.any_eq_true, List.any_eq_true,
    decide_eq_true_eq]
  constructor
  · rintro ⟨-, item, hitem, hreads⟩
    exact ⟨item, hitem, hreads⟩
  · rintro ⟨item, hitem, hreads⟩
    exact ⟨(List.getElem?_eq_some_iff.1 hitem).1, item, hitem, hreads⟩

/-- A source is needed by the parameters of the conditions that read a column reached. -/
theorem mem_bound_sourceNeed {name : String} :
    name ∈ (fragments.sourceNeed names order fragment index).bound ↔
      ∃ condition ∈ fragments.conditions,
        (Reach.ofSource fragments.sources fragment).isReadBy condition = true ∧
          name ∈ namesAt names condition.conditionOn := by
  rw [sourceNeed_of_reasons h]
  simp only [mem_distinct, List.mem_flatMap, List.mem_filter, and_assoc]

/-- A source is needed by the columns reached that the result may be ordered by. -/
theorem mem_order_sourceNeed {column : String} :
    column ∈ (fragments.sourceNeed names order fragment index).order ↔
      column ∈ order ∧ (Reach.ofSource fragments.sources fragment).orders column = true := by
  rw [sourceNeed_of_reasons h]
  exact List.mem_filter

end

/-! ## A source and the one that it hangs off -/

section

variable {child parent : Fragment} {place above : Nat} (named : SourcesNamed fragments.sources)
  (hchild : fragments.sources[place]? = some child)
  (hparent : fragments.sources[above]? = some parent) {relation : String}
  (own : parent.relation = some relation) (link : child.parent = some relation)

include named hchild hparent own link

/-- A condition that reads what a source reaches reads what the one above it reaches. -/
theorem ReadAlways.of_link (h : fragments.ReadAlways child) : fragments.ReadAlways parent := by
  obtain ⟨condition, hmem, hfree, hreads⟩ := h
  have hsub := Reach.fields_subset_of_link named (List.mem_of_getElem? hchild)
    (List.mem_of_getElem? hparent) own link
  exact ⟨condition, hmem, hfree, Reach.isReadBy_mono hsub hreads⟩

/-- Whatever needs a source needs the one that it hangs off, unless that one needs no reason. -/
theorem need_within_parent (names order : List String)
    (h : ¬ fragments.NeedsNoReason parent above) :
    (fragments.sourceNeed names order child place).Within
      (fragments.sourceNeed names order parent above) := by
  have hmem := List.mem_of_getElem? hchild
  have habove := List.mem_of_getElem? hparent
  have hrelations := Reach.relations_subset_of_link named hmem habove own link
  have hfields := Reach.fields_subset_of_link named hmem habove own link
  -- the source has a parent, and a condition that always reads it always reads the parent
  have hreasons : ¬ fragments.NeedsNoReason child place := by
    rintro (⟨-, hnone⟩ | hread)
    · rw [link] at hnone
      nomatch hnone
    · exact h (.inr (hread.of_link named hchild hparent own link))
  constructor
  · intro item hitem
    obtain ⟨fragment, hat, table, htable, hreached⟩ := (mem_items_sourceNeed hreasons).1 hitem
    exact (mem_items_sourceNeed h).2 ⟨fragment, hat, table, htable, hrelations hreached⟩
  · intro name hname
    obtain ⟨condition, hcondition, hreads, hbound⟩ := (mem_bound_sourceNeed hreasons).1 hname
    exact (mem_bound_sourceNeed h).2
      ⟨condition, hcondition, Reach.isReadBy_mono hfields hreads, hbound⟩
  · intro column hcolumn
    obtain ⟨hin, horders⟩ := (mem_order_sourceNeed hreasons).1 hcolumn
    exact (mem_order_sourceNeed h).2 ⟨hin, Reach.orders_mono hfields horders⟩

end

/-- What needs the source at a place. -/
theorem getElem?_sources_needs (fragments : Fragments) (names order : List String) (place : Nat) :
    (fragments.needs names order).sources[place]? =
      fragments.sources[place]?.map fun fragment =>
        fragments.sourceNeed names order fragment place := by
  simp only [needs, List.getElem?_map, List.getElem?_zipIdx, Option.map_map, Nat.zero_add]
  rfl

/-- Under every choice a source is kept with what hangs off it, exactly if the latter is not always
kept while the former is not. A condition without parameters that reads the one is no exception,
since it reads the other too. -/
theorem kept_with_parent_iff {child parent : Fragment} {place above : Nat}
    (named : SourcesNamed fragments.sources) (hchild : fragments.sources[place]? = some child)
    (hparent : fragments.sources[above]? = some parent) {relation : String}
    (own : parent.relation = some relation) (link : child.parent = some relation)
    {childNeed parentNeed : Need}
    (hchildNeed : (fragments.needs names order).sources[place]? = some childNeed)
    (hparentNeed : (fragments.needs names order).sources[above]? = some parentNeed) :
    (∀ choice, childNeed.isKept choice = true → parentNeed.isKept choice = true) ↔
      (childNeed.isRequired = true →
        fragments.ReadAlways child ∨ parentNeed.isRequired = true) := by
  rw [getElem?_sources_needs, hchild, Option.map_some, Option.some.injEq] at hchildNeed
  rw [getElem?_sources_needs, hparent, Option.map_some, Option.some.injEq] at hparentNeed
  subst hchildNeed hparentNeed
  constructor
  · intro kept hrequired
    -- under the choice of nothing only what is always needed is kept
    have hnothing := kept .nothing (Need.isKept_of_isRequired hrequired)
    rw [Need.isKept_nothing] at hnothing
    exact .inr hnothing
  · intro required choice kept
    by_cases hreason : fragments.NeedsNoReason parent above
    · exact Need.isKept_of_isRequired (isRequired_of_needsNoReason hreason)
    · -- the parent has all the reasons of the child, unless the child is kept for none
      have hwithin := need_within_parent named hchild hparent own link names order hreason
      rcases hwithin.isKept kept with hrequired | hkept
      · rcases required hrequired with hread | habove
        · exact absurd (.inr (hread.of_link named hchild hparent own link)) hreason
        · exact Need.isKept_of_isRequired habove
      · exact hkept

end Fragments

/-! ## Three tables in a chain -/

/-- A table joined through another, with the columns that it brings. -/
def joinedFragment (text relation : String) (parent : Option String) (columns : List String) :
    Fragment where
  text
  relation := some relation
  parent
  fields := columns.map fun column => ⟨relation, column⟩

/-- An item that is one column. -/
def columnFragment (text relation column : String) : Fragment :=
  { text, fields := [⟨relation, column⟩], reads := [relation] }

/-- A table, one joined to it, and one joined to that. -/
def chainedSources : List Fragment := [
  joinedFragment "FROM mytable1 m1" "m1" none ["id", "value"],
  joinedFragment "INNER JOIN mytable2 m2 ON m2.id = m1.id" "m2" (some "m1") ["id", "name"],
  joinedFragment "INNER JOIN mytable3 m3 ON m3.id = m2.id" "m3" (some "m2") ["id", "name"]]

/-- A condition on the last of the tables, with one parameter. -/
def listedIds : Fragment :=
  { text := "AND m3.id IN (:ids)", fields := [⟨"m3", "id"⟩], conditionOn := [0], parameters := [0] }

/-- Every table of the chain is read: the last one by a condition. -/
def chainWithReaders : Fragments where
  ctes := []
  items := [columnFragment "m1.id" "m1" "id", columnFragment "m2.name" "m2" "name"]
  sources := chainedSources
  conditions := [listedIds]

/-- Nothing reads the last table of the chain. -/
def chainWithUnread : Fragments := { chainWithReaders with conditions := [] }

/-- The table joined last is kept for the parameter of the condition that reads it, and so is the
one in the middle. -/
theorem Fragments.kept_with_parent_iff_chainWithReaders :
    ∃ child parent, (chainWithReaders.needs ["ids"] []).sources[2]? = some child ∧
      (chainWithReaders.needs ["ids"] []).sources[1]? = some parent ∧
      child.isKept ⟨[0], ["ids"], []⟩ = true ∧ child.isKept ⟨[0], [], []⟩ = false ∧
      ∀ choice, child.isKept choice = true → parent.isKept choice = true := by
  have named : SourcesNamed chainWithReaders.sources := by decide
  have hchild : (chainWithReaders.needs ["ids"] []).sources[2]? =
      some { text := "INNER JOIN mytable3 m3 ON m3.id = m2.id", bound := ["ids"] } := by decide
  have hparent : (chainWithReaders.needs ["ids"] []).sources[1]? = some
      { text := "INNER JOIN mytable2 m2 ON m2.id = m1.id", items := [1], bound := ["ids"] } := by
    decide
  have hsource : chainWithReaders.sources[2]? = some chainedSources[2] := rfl
  have habove : chainWithReaders.sources[1]? = some chainedSources[1] := rfl
  have own : chainedSources[1].relation = some "m2" := rfl
  have hiff := Fragments.kept_with_parent_iff named hsource habove own rfl hchild hparent
  refine ⟨_, _, hchild, hparent, by decide, by decide, ?_⟩
  exact hiff.2 (by decide)

/-- With the first item alone, the table that nothing reads is kept, and the one through which it is
joined is not. -/
theorem unread_source_kept_alone :
    SourcesNamed chainWithUnread.sources ∧
      (∀ place < 3, 0 < place → ∃ child ∈ chainWithUnread.sources[place]?,
        ∃ parent ∈ chainWithUnread.sources[place - 1]?, child.parent = parent.relation) ∧
      ∃ child parent, (chainWithUnread.needs [] []).sources[2]? = some child ∧
        (chainWithUnread.needs [] []).sources[1]? = some parent ∧
        child.isKept ⟨[0], [], []⟩ = true ∧ parent.isKept ⟨[0], [], []⟩ = false := by
  refine ⟨by decide, by decide, { text := "INNER JOIN mytable3 m3 ON m3.id = m2.id" },
    { text := "INNER JOIN mytable2 m2 ON m2.id = m1.id", items := [1] }, ?_⟩
  decide

end QuerySignature
