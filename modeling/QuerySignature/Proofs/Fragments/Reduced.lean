import QuerySignature.Proofs.Described
import QuerySignature.Proofs.Fragments.Kept
import QuerySignature.Proofs.Fragments.Reads

namespace QuerySignature

/-! # Reduced queries

When only some items of a dynamic query are selected and only some of its parameters bound, the
sources that the kept items and conditions read must be kept with them.

- `Fragments.keepsSource_of_item`, `Fragments.keepsSource_of_condition`: whatever is kept keeps the
  sources that it reads, as its fragment tells;
- `describeAnnotated_keeps_read`: so it keeps the sources that its references mean, as far as these
  are written the way they are in FROM;
- `respelled_label_loses_source`: an item that writes the label of a source in another case does not
  keep the source.
-/

/-- Whether the source at a place is kept under a choice. -/
def Needs.keepsSource (needs : Needs) (choice : Choice) (place : Nat) : Bool :=
  needs.sources[place]?.any fun need => need.isKept choice

/-- What is kept when nothing is chosen is kept under every choice. -/
theorem Needs.keepsSource_of_nothing {needs : Needs} {place : Nat}
    (h : needs.keepsSource .nothing place = true) (choice : Choice) :
    needs.keepsSource choice place = true := by
  rcases (Option.any_eq_true _ _).1 h with ⟨need, hneed, hrequired⟩
  rw [Need.isKept_nothing] at hrequired
  exact (Option.any_eq_true _ _).2 ⟨need, hneed, Need.isKept_of_isRequired hrequired⟩

/-- Whether the condition at a place is kept under a choice: all its parameters are bound. -/
def Needs.keepsCondition (needs : Needs) (choice : Choice) (place : Nat) : Bool :=
  needs.conditions[place]?.any fun need => need.bound.all (· ∈ choice.bound)

/-! ## Readers keep sources -/

theorem lt_length_of_parameterIndexes {text : String} {names : List String} {index : Nat}
    (h : index ∈ parameterIndexes text names) : index < names.length := by
  obtain ⟨name, -, hfind⟩ := List.mem_filterMap.1 h
  exact (List.findIdx?_eq_some_iff_getElem.1 hfind).1

namespace Fragments

variable {fragments : Fragments} {names order : List String} {choice : Choice} {place : Nat}
  {fragment : Fragment}

theorem keepsSource_eq (hat : fragments.sources[place]? = some fragment) :
    (fragments.needs names order).keepsSource choice place =
      (fragments.sourceNeed names order fragment place).isKept choice := by
  simp [Needs.keepsSource, getElem?_sources_needs, hat]

theorem keepsCondition_iff {condition : Fragment}
    (hat : fragments.conditions[place]? = some condition) :
    (fragments.needs names order).keepsCondition choice place = true ↔
      namesAt names condition.conditionOn ⊆ choice.bound := by
  have hneed : (fragments.needs names order).conditions[place]? =
      some (conditionNeed names condition) := by
    simp [needs, hat]
  simp [Needs.keepsCondition, hneed, conditionNeed, mem_distinct, List.subset_def]

/-- A source that needs a reason is kept for what is chosen among its reasons. -/
theorem keepsSource_of_reason (hat : fragments.sources[place]? = some fragment)
    (h : ¬ fragments.NeedsNoReason fragment place →
      (∃ index ∈ (fragments.sourceNeed names order fragment place).items, index ∈ choice.items) ∨
        ∃ name ∈ (fragments.sourceNeed names order fragment place).bound, name ∈ choice.bound) :
    (fragments.needs names order).keepsSource choice place = true := by
  rw [keepsSource_eq hat]
  by_cases hreason : fragments.NeedsNoReason fragment place
  · exact Need.isKept_of_isRequired (isRequired_of_needsNoReason hreason)
  · rcases h hreason with hitem | hbound
    · exact Need.isKept_iff.2 (.inr (.inl hitem))
    · exact Need.isKept_iff.2 (.inr (.inr (.inl hbound)))

/-- A selected item keeps the sources that it reads. -/
theorem keepsSource_of_item (hat : fragments.sources[place]? = some fragment) {relation : String}
    (own : fragment.relation = some relation) {index : Nat} {item : Fragment}
    (hitem : fragments.items[index]? = some item) (hreads : relation ∈ item.reads)
    (hchosen : index ∈ choice.items) :
    (fragments.needs names order).keepsSource choice place = true := by
  refine keepsSource_of_reason hat fun hreason => .inl ⟨index, ?_, hchosen⟩
  have hreached := Reach.relation_mem_ofSource fragments.sources own
  exact (mem_items_sourceNeed hreason).2 ⟨item, hitem, relation, hreads, hreached⟩

/-- A condition whose parameters are all bound keeps the sources that it reads. -/
theorem keepsSource_of_condition (hat : fragments.sources[place]? = some fragment)
    {condition : Fragment} (hmem : condition ∈ fragments.conditions)
    (hrange : ∀ index ∈ condition.conditionOn, index < names.length)
    {own field : TableField} (hown : own ∈ fragment.fields) (hfield : field ∈ condition.fields)
    (hsame : own.sameAs field = true)
    (hbound : namesAt names condition.conditionOn ⊆ choice.bound) :
    (fragments.needs names order).keepsSource choice place = true := by
  have hreads : (Reach.ofSource fragments.sources fragment).isReadBy condition = true := by
    simp only [Reach.isReadBy, List.any_eq_true]
    exact ⟨field, hfield, own, Reach.fields_subset_ofSource _ _ hown, hsame⟩
  refine keepsSource_of_reason hat fun hreason => .inr ?_
  cases hon : condition.conditionOn with
  | nil => exact absurd (.inr ⟨condition, hmem, hon, hreads⟩) hreason
  | cons index rest =>
    -- the first parameter of the condition has a name, and that name is bound
    have hlt : index < names.length := hrange index (by simp [hon])
    have hname : names[index] ∈ namesAt names condition.conditionOn := by
      refine List.mem_filterMap.2 ⟨index, by simp [hon], ?_⟩
      exact List.getElem?_eq_getElem hlt
    refine ⟨names[index], ?_, hbound hname⟩
    exact (mem_bound_sourceNeed hreason).2 ⟨condition, hmem, hreads, hname⟩

end Fragments

/-! ## Annotated descriptions -/

/-- The needs in a description are those of the query's fragments. -/
theorem needs_of_described {setting : Setting} {sql : String} {q : Select} {d : Description}
    {needs : Needs} (hd : describeAnnotated setting sql (.select q) = .ok d)
    (hneeds : d.needs = some needs) :
    ∃ plain names order fragments, describe setting (.select q) = .ok plain ∧
      Fragments.ofQuery setting.schema names q = .ok fragments ∧
      needs = fragments.needs names order := by
  obtain ⟨plain, hplain, hd⟩ := bind_eq_ok.1 hd
  dsimp only at hd
  split at hd
  case isTrue =>
    obtain ⟨found, hfound, hd⟩ := bind_eq_ok.1 hd
    cases hd
    obtain rfl : found = some needs := hneeds
    unfold Select.needs at hfound
    cases hcut : Fragments.ofQuery setting.schema (namedParameters q.text) q with
    | error e => simp [hcut, Except.map] at hfound
    | ok fragments =>
      simp only [hcut, Except.map, Except.ok.injEq, Option.some.injEq] at hfound
      exact ⟨plain, _, _, fragments, hplain, hcut, hfound.symm⟩
  case isFalse =>
    cases hd
    cases hneeds

/-- A kept item or condition of a dynamic query keeps the source that a reference in it means, if
the columns of the source are named and the reference is written without a table or with the label
of the source. An item must spell that label as it is in FROM. -/
theorem describeAnnotated_keeps_read {setting : Setting} {sql : String} {q : Select}
    {branch : Branch} {rest : List Branch} {d : Description} {needs : Needs}
    (hd : describeAnnotated setting sql (.select q) = .ok d) (hneeds : d.needs = some needs)
    (hbranch : q.branches = branch :: rest) (hnamed : CtesNamed q.ctes)
    (hlabels : LabelsAlike branch.clause) :
    ∃ parts, q.parts? setting = some parts ∧ (SharesSeen branch.clause parts →
      ∀ (choice : Choice) (c : ColumnRef) (place : Nat) (step : Source × JoinCondition),
        sourceOf? parts c = some place → branch.clause[place]? = some step →
        step.1.namesColumns q.ctes = true →
        (c.qualifier.isEmpty = true ∨ sameName c.qualifier step.1.label = true) →
        (∀ index ∈ choice.items, ∀ value aliasName,
          branch.items[index]? = some (.expr value aliasName) → c ∈ value.columns →
            value.Spells step.1.label → needs.keepsSource choice place = true) ∧
        (∀ index condition, branch.conditions[index]? = some condition → c ∈ condition.columns →
          needs.keepsCondition choice index = true → needs.keepsSource choice place = true)) := by
  obtain ⟨plain, names, order, fragments, hplain, hcut, rfl⟩ := needs_of_described hd hneeds
  obtain ⟨result, run, solution, hwalk, -, -⟩ := describe_select_iff.1 hplain
  obtain ⟨parts, behind, -, -, hparts?, hctes, -, -, hparts⟩ := exists_parts hbranch hwalk
  obtain ⟨hsources, hitems, hconditions⟩ := Fragments.ofQuery_eq_ok hbranch hcut
  have hseen := seenAs_of_walk hnamed hctes hparts hsources
  have hlength : fragments.sources.length = branch.clause.length := by
    rw [← hsources.length_eq, ← map_fst_clause, List.length_map]
  refine ⟨parts, hparts?, ?_⟩
  intro hshares choice c place step hmeans hstep heverything hwritten
  obtain ⟨part, fragment, -, hfragment, hview⟩ := hseen place step hstep
  -- the cutting takes the reference for a column of the source that the walk finds
  obtain ⟨field, hfield, htable, own, hown, hsame⟩ :=
    hseen.exists_fieldOf? hshares hlength hmeans hstep heverything hwritten hfragment
  constructor
  · intro index hchosen value aliasName hitem hc hspells
    have hreads :=
      hseen.label_mem_reads hlength hlabels hstep hfield htable hc hspells names aliasName
    have hat : fragments.items[index]? =
        some (itemFragment names fragments.sources (.expr value aliasName)) := by
      rw [hitems, List.getElem?_map, hitem]
      rfl
    exact Fragments.keepsSource_of_item hfragment hview.relation hat hreads hchosen
  · intro index condition hcondition hc hkept
    obtain ⟨found, hfound, hfoundSame⟩ := exists_sameAs_fieldsOf hc hfield
    have hat : fragments.conditions[index]? =
        some (conditionFragment names (knownFields fragments.sources) condition) := by
      rw [hconditions, List.getElem?_map, hcondition]
      rfl
    have hbound := (Fragments.keepsCondition_iff hat).1 hkept
    exact Fragments.keepsSource_of_condition hfragment (List.mem_of_getElem? hat)
      (fun _ hin => lt_length_of_parameterIndexes hin) hown hfound
      (TableField.sameAs_trans hsame (TableField.sameAs_symm hfoundSame)) hbound

/-! ## Names of numbers -/

/-- Numbers, and their names in a table of their own. -/
def numberTables : Schema :=
  .ofRecords [⟨"numbers", "id", .int, .primary, true⟩, ⟨"names", "id", .int, .primary, true⟩,
    ⟨"names", "name", .varchar, .plain, false⟩]

/-- `SELECT items FROM numbers n INNER JOIN names m ON m.id = n.id WHERE m.id = :id`. -/
def namedNumbers (items : List ColumnRef) : Select :=
  let id (table : String) : Expr := .column ⟨some table, "id"⟩
  ⟨[], [⟨false, items.map fun c => .expr (.column c) none, [.table "numbers" (some "n")],
    [⟨.inner, .table "names" (some "m"), .predicate (.compare .eq (id "m") (id "n"))⟩],
    some (.compare .eq (id "m") (.parameter (some "id"))), [], none⟩], [], none⟩

/-- A text that asks for the needs of a query's fragments. -/
def dynamicText : String := "-- @dynamicQuery"

/-- The needs of `namedNumbers` with an item that reads each table. -/
def namedNumbersNeeds : Needs where
  ctes := []
  items := [{ text := "n.id", items := [0] }, { text := "name", items := [1] }]
  sources := [{ text := "FROM numbers n" },
    { text := "INNER JOIN names m ON m.id = n.id", items := [1], bound := ["id"] }]
  conditions := [{ text := "AND m.id = :id", bound := ["id"], parameters := ["id"] }]

/-- The names are kept with the item that reads them, and with the condition when its parameter is
bound. -/
theorem describeAnnotated_keeps_read_namedNumbers :
    ∃ d, describeAnnotated ⟨numberTables, .mysql⟩ dynamicText
        (.select (namedNumbers [⟨some "n", "id"⟩, ⟨none, "name"⟩])) = .ok d ∧
      d.needs = some namedNumbersNeeds ∧
      namedNumbersNeeds.keepsSource ⟨[0], [], []⟩ 1 = false ∧
      namedNumbersNeeds.keepsSource ⟨[1], [], []⟩ 1 = true ∧
      namedNumbersNeeds.keepsSource ⟨[0], ["id"], []⟩ 1 = true := by
  obtain ⟨d, hd⟩ := exists_of_isOk (x := describeAnnotated ⟨numberTables, .mysql⟩ dynamicText
    (.select (namedNumbers [⟨some "n", "id"⟩, ⟨none, "name"⟩]))) (by decide +kernel)
  have hneeds : (describeAnnotated ⟨numberTables, .mysql⟩ dynamicText
      (.select (namedNumbers [⟨some "n", "id"⟩, ⟨none, "name"⟩]))).toOption.bind (·.needs) =
        some namedNumbersNeeds := by decide +kernel
  rw [hd] at hneeds
  obtain ⟨parts, hparts, hkeeps⟩ :=
    describeAnnotated_keeps_read hd hneeds rfl (by decide) (by decide)
  -- the item and the condition mean the second source
  have hmeans : ∀ c ∈ [(⟨none, "name"⟩ : ColumnRef), ⟨some "m", "id"⟩],
      ((namedNumbers [⟨some "n", "id"⟩, ⟨none, "name"⟩]).parts? ⟨numberTables, .mysql⟩).bind
        (fun parts => sourceOf? parts c) = some 1 := by decide +kernel
  rw [hparts] at hmeans
  -- neither join has shared columns
  have hkeeps := hkeeps (by
    intro place step names hstep hshared
    match place with
    | 0 =>
      cases hstep
      cases hshared
    | 1 =>
      cases hstep
      cases hshared)
  have hitem := hkeeps ⟨[1], [], []⟩ ⟨none, "name"⟩ 1 _ (hmeans _ (by simp)) rfl rfl (by decide)
  have hcondition := hkeeps ⟨[0], ["id"], []⟩ ⟨some "m", "id"⟩ 1 _ (hmeans _ (by simp)) rfl rfl
    (by decide)
  refine ⟨d, hd, hneeds, by decide, ?_, ?_⟩
  · exact hitem.1 1 (by decide) _ none rfl (by decide) (by decide)
  · exact hcondition.2 0 _ rfl (by decide) (by decide)

/-- `M.name` means a column of the names, which are written `m` in FROM. Selected alone, it does not
keep them. -/
theorem respelled_label_loses_source :
    (describeAnnotated ⟨numberTables, .mysql⟩ dynamicText
      (.select (namedNumbers [⟨some "n", "id"⟩, ⟨some "M", "name"⟩]))).toOption.any
        (fun d => d.needs.any fun needs => !needs.keepsSource ⟨[1], [], []⟩ 1) = true ∧
    ((namedNumbers [⟨some "n", "id"⟩, ⟨some "M", "name"⟩]).parts? ⟨numberTables, .mysql⟩).bind
      (fun parts => sourceOf? parts ⟨some "M", "name"⟩) = some 1 := by
  decide +kernel

end QuerySignature
