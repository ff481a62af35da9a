import QuerySignature.Proofs.Fragments.Cut
import QuerySignature.Proofs.Sources.Parts

namespace QuerySignature

/-! # What a reference is taken for

What a reference reads is found twice: by the walk over a query, which resolves it among the visible
columns, and by the cutting into fragments, which goes by the names as they are written. The two
agree on a reference outside of inner queries if

- the reference is written without a table, or with the label of its source;
- the columns of its source are named, and not only brought by a star;
- no column is shared by USING that no earlier source has, and no two common tables share a name.

The main facts:

- `seenAs_of_walk`: each source of a clause is one part of what is visible, and one fragment;
- `SeenAs.exists_fieldOf?`: a reference is taken for a column that its source brings;
- `SeenAs.label_mem_reads`: an item reads the sources of its references, under their labels.
-/

/-! ## Sources seen twice -/

/-- A source as the walk and the cutting see it: the part that it makes visible, and the fragment
that brings it. -/
structure SourceView (ctes : List Cte) (step : Source × JoinCondition) (part : Level)
    (fragment : Fragment) : Prop where
  relation : fragment.relation = some step.1.label
  tables : ∀ field ∈ fragment.fields, field.table = step.1.label
  names : ∃ level : Level, part.map (·.name) = (step.2.added level).map (·.name) ∧
    ReadOff (fragment.fields.map (·.field)) (level.map (·.name)) (step.1.namesColumns ctes)

/-- Every column that a USING list shares is one of an earlier source. -/
def SharesSeen (steps : List (Source × JoinCondition)) (parts : List Level) : Prop :=
  ∀ (place : Nat) (step : Source × JoinCondition) (names : List String), steps[place]? = some step →
    step.2 = .shared names → ∀ name ∈ names,
      ∃ earlier < place, ∃ part : Level, parts[earlier]? = some part ∧
        ∃ column ∈ part, sameName name column.name = true

/-- The sources of a clause are seen as its parts and its fragments. -/
def SeenAs (ctes : List Cte) (steps : List (Source × JoinCondition)) (parts : List Level)
    (sources : List Fragment) : Prop :=
  ∀ (place : Nat) (step : Source × JoinCondition), steps[place]? = some step →
    ∃ part fragment, parts[place]? = some part ∧ sources[place]? = some fragment ∧
      SourceView ctes step part fragment

namespace SourceView

variable {ctes : List Cte} {step : Source × JoinCondition} {part : Level} {fragment : Fragment}

/-- If the columns of a source are named, its fragment brings each that is visible. -/
theorem exists_field (h : SourceView ctes step part fragment)
    (heverything : step.1.namesColumns ctes = true) {column : SourceColumn} (hmem : column ∈ part) :
    ∃ field ∈ fragment.fields, field.field = column.name := by
  obtain ⟨level, hpart, hnames⟩ := h.names
  have hname : column.name ∈ (step.2.added level).map (·.name) :=
    hpart ▸ List.mem_map_of_mem hmem
  have hlevel : column.name ∈ level.map (·.name) := by
    obtain ⟨found, hfound, hsame⟩ := List.mem_map.1 hname
    have hin : found ∈ level := by
      cases hcondition : step.2 with
      | shared shared =>
        rw [hcondition] at hfound
        exact List.mem_of_mem_filter hfound
      | predicate | unconditional => simpa [hcondition, JoinCondition.added] using hfound
    exact List.mem_map.2 ⟨found, hin, hsame⟩
  rw [← hnames.eq heverything] at hlevel
  exact List.mem_map.1 hlevel

/-- A column that a fragment brings is visible, unless a USING list shares it. -/
theorem exists_column (h : SourceView ctes step part fragment) {field : TableField}
    (hmem : field ∈ fragment.fields) :
    (∃ column ∈ part, column.name = field.field) ∨
      ∃ names, step.2 = .shared names ∧ ∃ name ∈ names, sameName name field.field = true := by
  obtain ⟨level, hpart, hnames⟩ := h.names
  have hlevel : field.field ∈ level.map (·.name) :=
    hnames.sublist.subset (List.mem_map_of_mem hmem)
  obtain ⟨found, hfound, hsame⟩ := List.mem_map.1 hlevel
  -- only a USING list keeps a column of the source from being visible
  have hvisible : found ∈ step.2.added level → ∃ column ∈ part, column.name = field.field := by
    intro hadded
    have hname : field.field ∈ part.map (·.name) := by
      rw [hpart]
      exact List.mem_map.2 ⟨found, hadded, hsame⟩
    exact List.mem_map.1 hname
  cases hcondition : step.2 with
  | predicate | unconditional =>
    refine .inl (hvisible ?_)
    simpa [hcondition, JoinCondition.added] using hfound
  | shared names =>
    cases hshared : found.isShared names with
    | true =>
      obtain ⟨name, hname, hwritten⟩ := List.any_eq_true.1 hshared
      exact .inr ⟨names, rfl, name, hname, hsame ▸ hwritten⟩
    | false =>
      refine .inl (hvisible ?_)
      rw [hcondition]
      exact List.mem_filter.2 ⟨hfound, by simp [hshared]⟩

end SourceView

section

variable {ctes : List Cte} {steps : List (Source × JoinCondition)} {parts : List Level}
  {sources : List Fragment} {c : ColumnRef} {place : Nat} {step : Source × JoinCondition}

theorem answers_of_isEmpty (hempty : c.qualifier.isEmpty = true) (column : SourceColumn) :
    column.answers c.qualifier c.name = sameName column.name c.name := by
  simp [SourceColumn.answers, hempty]

namespace SeenAs

variable (hseen : SeenAs ctes steps parts sources)

include hseen

/-- The part beside a fragment. -/
theorem exists_part (hstep : steps[place]? = some step) {fragment : Fragment}
    (hfragment : sources[place]? = some fragment) :
    ∃ part, parts[place]? = some part ∧ SourceView ctes step part fragment := by
  obtain ⟨part, fragment', hpart, hfragment', hview⟩ := hseen place step hstep
  obtain rfl : fragment = fragment' := Option.some.inj (hfragment.symm.trans hfragment')
  exact ⟨part, hpart, hview⟩

/-- The source that a reference means brings a column of its name, if its columns are named. -/
theorem exists_own (hmeans : sourceOf? parts c = some place) (hstep : steps[place]? = some step)
    (heverything : step.1.namesColumns ctes = true) {fragment : Fragment}
    (hfragment : sources[place]? = some fragment) :
    ∃ own ∈ fragment.fields, sameName own.field c.name = true := by
  obtain ⟨part, hpart, hview⟩ := hseen.exists_part hstep hfragment
  obtain ⟨⟨part', hpart', column, hcolumn, hanswers⟩, -⟩ := first_of_sourceOf? hmeans
  obtain rfl : part = part' := Option.some.inj (hpart.symm.trans hpart')
  obtain ⟨own, hown, hname⟩ := hview.exists_field heverything hcolumn
  simp only [SourceColumn.answers, Bool.and_eq_true] at hanswers
  exact ⟨own, hown, hname ▸ hanswers.1⟩

/-- No source before the one that a reference without a table means brings a column of its name. -/
theorem not_sameName_before (hshares : SharesSeen steps parts)
    (hlength : sources.length = steps.length) (hempty : c.qualifier.isEmpty = true)
    (hmeans : sourceOf? parts c = some place) {j : Nat} (hj : j < place) {earlier : Fragment}
    (hearlier : sources[j]? = some earlier) {field : TableField} (hfield : field ∈ earlier.fields) :
    sameName field.field c.name = false := by
  by_contra hsame
  have hsame : sameName field.field c.name = true := by simpa using hsame
  have hbefore : ∀ i < place, ∀ found, parts[i]? = some found → ∀ column ∈ found,
      sameName column.name c.name = false := by
    intro i hi found hfound column hcolumn
    rw [← answers_of_isEmpty hempty]
    exact (first_of_sourceOf? hmeans).2 i hi found hfound column hcolumn
  have hlt : j < steps.length := by
    rw [← hlength]
    exact (List.getElem?_eq_some_iff.1 hearlier).1
  have hstep : steps[j]? = some steps[j] := List.getElem?_eq_getElem hlt
  obtain ⟨part, hpart, hview⟩ := hseen.exists_part hstep hearlier
  rcases hview.exists_column hfield with ⟨column, hcolumn, hname⟩ |
    ⟨names, hshared, name, hmem, hname⟩
  · -- the column is visible, and would be what the reference means
    have hnot := hbefore j hj part hpart column hcolumn
    rw [hname, hsame] at hnot
    cases hnot
  · -- the column is shared with a source that is earlier still
    obtain ⟨i, hi, found, hfound, column, hcolumn, hcolumnName⟩ :=
      hshares j _ names hstep hshared name hmem
    have hnot := hbefore i (by omega) found hfound column hcolumn
    have hyes := sameName_trans (sameName_symm hcolumnName) (sameName_trans hname hsame)
    rw [hyes] at hnot
    cases hnot

/-- A reference that is written without a table, or with the label of its source, is taken for a
column that its source brings. -/
theorem exists_fieldOf? (hshares : SharesSeen steps parts) (hlength : sources.length = steps.length)
    (hmeans : sourceOf? parts c = some place) (hstep : steps[place]? = some step)
    (heverything : step.1.namesColumns ctes = true)
    (hwritten : c.qualifier.isEmpty = true ∨ sameName c.qualifier step.1.label = true)
    {fragment : Fragment} (hfragment : sources[place]? = some fragment) :
    ∃ field, fieldOf? (knownFields sources) c = some field ∧
      sameName field.table step.1.label = true ∧
        ∃ own ∈ fragment.fields, own.sameAs field = true := by
  obtain ⟨part, hpart, hview⟩ := hseen.exists_part hstep hfragment
  obtain ⟨own, hown, hname⟩ := hseen.exists_own hmeans hstep heverything hfragment
  cases hempty : c.qualifier.isEmpty with
  | true =>
    -- the first known column of the name is one that the source brings
    obtain ⟨field, hfield, hfind⟩ := knownFields_find? hfragment hown hname
      fun j hj earlier hearlier _ hmem =>
        hseen.not_sameName_before hshares hlength hempty hmeans hj hearlier hmem
    refine ⟨field, ?_, ?_, field, hfield, field.sameAs_refl⟩
    · simpa [fieldOf?, hempty] using hfind
    · rw [hview.tables field hfield]
      exact sameName_refl _
  | false =>
    have hlabel : sameName c.qualifier step.1.label = true := by simpa [hempty] using hwritten
    refine ⟨⟨c.qualifier, c.name⟩, by simp [fieldOf?, hempty], hlabel, own, hown, ?_⟩
    simp only [TableField.sameAs, Bool.and_eq_true]
    rw [hview.tables own hown]
    exact ⟨sameName_symm hlabel, hname⟩

end SeenAs

/-! ## Items -/

/-- No two labels of a clause differ in case only. -/
def LabelsAlike (steps : List (Source × JoinCondition)) : Prop :=
  ∀ a ∈ steps, ∀ b ∈ steps, sameName a.1.label b.1.label = true → a.1.label = b.1.label

instance (steps : List (Source × JoinCondition)) : Decidable (LabelsAlike steps) :=
  inferInstanceAs (Decidable (∀ a ∈ steps, ∀ b ∈ steps,
    sameName a.1.label b.1.label = true → a.1.label = b.1.label))

/-- Wherever an expression writes a label, it writes it in the given case. -/
def Expr.Spells (e : Expr) (label : String) : Prop :=
  ∀ c ∈ e.columns, sameName c.qualifier label = true → c.qualifier = label

instance (e : Expr) (label : String) : Decidable (e.Spells label) :=
  inferInstanceAs (Decidable (∀ c ∈ e.columns, sameName c.qualifier label = true →
    c.qualifier = label))

/-- Known columns carry the label of a source. -/
theorem SeenAs.label_of_known (hseen : SeenAs ctes steps parts sources)
    (hlength : sources.length = steps.length) {field : TableField}
    (hfield : field ∈ knownFields sources) : ∃ step ∈ steps, field.table = step.1.label := by
  obtain ⟨fragment, hmem, hbrings⟩ := List.mem_flatMap.1 hfield
  obtain ⟨j, hlt, hat⟩ := List.mem_iff_getElem.1 hmem
  have hstep : steps[j]? = some steps[j] := List.getElem?_eq_getElem (hlength ▸ hlt)
  have hfragment : sources[j]? = some fragment := List.getElem?_eq_some_iff.2 ⟨hlt, hat⟩
  obtain ⟨part, -, hview⟩ := hseen.exists_part hstep hfragment
  exact ⟨_, List.mem_of_getElem? hstep, hview.tables field hbrings⟩

/-- An item that spells the label of a source reads the source if one of its references means it. -/
theorem SeenAs.label_mem_reads (hseen : SeenAs ctes steps parts sources)
    (hlength : sources.length = steps.length) (hlabels : LabelsAlike steps)
    (hstep : steps[place]? = some step) {field : TableField}
    (hfield : fieldOf? (knownFields sources) c = some field)
    (htable : sameName field.table step.1.label = true) {value : Expr} (hc : c ∈ value.columns)
    (hspells : value.Spells step.1.label) (names : List String) (aliasName : Option String) :
    step.1.label ∈ (itemFragment names sources (.expr value aliasName)).reads := by
  obtain ⟨found, hfound, hsame⟩ := exists_sameAs_fieldsOf hc hfield
  have hfoundTable : sameName found.table step.1.label = true := by
    simp only [TableField.sameAs, Bool.and_eq_true] at hsame
    exact sameName_trans hsame.1 htable
  -- the column may be read through another reference, which is written with the same label
  have hlabel : found.table = step.1.label := by
    obtain ⟨other, hother, hotherField⟩ := mem_fieldsOf hfound
    unfold fieldOf? at hotherField
    split at hotherField
    case isTrue =>
      obtain ⟨step', hstep', htable'⟩ :=
        hseen.label_of_known hlength (List.mem_of_find?_eq_some hotherField)
      rw [htable'] at hfoundTable ⊢
      exact hlabels step' hstep' step (List.mem_of_getElem? hstep) hfoundTable
    case isFalse =>
      cases hotherField
      exact hspells other hother hfoundTable
  refine mem_distinct.2 (List.mem_map.2 ⟨found, hfound, hlabel⟩)

end

/-! ## The sources of a query -/

theorem map_fst_clause (branch : Branch) : branch.clause.map (·.1) = branch.allSources := by
  simp [Branch.clause, Branch.allSources, Function.comp_def]

/-- Where common tables have different names, each source is seen as one part and one fragment. -/
theorem seenAs_of_walk {setting : Setting} {ctes : List Cte} (hnamed : CtesNamed ctes)
    {behind : Run} (hctes : (inferCtes setting [] ctes).outcome .start = .ok ((), behind))
    {branch : Branch} {parts : List Level}
    (hparts : List.Forall₂ (IsPartOf setting behind.ctes) branch.clause parts)
    {sources : List Fragment}
    (hsources : List.Forall₂ (BringsSource setting.schema ctes) branch.allSources sources) :
    SeenAs ctes branch.clause parts sources := by
  intro place step hstep
  have hsource : branch.allSources[place]? = some step.1 := by
    rw [← map_fst_clause, List.getElem?_map, hstep]
    rfl
  obtain ⟨part, hpart, r, s, level, hsame, hwalk, hnames⟩ := exists_partner_at hparts.flip hstep
  obtain ⟨fragment, hfragment, hbrings⟩ := exists_partner_at hsources.flip hsource
  refine ⟨part, fragment, hpart, hfragment, hbrings.relation, ?_, level, hnames, ?_⟩
  · exact fun field hfield => table_of_sourceFields hbrings.fields hfield
  · exact names_of_source hnamed hctes hsame hwalk hbrings.fields

end QuerySignature
