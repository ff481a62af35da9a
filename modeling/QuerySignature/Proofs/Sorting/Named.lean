import QuerySignature.Proofs.Printed.Words
import QuerySignature.Proofs.Removal.Parting
import QuerySignature.Proofs.Sources.Declared
import QuerySignature.Proofs.Sources.WrittenOut

namespace QuerySignature

/-! # What a sort key may be named by

For a placeholder in ORDER BY a description lists the names of the output columns and those of the
columns of the FROM clause, the latter with their tables. Written as a term of that ORDER BY, each of
these names means a column, as long as no name has a dot in it.

- `HeadWalk.undotted_columns`: the output columns have the names of the FROM clause and of the items;
- `resolve_sortable`: each name of the list means a column.
-/

/-- A name without a dot. -/
def Undotted (name : String) : Prop := '.' ∉ name.toList

instance (name : String) : Decidable (Undotted name) := inferInstanceAs (Decidable (¬ _))

/-- A column that its name and that of its table tell together: both are written without a dot, and
the table has a name. -/
structure SourceColumn.Undotted (c : SourceColumn) : Prop where
  name : QuerySignature.Undotted c.name
  table : QuerySignature.Undotted c.visibleTable
  named : c.visibleTable ≠ ""

instance (c : SourceColumn) : Decidable c.Undotted :=
  decidable_of_iff
    (QuerySignature.Undotted c.name ∧ QuerySignature.Undotted c.visibleTable ∧ c.visibleTable ≠ "")
    ⟨fun h => ⟨h.1, h.2.1, h.2.2⟩, fun h => ⟨h.name, h.table, h.named⟩⟩

/-- An item whose own name, if it gives one, has no dot. A star gives none. -/
def Item.Undotted (item : Item) : Prop := ∀ name ∈ itemName? item, QuerySignature.Undotted name

instance (item : Item) : Decidable item.Undotted :=
  inferInstanceAs (Decidable (∀ name ∈ itemName? item, QuerySignature.Undotted name))

/-- The name of a column in a list of sort keys is read as the reference to it. -/
theorem SourceColumn.Undotted.ofText {c : SourceColumn} (h : c.Undotted) :
    ColumnRef.ofText c.qualifiedName = c.inFull :=
  ofText_qualified h.table h.name

/-! ## The names of the columns -/

section

variable {setting : Setting}

/-- The columns of a projection have the names of the columns of the scope and of the items. -/
theorem undotted_of_items {scope : Scope} (hscope : ∀ c ∈ scope.columns, Undotted c.name)
    {items : List Item} (hitems : ∀ item ∈ items, item.Undotted) {r s : Run}
    {columns : List OutputColumn}
    (h : (inferItems setting scope items).outcome r = .ok (columns, s)) :
    ∀ c ∈ columns, Undotted c.name := by
  refine forall_of_items (P := fun c => Undotted c.name) (fun column hcolumn _ => hscope column hcolumn)
    (fun value aliasName hitem _ _ _ _ => ?_) h
  exact hitems _ hitem _ (congrArg some (outputName_eq value aliasName))

namespace HeadWalk

variable {q : Select} {result : QueryResult} {run : Run} {b : Branch}

/-- The first branch of a query shows the columns of its FROM clause, and names the output columns. -/
theorem exists_first (w : HeadWalk setting q result run) (hfirst : q.branches.head? = some b) :
    w.head.1.visible = visibleColumns setting q.ctes b ∧
      ∃ r s columns, (inferItems setting ⟨w.head.1.visible, []⟩ b.items).outcome r = .ok (columns, s) ∧
        w.head.2.map (·.name) = columns.map (·.name) := by
  obtain ⟨rest, hbranches⟩ := List.head?_eq_some_iff.1 hfirst
  have hunion := w.union
  rw [hbranches] at hunion
  obtain ⟨first, rb, others, hbranch, -, hresults⟩ := branches_of_union hunion
  obtain ⟨⟨joined, columns⟩, rf, group, rg, having, hfront, -, -, rfl⟩ := clauses_of_branch hbranch
  obtain ⟨listed, rl, rj, ri, found, hlisted, hjoined, hitems, -⟩ := clauses_of_front hfront
  obtain ⟨hhead, hcolumns⟩ := unionOf_cons (hresults ▸ w.ofUnion)
  have hvisible : w.head.1.visible = joined.columns := by
    rw [hhead]
    rfl
  refine ⟨?_, _, _, columns, hvisible ▸ hitems, ?_⟩
  · rw [hvisible]
    unfold visibleColumns inferFrom
    simp only [w.ctes, ok_bind, Analyze.outcome_bind, hlisted, hjoined]
  · exact (names_unionColumns hcolumns).trans (map_proveColumns (fun _ _ => rfl) _ _ _)

/-- Output columns have no dots in their names if the columns of the FROM clause and the items have
none. -/
theorem undotted_columns (w : HeadWalk setting q result run) (hfirst : q.branches.head? = some b)
    (hvisible : ∀ c ∈ visibleColumns setting q.ctes b, c.Undotted)
    (hitems : ∀ item ∈ b.items, item.Undotted) : ∀ c ∈ w.head.2, Undotted c.name := by
  obtain ⟨hshown, _, _, columns, hread, hnames⟩ := w.exists_first hfirst
  have hundotted := undotted_of_items
    (fun c hc => (hvisible c (hshown ▸ hc)).name) hitems hread
  intro c hc
  have hname : c.name ∈ columns.map (·.name) := hnames ▸ List.mem_map_of_mem hc
  obtain ⟨d, hd, hsame⟩ := List.mem_map.1 hname
  exact hsame ▸ hundotted d hd

end HeadWalk

end

/-! ## What they mean -/

section

variable {columns : List OutputColumn}

/-- No name tells apart output columns that a reference may mean: none of them belongs to a table. -/
theorem sameAs_of_levelOf {c : ColumnRef} {d e : SourceColumn}
    (hd : d ∈ (levelOf "" columns).answers c) (he : e ∈ (levelOf "" columns).answers c) :
    d.sameAs e = true := by
  have htable : ∀ f ∈ (levelOf "" columns).answers c, sameName f.visibleTable "" = true := by
    intro f hf
    obtain ⟨column, -, rfl⟩ := List.mem_map.1 (List.mem_of_mem_filter hf)
    exact sameName_refl _
  exact sameAs_of_answers htable hd he

/-- The name of an output column means an output column. -/
theorem resolve_outputColumn (outer : List Level) {column : OutputColumn} (h : column ∈ columns) :
    ∃ target ∈ levelOf "" columns,
      Scope.resolve ⟨levelOf "" columns, outer⟩ ⟨none, column.name⟩ = .ok target := by
  have hanswers : column.asSource "" ∈ (levelOf "" columns).answers ⟨none, column.name⟩ := by
    refine List.mem_filter.2 ⟨List.mem_map_of_mem h, ?_⟩
    simp [SourceColumn.answers, OutputColumn.asSource, ColumnRef.qualifier]
  obtain ⟨target, htarget, hmeaning⟩ := exists_resolveIn hanswers
    (fun _ hd _ he => sameAs_of_levelOf hd he) outer
  exact ⟨target, htarget, resolve_of_resolveIn hmeaning⟩

/-- With its table, the name of a column of the FROM clause means no output column, but a column of
the FROM clause. -/
theorem resolve_visibleColumn (columns : List OutputColumn) (outer : List Level) {visible : Level}
    {c : SourceColumn} (hc : c ∈ visible) (hnamed : c.visibleTable ≠ "") :
    ∃ target ∈ visible,
      Scope.resolve ⟨levelOf "" columns, visible :: outer⟩ c.inFull = .ok target := by
  have hnone : (levelOf "" columns).answers c.inFull = [] := by
    refine List.filter_eq_nil_iff.2 fun d hd hanswers => ?_
    obtain ⟨column, -, rfl⟩ := List.mem_map.1 hd
    unfold SourceColumn.answers at hanswers
    rw [Bool.and_eq_true, Bool.or_eq_true] at hanswers
    rcases hanswers.2 with hempty | hof
    · exact hnamed (String.isEmpty_iff.1 hempty)
    · exact hnamed (String.isEmpty_iff.1 (isEmpty_of_sameName hof).symm)
  have hanswers : c ∈ visible.answers c.inFull :=
    List.mem_filter.2 ⟨hc, c.answers_inFull⟩
  have htable : ∀ f ∈ visible.answers c.inFull, sameName f.visibleTable c.visibleTable = true := by
    intro f hf
    have hboth := (List.mem_filter.1 hf).2
    unfold SourceColumn.answers at hboth
    rw [Bool.and_eq_true, Bool.or_eq_true] at hboth
    exact hboth.2.resolve_left fun hempty => hnamed (String.isEmpty_iff.1 hempty)
  obtain ⟨target, htarget, hmeaning⟩ := exists_resolveIn hanswers
    (fun _ hd _ he => sameAs_of_answers htable hd he) outer
  refine ⟨target, htarget, resolve_of_resolveIn ?_⟩
  show resolveIn _ (levelOf "" columns :: visible :: outer) = _
  rw [resolveIn_cons_nil hnone]
  exact hmeaning

end

/-- Each name in the list of sort keys means an output column or a column of the FROM clause. -/
theorem resolve_sortable {head : BranchResult × List OutputColumn} {name : String}
    (h : name ∈ sortableNames head.2 head.1.visible)
    (hcolumns : ∀ c ∈ head.2, Undotted c.name) (hvisible : ∀ c ∈ head.1.visible, c.Undotted) :
    ∃ target, (target ∈ levelOf "" head.2 ∨ target ∈ head.1.visible) ∧
      (orderScope [] head).resolve (.ofText name) = .ok target := by
  rcases List.mem_append.1 (mem_distinct.1 h) with hname | hname
  · obtain ⟨column, hcolumn, rfl⟩ := List.mem_map.1 hname
    rw [ofText_of_not_mem (hcolumns column hcolumn)]
    obtain ⟨target, htarget, hmeans⟩ := resolve_outputColumn [head.1.visible] hcolumn
    exact ⟨target, .inl htarget, hmeans⟩
  · obtain ⟨c, hc, rfl⟩ := List.mem_map.1 hname
    rw [(hvisible c hc).ofText]
    obtain ⟨target, htarget, hmeans⟩ :=
      resolve_visibleColumn head.2 [] hc (hvisible c hc).named
    exact ⟨target, .inr htarget, hmeans⟩

end QuerySignature
