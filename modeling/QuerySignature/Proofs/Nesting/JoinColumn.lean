import QuerySignature.Proofs.Nesting.GroupKey

namespace QuerySignature

/-! # Join columns of relations

A relation is joined by the key of its table, under the new name of a reference to the key if one is
projected under a new name. Of the references under new names the first one is taken that a relation
answers to: a relation answers to the name of its source, and to the name of its table as well. So a
source that is visible under the name of another one's table lends it the name of its own key.

- `renamed?_eq_ite`: which references give a relation their name;
- `joinColumn_own_iff`: a join column comes from the table of its relation unless the first of these
  references gives a name that no reference to the key has;
- `other_table_renames_joinColumn`: a relation that is joined by the key of another table.
-/

/-! ## References that rename -/

namespace Source

/-- Whether an output column is a reference under a new name to a column that is named as the key of a
source, in the source or in one that is visible under the name of its table. -/
def isRenamedBy (x : Source) (key : ColumnRecord) (c : OutputColumn) : Bool :=
  c.isRenamed && c.source.any fun column =>
    sameName column.name key.column && (column.isOf x.visibleName || column.isOf x.tableName)

/-- A name is the name of the key of a source, or that of an output column that refers to the key. -/
def NamesKey (x : Source) (key : ColumnRecord) (outputs : List OutputColumn) (name : String) : Prop :=
  name = key.column ∨ ∃ c ∈ outputs, c.isKeyOf x.visibleName = true ∧ c.name = name

instance (x : Source) (key : ColumnRecord) (outputs : List OutputColumn) (name : String) :
    Decidable (x.NamesKey key outputs name) :=
  inferInstanceAs (Decidable (name = key.column ∨ ∃ c ∈ outputs, _))

end Source

namespace KeyedClause

variable {schema : Schema} {ctes : List Cte} {b : Branch} {clause : Sources}
  {outputs : List OutputColumn} {x : Source} {key : ColumnRecord} {relation : Relation}

/-- A relation takes the name of every reference that renames its source. -/
theorem renamed?_eq_ite (h : KeyedClause schema ctes b clause outputs)
    (hrelation : relation.OfKeyed x key) {c : OutputColumn} (hc : c ∈ outputs) :
    relation.renamed? c = if x.isRenamedBy key c then some c.name else none := by
  unfold Relation.renamed? Source.isRenamedBy OutputColumn.isRenamed
  cases hcolumn : c.source with
  | none => rfl
  | some column =>
    obtain ⟨-, y, -, hshown, k, -, hof⟩ := h.exists_source hc hcolumn
    have hvisible : column.visibleTable.isEmpty = false := by
      rw [isEmpty_of_sameName hof.visible]
      exact hshown
    -- a relation answers to both names of its source
    have hanswers : relation.answers column.visibleTable =
        (column.isOf x.visibleName || column.isOf x.tableName) := by
      rw [hrelation.answers, hvisible]
      unfold SourceColumn.isOf
      rw [sameName_comm x.tableName, sameName_comm x.visibleName, Bool.or_comm]
      rfl
    simp only [hanswers, hrelation.joinColumn, Option.any_some]
    congr 1
    simp only [eq_iff_iff, Bool.and_eq_true]
    tauto

/-- The join column of a relation, under the name that it is reported with. -/
theorem joinColumn_renamed (h : KeyedClause schema ctes b clause outputs)
    (hrelation : relation.OfKeyed x key) :
    (outputs.findSome? relation.renamed?).getD relation.joinColumn =
      ((outputs.find? (x.isRenamedBy key)).map (·.name)).getD key.column := by
  rw [findSome?_of_ite fun c hc => h.renamed?_eq_ite hrelation hc, hrelation.joinColumn]

/-- A reference that renames a source refers to its key, if no other source is visible under one of its
names. -/
theorem isKeyOf_of_isRenamedBy (h : KeyedClause schema ctes b clause outputs)
    (hkey : x.key? schema ctes = some key)
    (honly : ∀ y ∈ b.allSources, sameName y.visibleName x.visibleName = true ∨
      sameName y.visibleName x.tableName = true → y = x)
    {c : OutputColumn} (hc : c ∈ outputs) (hrenamed : x.isRenamedBy key c = true) :
    c.isKeyOf x.visibleName = true := by
  unfold Source.isRenamedBy at hrenamed
  obtain ⟨-, hsource⟩ := Bool.and_eq_true_iff.1 hrenamed
  obtain ⟨column, hcolumn, hnames⟩ := (Option.any_eq_true _ _).1 hsource
  simp only [Bool.and_eq_true, Bool.or_eq_true] at hnames
  obtain ⟨hname, htable⟩ := hnames
  obtain ⟨-, y, hy, -, k, hk, hof⟩ := h.exists_source hc hcolumn
  obtain rfl : y = x := by
    refine honly y hy ?_
    have hback := sameName_symm hof.visible
    exact htable.imp (sameName_trans hback) (sameName_trans hback)
  obtain rfl : key = k := Option.some.inj (hkey.symm.trans hk)
  unfold OutputColumn.isKeyOf
  rw [hcolumn, Option.any_some, Bool.and_eq_true, beq_iff_eq]
  exact ⟨hof.visible, hof.primary hname⟩

end KeyedClause

/-! ## Queries of one branch -/

section

variable {records : List ColumnRecord} {profile : Profile} {q : Select} {b : Branch} {d : Description}

/-- In a description of tables with keys, each under a name of its own, every table has its relation.
The join column of the relation is the key of that table, or an output column that refers to the key,
exactly if the first reference that renames the table has the name of the key or of an output column
that refers to it. This is always so if no other table is visible under the name of the table. -/
theorem joinColumn_own_iff (hbranch : q.branches = [b])
    (hkeyed : ∀ x ∈ b.allSources, (x.key? (.ofRecords records) q.ctes).isSome = true)
    (hdistinct : b.allSources.Pairwise fun x y => sameName x.visibleName y.visibleName = false)
    (hd : describe ⟨.ofRecords records, profile⟩ (.select q) = .ok d) :
    (d.columns.map fun c => (c.name, c.table)) =
        ((q.outputs ⟨.ofRecords records, profile⟩).map fun c => (c.name, c.table)) ∧
      List.Forall₂ (fun x relation => relation.key = x.visibleName ∧
        ∃ key, x.key? (.ofRecords records) q.ctes = some key ∧
          (x.NamesKey key (q.outputs ⟨.ofRecords records, profile⟩) relation.joinColumn ↔
            ∀ c, (q.outputs ⟨.ofRecords records, profile⟩).find? (x.isRenamedBy key) = some c →
              x.NamesKey key (q.outputs ⟨.ofRecords records, profile⟩) c.name) ∧
          ((∀ y ∈ b.allSources, sameName y.visibleName x.tableName = true → y = x) →
            x.NamesKey key (q.outputs ⟨.ofRecords records, profile⟩) relation.joinColumn))
        b.allSources d.relations := by
  obtain ⟨result, run, solution, hwalk, -, rfl⟩ := describe_select_iff.1 hd
  obtain ⟨clause, hclause, hrelations⟩ := keyedClause_of_query hbranch hkeyed hwalk
  rw [outputs_eq hwalk]
  refine ⟨by simp [Description.of, OutputColumn.result], ?_⟩
  show List.Forall₂ _ b.allSources result.relations
  rw [hrelations]
  have hsources := (List.forall₂_and_left b.allSources _).2
    ⟨fun x hx => hx, hclause.keyed.relations⟩
  refine rel_trans ?_ hsources (renameJoinColumns_renamed _ _)
  rintro x own relation ⟨hx, -, key, hkey, hof⟩ ⟨hname, hjoin⟩
  rw [hclause.joinColumn_renamed hof] at hjoin
  rw [hjoin]
  refine ⟨hname.trans hof.key, key, hkey, ?_, ?_⟩
  · cases hfirst : result.columns.find? (x.isRenamedBy key) with
    | none =>
      refine ⟨fun _ c hc => ?_, fun _ => .inl rfl⟩
      cases hc
    | some first =>
      constructor
      · rintro hnames c ⟨⟩
        exact hnames
      · intro hnames
        exact hnames first rfl
  · intro honly
    cases hfirst : result.columns.find? (x.isRenamedBy key) with
    | none => exact .inl rfl
    | some first =>
      have hmem := List.mem_of_find?_eq_some hfirst
      refine .inr ⟨first, hmem, ?_, rfl⟩
      refine hclause.isKeyOf_of_isRenamedBy hkey ?_ hmem (List.find?_some hfirst)
      rintro y hy (hsame | hsame)
      · exact Source.eq_of_sameName hdistinct hy hx hsame
      · exact honly y hy hsame

/-- Under two aliases, each of the tables is joined by its own key. -/
theorem joinColumn_own_iff_namesByKey : ∃ d,
    describe ⟨.ofRecords nameRecords, .mysql⟩ (.select ⟨[], [.namesByKey], [], none⟩) = .ok d ∧
      d.relations.map (fun relation => (relation.key, relation.joinColumn)) =
        [("m", "k"), ("n", "id")] ∧
      List.Forall₂ (fun x relation => ∃ key, x.key? (.ofRecords nameRecords) [] = some key ∧
          x.NamesKey key ((Select.mk [] [.namesByKey] [] none).outputs
            ⟨.ofRecords nameRecords, .mysql⟩) relation.joinColumn)
        Branch.namesByKey.allSources d.relations := by
  obtain ⟨d, hd⟩ := exists_of_isOk (x := describe ⟨.ofRecords nameRecords, .mysql⟩
    (.select ⟨[], [.namesByKey], [], none⟩)) (by decide +kernel)
  have hjoins : (describe ⟨.ofRecords nameRecords, .mysql⟩
      (.select ⟨[], [.namesByKey], [], none⟩)).toOption.map (fun d => d.relations.map
        fun relation => (relation.key, relation.joinColumn)) = some [("m", "k"), ("n", "id")] := by
    decide +kernel
  rw [hd] at hjoins
  refine ⟨d, hd, Option.some.inj hjoins, ?_⟩
  have hapart : ∀ x ∈ Branch.namesByKey.allSources, ∀ y ∈ Branch.namesByKey.allSources,
      sameName y.visibleName x.tableName = false := by decide +kernel
  have hown := (joinColumn_own_iff (q := ⟨[], [.namesByKey], [], none⟩) rfl (by decide +kernel)
    (by decide +kernel) hd).2
  refine ((List.forall₂_and_left _ _).2 ⟨fun x hx => hx, hown⟩).imp ?_
  rintro x relation ⟨hx, -, key, hkey, -, honly⟩
  refine ⟨key, hkey, honly fun y hy hname => ?_⟩
  rw [hapart x hx y hy] at hname
  cases hname

/-- A table beside itself is joined by the key of the other one: a reference to that key renames the
join column of both. -/
theorem other_table_renames_joinColumn :
    ((describe ⟨.ofRecords nameRecords, .mysql⟩ (.select namesByTable)).toOption.map fun d =>
        d.relations.map fun relation => (relation.key, relation.joinColumn)) =
          some [("m", "k"), ("mytable2", "k")] ∧
      ∃ key, (Source.table "mytable2" (some "m")).key? (.ofRecords nameRecords) [] = some key ∧
        ¬ (Source.table "mytable2" (some "m")).NamesKey key
          (namesByTable.outputs ⟨.ofRecords nameRecords, .mysql⟩) "k" := by
  refine ⟨by decide +kernel, ⟨"mytable2", "id", .int, .primary, true⟩, ?_, ?_⟩
  · decide +kernel
  · decide +kernel

end

end QuerySignature
