import Mathlib.Data.List.Pairwise
import QuerySignature.Proofs.Fragments.Relations
import QuerySignature.Proofs.Nesting.Keyed

namespace QuerySignature

/-! # Keys of nested objects

The objects of a node are told apart by the projected column that has the name of the join column.
The join column of a relation is the key of its table, under a new name if a reference to it is
projected under one. So it is the key that tells objects apart, unless an earlier column of the table
goes by the same name.

- `keyIndex_of_findIdx?`: the key of a node is looked up by name;
- `joinColumn_eq`: the name is that of a reference to the key;
- `keyIndex_isKey_iff`: when the key of a node refers to the key of its table;
- `other_column_for_key`: nodes whose key does not.
-/

namespace OutputColumn

/-- Whether an output column is a reference to the primary key of a table. -/
def isKeyOf (table : String) (c : OutputColumn) : Bool :=
  c.source.any fun column => column.isOf table && column.key == .primary

/-- Whether a reference to a column is projected under another name than that of the column. -/
def isRenamed (c : OutputColumn) : Bool := c.source.any fun column => c.name != column.name

end OutputColumn

/-- The reference whose name the key of a table is looked up by: the first one under a new name, or
else the first one. -/
def keyColumn? (outputs : List OutputColumn) (table : String) : Option OutputColumn :=
  let keys := outputs.filter (·.isKeyOf table)
  (keys.find? (·.isRenamed)).or keys.head?

/-- Whether the first column of a table that has the name of its key is a reference to the key. -/
def keyShown (outputs : List OutputColumn) (table : String) : Bool :=
  (keyColumn? outputs table).any fun key =>
    (outputs.find? fun c => sameName c.table table && sameName c.name key.name).any
      (·.isKeyOf table)

/-- The output columns of a query, with what they refer to. -/
def Select.outputs (setting : Setting) (q : Select) : List OutputColumn :=
  (((inferQuery setting [] q).outcome .start).toOption.map (·.1.columns)).getD []

/-- A branch reads only tables with a primary key of one column, each under a name of its own that is
not the name of another one's table either. -/
structure Branch.ReadsKeyed (schema : Schema) (ctes : List Cte) (b : Branch) : Prop where
  keyed : ∀ x ∈ b.allSources, (x.key? schema ctes).isSome = true
  distinct : b.allSources.Pairwise fun x y => sameName x.visibleName y.visibleName = false
  apart : ∀ x ∈ b.allSources, ∀ y ∈ b.allSources, sameName x.visibleName y.visibleName = false →
    sameName x.tableName y.visibleName = false

/-! ## Nodes -/

namespace ObjectTree

/-- Every node is that of a relation. -/
theorem mem_build {columns : List ResultColumn} {relations : List Relation} {node : Node}
    (h : node ∈ (build columns relations).nodes) :
    ∃ relation ∈ relations, node.name = relation.key ∧
      node.keyIndex = keyIndex columns relation := by
  unfold build at h
  cases hroot : relations.findIdx? Relation.isRoot with
  | none => simp [hroot] at h
  | some root =>
    simp only [hroot] at h
    obtain ⟨⟨relation, place⟩, hmem, rfl⟩ := List.mem_map.1 h
    have hkept := (List.mem_zipIdx' hmem).2
    have hrelation := List.mem_of_getElem hkept.symm
    obtain ⟨index, -, hindex⟩ := List.mem_filterMap.1 hrelation
    exact ⟨relation, List.mem_of_getElem? hindex, rfl, rfl⟩

/-- The key of a node is the first column of its relation that has the name of the join column, if
there is one. -/
theorem keyIndex_of_findIdx? {columns : List ResultColumn} {relation : Relation} {index : Nat}
    (h : columns.findIdx? (fun c => sameName c.table relation.key &&
      sameName c.name relation.joinColumn) = some index) :
    keyIndex columns relation = some index := by
  obtain ⟨hindex, hat, hbefore⟩ := List.findIdx?_eq_some_iff_getElem.1 h
  -- among the places of the relation, in their order, the place is the first one with the name
  have hnamed : (projected columns relation).find? (fun index =>
      columns[index]?.any fun column => sameName column.name relation.joinColumn) = some index := by
    unfold projected
    rw [List.find?_filter, List.find?_range_eq_some]
    refine ⟨?_, List.mem_range.2 hindex, ?_⟩
    · simpa [List.getElem?_eq_getElem hindex] using hat
    · intro j hj
      have hearlier := hbefore j hj
      simpa [List.getElem?_eq_getElem (Nat.lt_trans hj hindex), imp_iff_not_or] using hearlier
  show ((projected columns relation).find? _ |>.or _) = _
  rw [hnamed]
  rfl

end ObjectTree

/-! ## The name of the key -/

/-- A source is known by its name. -/
theorem Source.eq_of_sameName {sources : List Source} {x y : Source}
    (hdistinct : sources.Pairwise fun x y => sameName x.visibleName y.visibleName = false)
    (hx : x ∈ sources) (hy : y ∈ sources) (hname : sameName x.visibleName y.visibleName = true) :
    x = y := by
  have hsymm : Std.Symm fun x y : Source => sameName x.visibleName y.visibleName = false :=
    ⟨fun x y h => (sameName_comm _ _).trans h⟩
  by_contra hne
  have hother := hdistinct.forall hx hy hne
  rw [hname] at hother
  cases hother

namespace Branch.ReadsKeyed

variable {schema : Schema} {ctes : List Cte} {b : Branch} {x y : Source}

/-- The relation of a source answers to the name of that source alone. -/
theorem answers_iff (h : b.ReadsKeyed schema ctes) (hx : x ∈ b.allSources) (hy : y ∈ b.allSources)
    (hshown : y.visibleName.isEmpty = false) {key : ColumnRecord} {relation : Relation}
    (hrelation : relation.OfKeyed x key) {table : String}
    (htable : sameName table y.visibleName = true) :
    relation.answers table = true ↔ x = y := by
  have hsame : ∀ name, sameName name table = sameName name y.visibleName := fun name =>
    Bool.eq_iff_iff.2 ⟨fun hn => sameName_trans hn htable, fun hn =>
      sameName_trans hn (sameName_symm htable)⟩
  rw [hrelation.answers, isEmpty_of_sameName htable, hshown, hsame, hsame]
  constructor
  · intro hanswers
    by_contra hne
    have hother : sameName x.visibleName y.visibleName = false := by
      by_contra hname
      exact hne (Source.eq_of_sameName h.distinct hx hy (Bool.not_eq_false _ ▸ hname))
    simp [h.apart x hx y hy hother, hother] at hanswers
  · rintro rfl
    simp

end Branch.ReadsKeyed

theorem findSome?_of_ite {α β : Type} {f : α → Option β} {p : α → Bool} {g : α → β} {xs : List α}
    (h : ∀ x ∈ xs, f x = if p x then some (g x) else none) : xs.findSome? f = (xs.find? p).map g := by
  induction xs with
  | nil => rfl
  | cons x rest ih =>
    have hrest := ih fun y hy => h y (List.mem_cons_of_mem _ hy)
    rw [List.findSome?_cons, List.find?_cons, h x List.mem_cons_self]
    cases p x with
    | true => rfl
    | false => exact hrest

theorem keyColumn?_eq (outputs : List OutputColumn) (table : String) :
    keyColumn? outputs table =
      (outputs.find? fun c => c.isKeyOf table && c.isRenamed).or
        (outputs.find? fun c => c.isKeyOf table) := by
  unfold keyColumn?
  simp only [List.find?_filter, List.head?_filter]
  congr 2
  funext c
  simp

/-- The reference that the key of a table is looked up by is one to the key. -/
theorem mem_of_keyColumn? {outputs : List OutputColumn} {table : String} {k : OutputColumn}
    (h : keyColumn? outputs table = some k) : k ∈ outputs ∧ k.isKeyOf table = true := by
  rw [keyColumn?_eq, Option.or_eq_some_iff] at h
  rcases h with h | ⟨-, h⟩
  · have hboth := List.find?_some h
    simp only [Bool.and_eq_true] at hboth
    exact ⟨List.mem_of_find?_eq_some h, hboth.1⟩
  · exact ⟨List.mem_of_find?_eq_some h, List.find?_some h⟩

/-- There is such a reference if the key is projected at all. -/
theorem isKeyOf_of_keyColumn?_none {outputs : List OutputColumn} {table : String}
    (h : keyColumn? outputs table = none) {c : OutputColumn} (hc : c ∈ outputs) :
    c.isKeyOf table = false := by
  rw [keyColumn?_eq, Option.or_eq_none_iff] at h
  simpa using List.find?_eq_none.1 h.2 c hc

/-- The FROM clause of a branch that reads tables with keys, and what is projected from it. -/
structure KeyedClause (schema : Schema) (ctes : List Cte) (b : Branch) (clause : Sources)
    (outputs : List OutputColumn) : Prop where
  keyed : clause.Keyed schema ctes b.allSources
  readFrom : ∀ c ∈ outputs, c.ReadFrom ⟨clause.columns, []⟩

/-- What an output column refers to is a column of one of the tables. -/
theorem KeyedClause.exists_source {schema : Schema} {ctes : List Cte} {b : Branch} {clause : Sources}
    {outputs : List OutputColumn} (h : KeyedClause schema ctes b clause outputs) {c : OutputColumn}
    (hc : c ∈ outputs) {column : SourceColumn} (hcolumn : c.source = some column) :
    c.table = column.visibleTable ∧ ∃ y ∈ b.allSources, y.visibleName.isEmpty = false ∧
      ∃ k, y.key? schema ctes = some k ∧ column.OfKeyed y k := by
  have hread := h.readFrom c hc
  refine ⟨by rw [hread.table, hcolumn]; rfl, ?_⟩
  obtain ⟨level, hlevel, hmem⟩ := hread.source column hcolumn
  obtain rfl : level = clause.columns := by simpa [Scope.levels] using hlevel
  obtain ⟨y, hy, k, hk, hof⟩ := h.keyed.columns column hmem
  obtain ⟨_, -, hshown, -⟩ := exists_partner h.keyed.relations.flip hy
  exact ⟨y, hy, hshown, k, hk, hof⟩

/-- The projection of a branch that reads tables with keys, each known by one name. -/
structure KeyedBranch (schema : Schema) (ctes : List Cte) (b : Branch) (clause : Sources)
    (outputs : List OutputColumn) : Prop extends KeyedClause schema ctes b clause outputs where
  reads : b.ReadsKeyed schema ctes

namespace KeyedBranch

variable {schema : Schema} {ctes : List Cte} {b : Branch} {clause : Sources}
  {outputs : List OutputColumn} {x : Source} {key : ColumnRecord} {relation : Relation}

/-- A reference to the key of a table is a column of the table, and named as the key if it is not
renamed. -/
theorem of_isKeyOf (h : KeyedBranch schema ctes b clause outputs) (hx : x ∈ b.allSources)
    (hkey : x.key? schema ctes = some key) {c : OutputColumn} (hc : c ∈ outputs)
    (hisKey : c.isKeyOf x.visibleName = true) :
    sameName c.table x.visibleName = true ∧ (c.isRenamed = false → c.name = key.column) := by
  unfold OutputColumn.isKeyOf at hisKey
  obtain ⟨column, hcolumn, hisKey⟩ := (Option.any_eq_true _ _).1 hisKey
  simp only [Bool.and_eq_true, beq_iff_eq] at hisKey
  obtain ⟨htable, y, hy, -, k, hk, hof⟩ := h.exists_source hc hcolumn
  obtain rfl : x = y := Source.eq_of_sameName h.reads.distinct hx hy
    (sameName_trans (sameName_symm hisKey.1) hof.visible)
  obtain rfl : key = k := Option.some.inj (hkey.symm.trans hk)
  refine ⟨htable ▸ hisKey.1, fun hrenamed => ?_⟩
  have hname : c.name = column.name := by
    simpa [OutputColumn.isRenamed, hcolumn] using hrenamed
  exact hname.trans (hof.name hisKey.2)

/-- The join column of a relation takes the new name of any reference to the key of its table. -/
theorem renamed?_eq (h : KeyedBranch schema ctes b clause outputs) (hx : x ∈ b.allSources)
    (hkey : x.key? schema ctes = some key) (hrelation : relation.OfKeyed x key) {c : OutputColumn}
    (hc : c ∈ outputs) :
    relation.renamed? c = if c.isKeyOf x.visibleName && c.isRenamed then some c.name else none := by
  unfold Relation.renamed? OutputColumn.isKeyOf OutputColumn.isRenamed
  cases hcolumn : c.source with
  | none => rfl
  | some column =>
    obtain ⟨-, y, hy, hshown, k, hk, hof⟩ := h.exists_source hc hcolumn
    have hanswers := h.reads.answers_iff hx hy hshown hrelation hof.visible
    have hisOf : column.isOf x.visibleName = true ↔ x = y := by
      constructor
      · exact fun hname => Source.eq_of_sameName h.reads.distinct hx hy
          (sameName_trans (sameName_symm hname) hof.visible)
      · rintro rfl
        exact hof.visible
    have hnamed : x = y → (sameName column.name relation.joinColumn = true ↔
        column.key = .primary) := by
      rintro rfl
      obtain rfl : key = k := Option.some.inj (hkey.symm.trans hk)
      rw [hrelation.joinColumn]
      exact ⟨hof.primary, fun hprimary => hof.name hprimary ▸ sameName_refl _⟩
    have hboth : (relation.answers column.visibleTable && sameName column.name relation.joinColumn) =
        (column.isOf x.visibleName && column.key == .primary) := by
      rw [Bool.eq_iff_iff, Bool.and_eq_true, Bool.and_eq_true, beq_iff_eq, hanswers, hisOf]
      exact and_congr_right hnamed
    simp only [hboth, Option.any_some]

/-- The join column is looked up under the name of a reference to the key, if there is one. -/
theorem joinColumn_eq (h : KeyedBranch schema ctes b clause outputs) (hx : x ∈ b.allSources)
    (hkey : x.key? schema ctes = some key) (hrelation : relation.OfKeyed x key) {k : OutputColumn}
    (hk : keyColumn? outputs x.visibleName = some k) :
    (outputs.findSome? relation.renamed?).getD relation.joinColumn = k.name := by
  rw [findSome?_of_ite fun c hc => h.renamed?_eq hx hkey hrelation hc]
  rw [keyColumn?_eq] at hk
  cases hfind : outputs.find? fun c => c.isKeyOf x.visibleName && c.isRenamed with
  | some c =>
    rw [hfind] at hk
    cases hk
    rfl
  | none =>
    rw [hfind, Option.none_or] at hk
    have hmem := List.mem_of_find?_eq_some hk
    have hisKey : k.isKeyOf x.visibleName = true := List.find?_some hk
    -- no reference to the key is renamed, so that the join column keeps the name of the key
    have hrenamed : k.isRenamed = false := by
      have hnot := List.find?_eq_none.1 hfind k hmem
      simpa [hisKey] using hnot
    exact hrelation.joinColumn.trans ((h.of_isKeyOf hx hkey hmem hisKey).2 hrenamed).symm

/-- If a reference to the key is projected, the key of the node is the first column of the table that
has the name which it is looked up by. -/
theorem keyIndex_eq (h : KeyedBranch schema ctes b clause outputs) (hx : x ∈ b.allSources)
    (hkey : x.key? schema ctes = some key) {k : OutputColumn}
    (hk : keyColumn? outputs x.visibleName = some k) (hname : relation.key = x.visibleName)
    (hjoin : relation.joinColumn = k.name) (solution : Solution) (profile : Profile) :
    ∃ index first, ObjectTree.keyIndex (outputs.map (·.result solution profile)) relation =
        some index ∧ outputs[index]? = some first ∧
      outputs.find? (fun c => sameName c.table x.visibleName && sameName c.name k.name) =
        some first := by
  obtain ⟨hmem, hisKey⟩ := mem_of_keyColumn? hk
  have hsome : (outputs.find? fun c =>
      sameName c.table x.visibleName && sameName c.name k.name).isSome = true := by
    rw [List.find?_isSome]
    refine ⟨k, hmem, ?_⟩
    rw [(h.of_isKeyOf hx hkey hmem hisKey).1, sameName_refl, Bool.and_true]
  obtain ⟨first, hfirst⟩ := Option.isSome_iff_exists.1 hsome
  obtain ⟨hnamed, index, hplace, hat, hbefore⟩ := List.find?_eq_some_iff_getElem.1 hfirst
  refine ⟨index, first, ObjectTree.keyIndex_of_findIdx? ?_, ?_, hfirst⟩
  · rw [List.findIdx?_map, hname, hjoin, List.findIdx?_eq_some_iff_getElem]
    refine ⟨hplace, hat ▸ hnamed, fun j hj hother => ?_⟩
    have hearlier := hbefore j hj
    rw [Bool.not_eq_true'] at hearlier
    exact Bool.false_ne_true (hearlier.symm.trans hother)
  · rw [List.getElem?_eq_getElem hplace, hat]

end KeyedBranch

/-! ## Queries of one branch -/

theorem outputs_eq {setting : Setting} {q : Select} {result : QueryResult} {run : Run}
    (h : (inferQuery setting [] q).outcome .start = .ok (result, run)) :
    q.outputs setting = result.columns := by
  unfold Select.outputs
  rw [h]
  rfl

/-- The output columns and the relations of a query of one branch. -/
theorem keyedClause_of_query {records : List ColumnRecord} {profile : Profile} {q : Select}
    {b : Branch} (hbranch : q.branches = [b])
    (hkeyed : ∀ x ∈ b.allSources, (x.key? (.ofRecords records) q.ctes).isSome = true)
    {result : QueryResult} {run : Run}
    (h : (inferQuery ⟨.ofRecords records, profile⟩ [] q).outcome .start = .ok (result, run)) :
    ∃ clause, KeyedClause (.ofRecords records) q.ctes b clause result.columns ∧
      result.relations = renameJoinColumns result.columns clause.relations := by
  obtain ⟨behind, listed, rs, joined, rj, hctes, hsources, hjoins, hreadFrom, hrelations⟩ :=
    clause_of_query hbranch h
  obtain ⟨made, -, hsound, -⟩ := Run.Sound.start.commonTables nothing_outer hctes
  obtain ⟨made₁, -, hsound₁, -, hctes₁, hlisted⟩ := hsound.sources (.empty made) hsources
  have hkeyedListed := hsound.keyedSources hctes rfl (.empty made) (.empty _ _)
    (fun x hx => hkeyed x (List.mem_append_left _ hx)) hsources
  have hkeyedJoined := hsound₁.keyedJoins hctes hctes₁ hlisted hkeyedListed
    (fun j hj => hkeyed j.source (List.mem_append_right _ (List.mem_map_of_mem hj))) hjoins
  exact ⟨joined, ⟨hkeyedJoined, hreadFrom⟩, hrelations⟩

/-- A relation keeps its name, and is joined by the name of the first reference that renames it. -/
theorem renameJoinColumns_renamed (columns : List OutputColumn) (relations : List Relation) :
    List.Forall₂ (fun own relation : Relation => relation.key = own.key ∧
      relation.joinColumn = (columns.findSome? own.renamed?).getD own.joinColumn)
      relations (renameJoinColumns columns relations) := by
  refine List.forall₂_map_right_iff.2 (List.forall₂_same.2 fun own _ => ?_)
  cases columns.findSome? own.renamed? with
  | none => exact ⟨rfl, rfl⟩
  | some name => exact ⟨rfl, rfl⟩

section

variable {records : List ColumnRecord} {profile : Profile} {sql : String} {q : Select} {b : Branch}
  {d : Description} {tree : ObjectTree}

/-- The object tree of a described query is built from its output columns. -/
theorem nesting_of_described {setting : Setting}
    (hd : describeAnnotated setting sql (.select q) = .ok d) (htree : d.nesting = some tree) :
    ∃ result run solution, (inferQuery setting [] q).outcome .start = .ok (result, run) ∧
      d.columns = result.columns.map (·.result solution setting.profile) ∧
      tree = .build d.columns result.relations := by
  unfold describeAnnotated at hd
  obtain ⟨description, hdescribe, hd⟩ := bind_eq_ok.1 hd
  obtain ⟨result, run, solution, hwalk, -, rfl⟩ := describe_select_iff.1 hdescribe
  refine ⟨result, run, solution, hwalk, ?_⟩
  have hmade : d.columns = result.columns.map (·.result solution setting.profile) ∧
      d.nesting = if (Annotations.ofText sql).nested then
        some (.build d.columns result.relations) else none := by
    dsimp only at hd
    split at hd
    · obtain ⟨needs, -, hd⟩ := bind_eq_ok.1 hd
      cases hd
      exact ⟨rfl, rfl⟩
    · cases hd
      exact ⟨rfl, rfl⟩
  refine ⟨hmade.1, ?_⟩
  rw [hmade.2] at htree
  split at htree
  · exact (Option.some.inj htree).symm
  · cases htree

/-- In a nested description of tables with keys, the columns are the output columns of the query, and
the objects of a node are told apart by a reference to the key of its table exactly if no earlier
column of the table has the name that the key is looked up by. -/
theorem keyIndex_isKey_iff (hbranch : q.branches = [b])
    (hreads : b.ReadsKeyed (.ofRecords records) q.ctes)
    (hd : describeAnnotated ⟨.ofRecords records, profile⟩ sql (.select q) = .ok d)
    (htree : d.nesting = some tree) :
    (d.columns.map fun c => (c.name, c.table)) =
        ((q.outputs ⟨.ofRecords records, profile⟩).map fun c => (c.name, c.table)) ∧
      ∀ node ∈ tree.nodes,
        (∃ i c, node.keyIndex = some i ∧ (q.outputs ⟨.ofRecords records, profile⟩)[i]? = some c ∧
          c.isKeyOf node.name = true) ↔
        keyShown (q.outputs ⟨.ofRecords records, profile⟩) node.name = true := by
  obtain ⟨result, run, solution, hwalk, hcolumns, rfl⟩ := nesting_of_described hd htree
  obtain ⟨clause, hclause, hrelations⟩ := keyedClause_of_query hbranch hreads.keyed hwalk
  have hkeyed : KeyedBranch _ q.ctes b clause result.columns := ⟨hclause, hreads⟩
  rw [outputs_eq hwalk, hcolumns]
  refine ⟨by simp [OutputColumn.result], ?_⟩
  intro node hnode
  obtain ⟨relation, hrelation, hname, hindex⟩ := ObjectTree.mem_build hnode
  rw [hrelations] at hrelation
  obtain ⟨own, hown, hownKey, hjoin⟩ :=
    exists_partner (renameJoinColumns_renamed _ _) hrelation
  obtain ⟨x, hx, hshown, key, hkey, hof⟩ := exists_partner hkeyed.keyed.relations hown
  have hnode : node.name = x.visibleName := hname.trans (hownKey.trans hof.key)
  rw [hnode, hindex]
  unfold keyShown
  cases hk : keyColumn? result.columns x.visibleName with
  | none =>
    -- no reference to the key is projected
    rw [Option.any_none]
    refine ⟨?_, nofun⟩
    rintro ⟨i, c, -, hc, hisKey⟩
    rw [isKeyOf_of_keyColumn?_none hk (List.mem_of_getElem? hc)] at hisKey
    exact hisKey
  | some k =>
    have hlabel : relation.joinColumn = k.name := hjoin.trans (hkeyed.joinColumn_eq hx hkey hof hk)
    obtain ⟨index, first, hkeyIndex, hat, hfirst⟩ :=
      hkeyed.keyIndex_eq hx hkey hk (hownKey.trans hof.key) hlabel solution profile
    rw [hkeyIndex, Option.any_some, hfirst, Option.any_some]
    constructor
    · rintro ⟨i, c, hi, hc, hisKey⟩
      cases hi
      rw [hat] at hc
      cases hc
      exact hisKey
    · intro hisKey
      exact ⟨index, first, rfl, hat, hisKey⟩

end

/-! ## Two tables to look at -/

/-- A table of names. -/
def nameRecords : List ColumnRecord :=
  [⟨"mytable2", "id", .int, .primary, true⟩, ⟨"mytable2", "name", .varchar, .plain, false⟩]

/-- A query over names beside names, as `first` and, on the same id, as `second`. -/
def Branch.namesBeside (items : List Item) (first second : Option String) : Branch :=
  let column (aliasName : Option String) : Expr :=
    .column ⟨some (aliasName.getD "mytable2"), "id"⟩
  ⟨false, items, [.table "mytable2" first],
    [⟨.inner, .table "mytable2" second, .predicate (.compare .eq (column second) (column first))⟩],
    none, [], none⟩

/-- The places of the keys in an object tree, with the names of the nodes. -/
def ObjectTree.keyPlaces (tree : ObjectTree) : List (String × Option Nat) :=
  tree.nodes.map fun node => (node.name, node.keyIndex)

/-- `SELECT m.id AS k, n.name, n.id FROM mytable2 m INNER JOIN mytable2 n ON n.id = m.id`. -/
def Branch.namesByKey : Branch :=
  .namesBeside [.expr (.column ⟨some "m", "id"⟩) (some "k"), .expr (.column ⟨some "n", "name"⟩) none,
    .expr (.column ⟨some "n", "id"⟩) none] (some "m") (some "n")

/-- Under two aliases, each of the tables is told apart by its key. -/
theorem keyIndex_isKey_iff_namesByKey : ∃ d tree,
    describeAnnotated ⟨.ofRecords nameRecords, .mysql⟩ "-- @nested"
      (.select ⟨[], [.namesByKey], [], none⟩) = .ok d ∧
    d.nesting = some tree ∧ tree.keyPlaces = [("m", some 0), ("n", some 2)] ∧
    ∀ node ∈ tree.nodes, ∃ i c, node.keyIndex = some i ∧
      ((Select.mk [] [.namesByKey] [] none).outputs ⟨.ofRecords nameRecords, .mysql⟩)[i]? = some c ∧
      c.isKeyOf node.name = true := by
  obtain ⟨d, hd⟩ := exists_of_isOk (x := describeAnnotated ⟨.ofRecords nameRecords, .mysql⟩
    "-- @nested" (.select ⟨[], [.namesByKey], [], none⟩)) (by decide +kernel)
  have hplaces : (describeAnnotated ⟨.ofRecords nameRecords, .mysql⟩ "-- @nested"
      (.select ⟨[], [.namesByKey], [], none⟩)).toOption.bind
        (fun d => d.nesting.map ObjectTree.keyPlaces) =
          some [("m", some 0), ("n", some 2)] := by decide +kernel
  rw [hd] at hplaces
  obtain ⟨tree, htree, hplaces⟩ := Option.map_eq_some_iff.1 hplaces
  have hshown : ∀ place ∈ [("m", some 0), ("n", some 2)],
      keyShown ((Select.mk [] [.namesByKey] [] none).outputs ⟨.ofRecords nameRecords, .mysql⟩)
        (place : String × Option Nat).1 = true := by decide +kernel
  have hreads : Branch.ReadsKeyed (.ofRecords nameRecords) [] .namesByKey :=
    ⟨by decide +kernel, by decide +kernel, by decide +kernel⟩
  have hkeys := (keyIndex_isKey_iff rfl hreads hd htree).2
  refine ⟨d, tree, hd, htree, hplaces, fun node hnode => (hkeys node hnode).2 ?_⟩
  have hplace : (node.name, node.keyIndex) ∈ tree.keyPlaces := List.mem_map_of_mem hnode
  rw [hplaces] at hplace
  exact hshown (node.name, node.keyIndex) hplace

/-- `SELECT name AS id, id FROM mytable2`. -/
def nameAsId : Select :=
  ⟨[], [⟨false, [.expr (.column ⟨none, "name"⟩) (some "id"), .expr (.column ⟨none, "id"⟩) none],
    [.table "mytable2" none], [], none, [], none⟩], [], none⟩

/-- `SELECT mytable2.id AS k, m.name, m.id FROM mytable2 m INNER JOIN mytable2 ON mytable2.id = m.id`.
-/
def namesByTable : Select :=
  ⟨[], [.namesBeside [.expr (.column ⟨some "mytable2", "id"⟩) (some "k"),
    .expr (.column ⟨some "m", "name"⟩) none, .expr (.column ⟨some "m", "id"⟩) none] (some "m")
      none], [], none⟩

/-- The key is projected, but another column tells the objects apart: the first one that is named as
the key, or, where a reference to the key of another table has renamed the join column, the first
one. -/
theorem other_column_for_key :
    ((describeAnnotated ⟨.ofRecords nameRecords, .mysql⟩ "-- @nested"
        (.select nameAsId)).toOption.bind fun d => d.nesting.map ObjectTree.keyPlaces) =
          some [("mytable2", some 0)] ∧
      (nameAsId.outputs ⟨.ofRecords nameRecords, .mysql⟩).map (·.isKeyOf "mytable2") =
        [false, true] ∧
      ((describeAnnotated ⟨.ofRecords nameRecords, .mysql⟩ "-- @nested"
        (.select namesByTable)).toOption.bind fun d => d.nesting.map ObjectTree.keyPlaces) =
          some [("m", some 1), ("mytable2", some 0)] ∧
      (namesByTable.outputs ⟨.ofRecords nameRecords, .mysql⟩).map (·.isKeyOf "m") =
        [false, false, true] := by
  refine ⟨?_, ?_, ?_, ?_⟩
  · decide +kernel
  · decide +kernel
  · decide +kernel
  · decide +kernel

end QuerySignature
