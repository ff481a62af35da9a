import Mathlib.Logic.Relation
import QuerySignature.Proofs.Nesting.GroupKey
import QuerySignature.Proofs.Nesting.Hanging
import QuerySignature.Proofs.Nesting.Shape

namespace QuerySignature

/-! # Columns in object trees

Where every relation but the first hangs off an earlier one, the way up from a relation comes to the
root, over kept relations and others, so that every node is below the root. A column of a table is
then at one place of the tree, in the node of its table.

- `HangInOrder.exists_keptAncestor`: a nearest kept ancestor is found, and it is an earlier one;
- `ObjectTree.showsAll_build`: the tree of relations that hang in order;
- `describe_nested`: the same for a query of one branch over tables.
-/

namespace ObjectTree

/-- The place in the row that a field is for, if it is for a column. -/
def Field.index? : Field → Option Nat
  | .column _ index => some index
  | .child .. => none

/-- The places in the row that the fields of a node are for. -/
def Node.indexes (node : Node) : List Nat := node.fields.filterMap Field.index?

/-- A tree of which all nodes are below the root, and that has each column of a table at one place,
in the one node that is named after the table, and no other column. -/
structure ShowsAll (columns : List ResultColumn) (tree : ObjectTree) : Prop where
  reachable : ∀ place, place < tree.nodes.length → Relation.ReflTransGen tree.HasChild 0 place
  names : tree.nodes.Pairwise fun first second => sameName first.name second.name = false
  once : (tree.nodes.flatMap Node.indexes).Nodup
  shown : ∀ index column, columns[index]? = some column → column.table ≠ "" →
    ∃ node ∈ tree.nodes, sameName node.name column.table = true ∧
      Field.column column.name index ∈ node.fields
  hidden : ∀ index column, columns[index]? = some column → column.table = "" →
    index ∉ tree.nodes.flatMap Node.indexes

/-! ## The nodes of kept relations -/

section

variable {columns : List ResultColumn} {relations : List Relation} {root : Nat}

theorem nodup_keptRelations (columns : List ResultColumn) (relations : List Relation) (root : Nat) :
    (keptRelations columns relations root).Nodup := by
  unfold keptRelations
  rw [List.nodup_cons]
  refine ⟨fun h => ?_, List.nodup_range.filter _⟩
  simpa using (List.mem_filter.1 h).2

/-- The fields of a node are for the columns of its relation. -/
theorem indexes_columnFields (columns : List ResultColumn) (relation : Relation) :
    (columnFields columns relation).filterMap Field.index? = projected columns relation := by
  unfold columnFields
  rw [List.filterMap_filterMap, List.filterMap_eq_map_iff_forall_eq_some.2, List.map_id']
  intro index hindex
  obtain ⟨column, hcolumn⟩ : ∃ column, columns[index]? = some column :=
    ⟨_, List.getElem?_eq_getElem (lt_of_mem_projected hindex)⟩
  rw [hcolumn]
  rfl

theorem index?_childFields (children : List Relation) (parents : List (Option Nat)) (place : Nat) :
    (childFields children parents place).filterMap Field.index? = [] := by
  unfold childFields
  rw [List.filterMap_filterMap, List.filterMap_eq_nil_iff]
  intro entry _
  dsimp only
  split <;> rfl

/-- What a node of a built tree has of its relation. -/
theorem exists_of_node {place : Nat} {node : Node}
    (hroot : relations.findIdx? Relation.isRoot = some root)
    (h : (build columns relations).nodes[place]? = some node) :
    ∃ index relation, (keptRelations columns relations root)[place]? = some index ∧
      relations[index]? = some relation ∧ node.name = relation.key ∧
      node.indexes = projected columns relation := by
  obtain ⟨_, relation, hroot', hkept, rfl⟩ := getElem?_nodes_build.1 h
  obtain rfl := Option.some.inj (hroot.symm.trans hroot')
  rw [getElem?_kept hroot, Option.bind_eq_some_iff] at hkept
  obtain ⟨index, hplace, hat⟩ := hkept
  refine ⟨index, relation, hplace, hat, rfl, ?_⟩
  unfold Node.indexes
  rw [List.filterMap_append, indexes_columnFields, index?_childFields, List.append_nil]

/-- A kept relation has a node, with its columns. -/
theorem exists_node {place index : Nat} {relation : Relation}
    (hroot : relations.findIdx? Relation.isRoot = some root)
    (hplace : (keptRelations columns relations root)[place]? = some index)
    (hat : relations[index]? = some relation) :
    ∃ node, (build columns relations).nodes[place]? = some node ∧ node.name = relation.key ∧
      ∀ field ∈ columnFields columns relation, field ∈ node.fields := by
  refine ⟨_, getElem?_nodes_build.2 ⟨root, relation, hroot, ?_, rfl⟩, rfl, ?_⟩
  · rw [getElem?_kept hroot, hplace]
    exact hat
  · exact fun field hfield => List.mem_append_left _ hfield

end

/-! ## Relations that hang in order -/

end ObjectTree

/-- The first place of a thing with a property is not behind any such thing. -/
theorem exists_findIdx? {α : Type} {p : α → Bool} {xs : List α} {place : Nat} {x : α}
    (hat : xs[place]? = some x) (hp : p x = true) :
    ∃ first y, xs.findIdx? p = some first ∧ xs[first]? = some y ∧ first ≤ place := by
  cases hfirst : xs.findIdx? p with
  | none =>
    have hnone := List.findIdx?_eq_none_iff.1 hfirst x (List.mem_of_getElem? hat)
    exact absurd hp (by simp [hnone])
  | some first =>
    obtain ⟨hlt, -, hbefore⟩ := List.findIdx?_eq_some_iff_getElem.1 hfirst
    refine ⟨first, xs[first], rfl, List.getElem?_eq_getElem hlt, Nat.le_of_not_lt fun hplace => ?_⟩
    obtain ⟨hplace', rfl⟩ := List.getElem?_eq_some_iff.1 hat
    exact hbefore place hplace hp

theorem HangInOrder.findIdx?_isRoot {relations : List Relation} (h : HangInOrder relations)
    (hne : relations ≠ []) : relations.findIdx? Relation.isRoot = some 0 := by
  cases relations with
  | nil => exact absurd rfl hne
  | cons first rest =>
    have hroot : first.isRoot = true := by
      unfold Relation.isRoot
      rw [h.root first rfl]
      rfl
    rw [List.findIdx?_cons, if_pos hroot]

/-- The way up from a relation behind the first one comes to a kept relation before it. -/
theorem HangInOrder.exists_keptAncestor {relations : List Relation} (h : HangInOrder relations)
    {places : List Nat} (hroot : 0 ∈ places) {steps place : Nat} {relation : Relation}
    (hplace : 0 < place) (hat : relations[place]? = some relation) (hsteps : place ≤ steps) :
    ∃ node before, ObjectTree.keptAncestor? relations places steps relation = some node ∧
      places[node]? = some before ∧ before < place := by
  induction steps generalizing place relation with
  | zero => exact absurd hplace (by omega)
  | succ steps ih =>
    obtain ⟨earlier, parent, hearlier, hparent, hname⟩ := h.earlier place relation hplace hat
    have hhangs : relation.isRoot = false := by
      unfold Relation.isRoot
      rw [← isEmpty_of_sameName hname]
      exact h.named parent (List.mem_of_getElem? hparent)
    -- the parent that is found is the first one of its name
    obtain ⟨found, next, hfound, hnext, hle⟩ := exists_findIdx?
      (p := fun candidate : Relation => sameName candidate.key relation.parent) hparent hname
    have hbefore : found < place := Nat.lt_of_le_of_lt hle hearlier
    unfold ObjectTree.keptAncestor?
    rw [if_neg (by simp [hhangs]), ObjectTree.parentIndex?, hfound]
    dsimp only
    cases hkept : places.findIdx? (· == found) with
    | some node =>
      obtain ⟨hlt, heq, -⟩ := List.findIdx?_eq_some_iff_getElem.1 hkept
      exact ⟨node, found, rfl, by simpa [List.getElem?_eq_getElem hlt] using heq, hbefore⟩
    | none =>
      have hother : found ∉ places := by
        intro hmem
        simpa using List.findIdx?_eq_none_iff.1 hkept found hmem
      have hpositive : 0 < found := Nat.pos_of_ne_zero fun hzero => hother (hzero ▸ hroot)
      dsimp only
      rw [hnext]
      obtain ⟨node, before, hnode, hat, hlt⟩ := ih hpositive hnext (by omega)
      exact ⟨node, before, hnode, hat, hlt.trans hbefore⟩

namespace ObjectTree

section

variable {columns : List ResultColumn} {relations : List Relation}

/-- Every node of a built tree is below the root. -/
theorem reachable_build (h : HangInOrder relations) (hne : relations ≠ []) {place index : Nat}
    (hplace : (keptRelations columns relations 0)[place]? = some index) :
    Relation.ReflTransGen (build columns relations).HasChild 0 place := by
  have hroot := h.findIdx?_isRoot hne
  -- by the order of the relations, since the parent of a node is an earlier one
  induction index using Nat.strongRecOn generalizing place with
  | ind index ih =>
    cases place with
    | zero => exact .refl
    | succ place =>
      have hpositive : 0 < index := by
        rw [keptRelations, List.getElem?_cons_succ] at hplace
        have hother := (List.mem_filter.1 (List.mem_of_getElem? hplace)).2
        exact Nat.pos_of_ne_zero fun hzero => by simp [hzero] at hother
      have hlt := lt_of_mem_keptRelations hroot (List.mem_of_getElem? hplace)
      have hzero : 0 ∈ keptRelations columns relations 0 := List.mem_cons_self
      obtain ⟨node, before, hparent, hbefore, hearlier⟩ := h.exists_keptAncestor hzero hpositive
        (List.getElem?_eq_getElem hlt) hlt.le
      refine (ih before hearlier hbefore).tail (hasChild_iff.2 ⟨0, _, hroot, ?_, hparent⟩)
      rw [getElem?_kept hroot, hplace]
      exact List.getElem?_eq_getElem hlt

variable (columns) in
/-- Relations of different keys have nodes of different names. -/
theorem names_build {root : Nat} (hroot : relations.findIdx? Relation.isRoot = some root)
    (hdistinct : relations.Pairwise fun r s => sameName r.key s.key = false) :
    (build columns relations).nodes.Pairwise fun first second =>
      sameName first.name second.name = false := by
  rw [List.pairwise_iff_getElem]
  intro i j hi hj hlt
  obtain ⟨first, r, hfirst, hr, hname, -⟩ := exists_of_node hroot (List.getElem?_eq_getElem hi)
  obtain ⟨second, s, hsecond, hs, hname', -⟩ := exists_of_node hroot (List.getElem?_eq_getElem hj)
  have hne : first ≠ second := by
    rintro rfl
    have hsame := (List.getElem?_inj (List.getElem?_eq_some_iff.1 hfirst).1
      (nodup_keptRelations columns relations root)).1 (hfirst.trans hsecond.symm)
    exact absurd hsame (Nat.ne_of_lt hlt)
  rw [hname, hname']
  obtain ⟨hr', rfl⟩ := List.getElem?_eq_some_iff.1 hr
  obtain ⟨hs', rfl⟩ := List.getElem?_eq_some_iff.1 hs
  rcases Nat.lt_or_gt_of_ne hne with hlt | hlt
  · exact List.pairwise_iff_getElem.1 hdistinct first second hr' hs' hlt
  · rw [sameName_comm]
    exact List.pairwise_iff_getElem.1 hdistinct second first hs' hr' hlt

/-- No column is at two places of a tree whose nodes have different names. -/
theorem once_build {root : Nat} (hroot : relations.findIdx? Relation.isRoot = some root)
    (hnames : (build columns relations).nodes.Pairwise fun first second =>
      sameName first.name second.name = false) :
    ((build columns relations).nodes.flatMap Node.indexes).Nodup := by
  rw [List.nodup_flatMap]
  have hof : ∀ node ∈ (build columns relations).nodes, ∃ relation : Relation,
      node.name = relation.key ∧ node.indexes = projected columns relation := by
    intro node hnode
    obtain ⟨place, hplace⟩ := List.getElem?_of_mem hnode
    obtain ⟨-, relation, -, -, hname, hindexes⟩ := exists_of_node hroot hplace
    exact ⟨relation, hname, hindexes⟩
  refine ⟨fun node hnode => ?_, ?_⟩
  · obtain ⟨relation, -, hindexes⟩ := hof node hnode
    rw [hindexes]
    exact List.nodup_range.filter _
  · refine hnames.imp_of_mem fun {first second} hfirst hsecond hne index hmem hmem' => ?_
    obtain ⟨r, hname, hindexes⟩ := hof first hfirst
    obtain ⟨s, hname', hindexes'⟩ := hof second hsecond
    rw [hindexes, mem_projected] at hmem
    rw [hindexes', mem_projected] at hmem'
    obtain ⟨column, hcolumn, htable⟩ := hmem
    obtain ⟨_, hcolumn', htable'⟩ := hmem'
    obtain rfl := Option.some.inj (hcolumn.symm.trans hcolumn')
    rw [hname, hname', sameName_trans (sameName_symm htable) htable'] at hne
    cases hne

/-- The tree of relations that hang in order, with keys that differ, has each column of a table in
the node of the table, if the table is one of theirs. -/
theorem showsAll_build (h : HangInOrder relations) (hne : relations ≠ [])
    (hdistinct : relations.Pairwise fun r s => sameName r.key s.key = false)
    (hcolumns : ∀ column ∈ columns, column.table ≠ "" →
      ∃ relation ∈ relations, sameName relation.key column.table = true) :
    (build columns relations).ShowsAll columns := by
  have hroot := h.findIdx?_isRoot hne
  have hnames := names_build columns hroot hdistinct
  refine ⟨?_, hnames, once_build hroot hnames, ?_, ?_⟩
  · intro place hplace
    obtain ⟨index, -, hat, -⟩ := exists_of_node hroot (List.getElem?_eq_getElem hplace)
    exact reachable_build h hne hat
  · intro index column hcolumn htable
    obtain ⟨relation, hrelation, hkey⟩ := hcolumns column (List.mem_of_getElem? hcolumn) htable
    obtain ⟨own, hlt, hown⟩ := List.getElem_of_mem hrelation
    have hat : relations[own]? = some relation := hown ▸ List.getElem?_eq_getElem hlt
    -- a relation with a column is kept
    have hkept : own ∈ keptRelations columns relations 0 := by
      unfold keptRelations
      rw [List.mem_cons, List.mem_filter]
      by_cases hzero : own = 0
      · exact .inl hzero
      · have hprojected : projected columns relation ≠ [] :=
          List.ne_nil_of_mem (mem_projected.2 ⟨column, hcolumn, sameName_symm hkey⟩)
        exact .inr ⟨List.mem_range.2 hlt, by simp [hzero, hat, hprojected]⟩
    obtain ⟨place, hplace⟩ := List.getElem?_of_mem hkept
    obtain ⟨node, hnode, hname, hfields⟩ := exists_node hroot hplace hat
    exact ⟨node, List.mem_of_getElem? hnode, hname ▸ hkey,
      hfields _ (mem_columnFields.2 ⟨index, column, hcolumn, sameName_symm hkey, rfl⟩)⟩
  · intro index column hcolumn htable hmem
    obtain ⟨node, hnode, hindex⟩ := List.mem_flatMap.1 hmem
    obtain ⟨place, hplace⟩ := List.getElem?_of_mem hnode
    obtain ⟨_, relation, -, hat, -, hindexes⟩ := exists_of_node hroot hplace
    rw [hindexes, mem_projected] at hindex
    obtain ⟨_, hcolumn', hof⟩ := hindex
    obtain rfl := Option.some.inj (hcolumn.symm.trans hcolumn')
    have hnamed := h.named relation (List.mem_of_getElem? hat)
    rw [← isEmpty_of_sameName hof, htable] at hnamed
    cases hnamed

end

end ObjectTree

/-! ## Queries -/

/-- Relations hang by their keys and parents alone. -/
theorem HangInOrder.congr {relations others : List Relation} (h : HangInOrder relations)
    (hsame : others.map Relation.link = relations.map Relation.link) : HangInOrder others := by
  refine ⟨?_, ?_, ?_⟩
  · intro r hr
    obtain ⟨place, hplace⟩ := List.getElem?_of_mem hr
    obtain ⟨s, hs, hkey, -⟩ := exists_link_at hsame hplace
    exact hkey ▸ h.named s (List.mem_of_getElem? hs)
  · intro r hr
    obtain ⟨s, hs, -, hparent⟩ := exists_link_at hsame hr
    exact hparent ▸ h.root s hs
  · intro place r hplace hr
    obtain ⟨s, hs, -, hparent⟩ := exists_link_at hsame hr
    obtain ⟨before, parent, hbefore, hp, hname⟩ := h.earlier place s hplace hs
    obtain ⟨other, hother, hkey, -⟩ := exists_link_at hsame.symm hp
    exact ⟨before, other, hbefore, hother, by rw [hkey, ← hparent, hname]⟩

section

variable {records : List ColumnRecord} {profile : Profile} {sql : String} {q : Select} {b : Branch}
  {d : Description}

/-- The object tree of a query of one branch over tables of different names. -/
theorem showsAll_of_described (hbranch : q.branches = [b]) (hfrom : b.sources ≠ [])
    (hshown : ∀ x ∈ b.allSources, x.isShown = true)
    (hdistinct : b.allSources.Pairwise fun x y => sameName x.visibleName y.visibleName = false)
    (hd : describe ⟨.ofRecords records, profile⟩ (.select q) = .ok d) :
    (ObjectTree.build d.columns d.relations).ShowsAll d.columns := by
  obtain ⟨result, run, solution, hwalk, -, rfl⟩ := describe_select_iff.1 hd
  obtain ⟨clause, hhanging, hreadFrom, hrelations⟩ :=
    hanging_of_query hbranch hfrom hshown hwalk
  have hlinks : result.relations.map Relation.link = clause.relations.map Relation.link :=
    hrelations ▸ link_renameJoinColumns _ _
  have hkeys : result.relations.map Relation.key = b.allSources.map Source.visibleName := by
    have hfirst := congrArg (List.map Prod.fst) hlinks
    rw [List.map_map, List.map_map] at hfirst
    exact hfirst.trans hhanging.keys
  have hne : result.relations ≠ [] := by
    intro hnone
    rw [hnone, List.map_nil, eq_comm, List.map_eq_nil_iff] at hkeys
    exact hfrom (List.append_eq_nil_iff.1 hkeys).1
  refine ObjectTree.showsAll_build (hhanging.order.congr hlinks) hne ?_ ?_
  · have hnames : (b.allSources.map Source.visibleName).Pairwise fun m n => sameName m n = false :=
      List.pairwise_map.2 hdistinct
    rw [← hkeys, List.pairwise_map] at hnames
    exact hnames
  · intro column hcolumn htable
    obtain ⟨output, houtput, rfl⟩ := List.mem_map.1 hcolumn
    have hread := hreadFrom output houtput
    -- a column with a table is a reference to a column of the clause
    cases hsource : output.source with
    | none =>
      refine absurd ?_ htable
      exact hread.table.trans (by rw [hsource]; rfl)
    | some source =>
      obtain ⟨level, hlevel, hmem⟩ := hread.source source hsource
      obtain rfl : level = clause.columns := by simpa [Scope.levels] using hlevel
      obtain ⟨x, hx, hname⟩ := hhanging.columns source hmem
      have hkey : x.visibleName ∈ result.relations.map Relation.key :=
        hkeys ▸ List.mem_map_of_mem hx
      obtain ⟨relation, hrelation, heq⟩ := List.mem_map.1 hkey
      have hof : output.table = source.visibleTable := by
        rw [hread.table, hsource]
        rfl
      refine ⟨relation, hrelation, ?_⟩
      show sameName relation.key output.table = true
      rw [heq, hof]
      exact sameName_symm hname

/-- A query of one branch over tables that are visible under different names is nested without loss.
If only its object tree is asked for it is described as without, and the tree has every node below
the root, each column of a table at one place, in the node of the table, and no other column. -/
theorem describe_nested (hbranch : q.branches = [b]) (hfrom : b.sources ≠ [])
    (hshown : ∀ x ∈ b.allSources, x.isShown = true)
    (hdistinct : b.allSources.Pairwise fun x y => sameName x.visibleName y.visibleName = false)
    (hd : describe ⟨.ofRecords records, profile⟩ (.select q) = .ok d)
    (hnested : (Annotations.ofText sql).nested = true) :
    ((Annotations.ofText sql).dynamic = false →
        ∃ nested, describeAnnotated ⟨.ofRecords records, profile⟩ sql (.select q) = .ok nested) ∧
      ∀ nested, describeAnnotated ⟨.ofRecords records, profile⟩ sql (.select q) = .ok nested →
        nested.columns = d.columns ∧
          ∃ tree, nested.nesting = some tree ∧ tree.ShowsAll nested.columns := by
  have hshows := showsAll_of_described hbranch hfrom hshown hdistinct hd
  have hmade : describeAnnotated ⟨.ofRecords records, profile⟩ sql (.select q) =
      (if (Annotations.ofText sql).dynamic then (q.needs (.ofRecords records)).map some
        else .ok none).bind fun needs =>
          .ok { d with sql, nesting := some (.build d.columns d.relations), needs } := by
    unfold describeAnnotated
    rw [hd]
    dsimp only
    rw [hnested]
    cases (Annotations.ofText sql).dynamic <;> rfl
  rw [hmade]
  refine ⟨fun hplain => ?_, fun nested hok => ?_⟩
  · rw [hplain]
    exact ⟨_, rfl⟩
  · obtain ⟨needs, -, hok⟩ := bind_eq_ok.1 hok
    cases hok
    exact ⟨rfl, _, rfl, hshows⟩

end

/-! ## A table between two others -/

/-- `SELECT T.id, 1 AS k, c.double_value FROM t INNER JOIN app.mytable2 ON mytable2.id = t.id
INNER JOIN mytable3 c ON c.id = mytable2.id`. -/
def Branch.acrossSecond : Branch :=
  ⟨false, [.expr (columnOf "T" "id") none, .expr (.literal (.int 1)) (some "k"),
      .expr (columnOf "c" "double_value") none], [.table "t" none],
    [⟨.inner, .table "app.mytable2" none,
      .predicate (.compare .eq (columnOf "mytable2" "id") (columnOf "t" "id"))⟩,
      ⟨.inner, .table "mytable3" (some "c"),
        .predicate (.compare .eq (columnOf "c" "id") (columnOf "mytable2" "id"))⟩], none, [], none⟩

/-- The same behind `WITH t AS (SELECT id FROM mytable1)`. -/
def acrossSecond : Select :=
  ⟨[⟨"t", ⟨[], [⟨false, [.expr (.column ⟨none, "id"⟩) none], [.table "mytable1" none], [], none, [],
    none⟩], [], none⟩⟩], [.acrossSecond], [], none⟩

/-- The second table has no node; the third hangs off the first one, which is a common table. -/
theorem describe_nested_acrossSecond : ∃ nested tree,
    describeAnnotated ⟨.ofRecords threeTables, .mysql⟩ "-- @nested" (.select acrossSecond) =
        .ok nested ∧
      nested.nesting = some tree ∧
      tree.nodes.map (fun node => (node.name, node.indexes)) = [("t", [0]), ("c", [2])] ∧
      tree.ShowsAll nested.columns := by
  obtain ⟨d, hd⟩ := exists_of_isOk (x := describe ⟨.ofRecords threeTables, .mysql⟩
    (.select acrossSecond)) (by decide +kernel)
  have h := describe_nested (b := .acrossSecond) rfl (by decide) (by decide) (by decide) hd
    (show (Annotations.ofText "-- @nested").nested = true by decide +kernel)
  obtain ⟨nested, hnested⟩ := h.1 (by decide +kernel)
  obtain ⟨-, tree, htree, hshows⟩ := h.2 nested hnested
  have hnodes : ((describeAnnotated ⟨.ofRecords threeTables, .mysql⟩ "-- @nested"
      (.select acrossSecond)).toOption.bind fun d => d.nesting.map fun tree =>
        tree.nodes.map fun node => (node.name, node.indexes)) = some [("t", [0]), ("c", [2])] := by
    decide +kernel
  rw [hnested, Except.toOption, Option.bind_some, htree] at hnodes
  exact ⟨nested, tree, hnested, htree, Option.some.inj hnodes, hshows⟩

end QuerySignature
