import Mathlib.Data.List.Chain
import Mathlib.Data.List.Nodup
import Mathlib.Data.List.Perm.Subperm
import QuerySignature.Nesting.Collect

namespace QuerySignature

/-! # The shape of object trees

The node of a relation hangs off the node of the nearest ancestor that is kept. That is one node at
most, and for the root it is none, so that no way down from the root comes back to a node, whatever
circles the parents of the relations go in. The calls that collecting makes follow such a way.

- `hasChild_iff`: which node hangs off which;
- `nodup_of_isChain`: where each has one parent and the first has none, no way comes back;
- `heightAtMost_root`: no way down from the root is longer than the tree has nodes;
- `build_wellFormed`: the shape of a built tree, and what follows for collecting.
-/

namespace ObjectTree

/-! ## What hangs off a node -/

/-- The node that a field is for, if it is not for a column. -/
def Field.node? : Field → Option Nat
  | .column .. => none
  | .child _ _ node => some node

/-- The nodes that hang off a node. -/
def Node.children (node : Node) : List Nat := node.fields.filterMap Field.node?

theorem Node.mem_children {node : Node} {child : Nat} :
    child ∈ node.children ↔
      ∃ name cardinality, Field.child name cardinality child ∈ node.fields := by
  unfold Node.children
  rw [List.mem_filterMap]
  constructor
  · rintro ⟨field, hfield, hchild⟩
    cases field with
    | column name index => cases hchild
    | child name cardinality node =>
      cases hchild
      exact ⟨name, cardinality, hfield⟩
  · rintro ⟨name, cardinality, hfield⟩
    exact ⟨_, hfield, rfl⟩

/-- Whether one node of a tree hangs off another. -/
def HasChild (tree : ObjectTree) (parent child : Nat) : Prop :=
  ∃ node, tree.nodes[parent]? = some node ∧ child ∈ node.children

/-- One list of rows that objects of a node are collected from asks for another one: that of a
child, from the rows of one object. -/
def Calls (tree : ObjectTree) (callee caller : Nat × List Row) : Prop :=
  ∃ node, tree.nodes[caller.1]? = some node ∧ callee.1 ∈ node.children ∧
    ∃ key, (key, callee.2) ∈ groups node.keyIndex caller.2

/-- No way down from a node is longer than so many nodes. -/
def HeightAtMost (tree : ObjectTree) : Nat → Nat → Prop
  | 0, place => tree.nodes[place]? = none
  | height + 1, place => ∀ child, tree.HasChild place child → tree.HeightAtMost height child

/-- A tree whose places all exist, and whose nodes hang off at most one other each, the root off
none. -/
structure WellFormed (width : Nat) (tree : ObjectTree) : Prop where
  keyIndex_lt : ∀ node ∈ tree.nodes, ∀ index, node.keyIndex = some index → index < width
  column_lt : ∀ node ∈ tree.nodes, ∀ name index, Field.column name index ∈ node.fields →
    index < width
  child_lt : ∀ node ∈ tree.nodes, ∀ child ∈ node.children, child < tree.nodes.length
  root_no_child : ∀ node ∈ tree.nodes, 0 ∉ node.children
  one_parent : (tree.nodes.flatMap Node.children).Nodup

/-! ## The nodes of a built tree -/

/-- The relations that get a node, in the order of the nodes. -/
def kept (columns : List ResultColumn) (relations : List Relation) (root : Nat) : List Relation :=
  (keptRelations columns relations root).filterMap (relations[·]?)

/-- The node that the node of a relation hangs off. -/
def parentNode? (columns : List ResultColumn) (relations : List Relation) (root : Nat)
    (relation : Relation) : Option Nat :=
  keptAncestor? relations (keptRelations columns relations root) relations.length relation

section

variable {columns : List ResultColumn} {relations : List Relation} {root : Nat}

theorem mem_projected {relation : Relation} {index : Nat} :
    index ∈ projected columns relation ↔
      ∃ column, columns[index]? = some column ∧ sameName column.table relation.key = true := by
  unfold projected
  rw [List.mem_filter, List.mem_range]
  constructor
  · rintro ⟨hlt, hof⟩
    rw [List.getElem?_eq_getElem hlt] at hof
    exact ⟨_, List.getElem?_eq_getElem hlt, hof⟩
  · rintro ⟨column, hcolumn, hof⟩
    refine ⟨(List.getElem?_eq_some_iff.1 hcolumn).1, ?_⟩
    rw [hcolumn]
    exact hof

theorem lt_of_mem_projected {relation : Relation} {index : Nat}
    (h : index ∈ projected columns relation) : index < columns.length :=
  List.mem_range.1 (List.mem_filter.1 h).1

theorem lt_of_keyIndex {relation : Relation} {index : Nat}
    (h : keyIndex columns relation = some index) : index < columns.length := by
  unfold keyIndex at h
  rcases Option.or_eq_some_iff.1 h with hnamed | ⟨-, hfirst⟩
  · exact lt_of_mem_projected (List.mem_of_find?_eq_some hnamed)
  · exact lt_of_mem_projected (List.mem_of_head? hfirst)

theorem mem_columnFields {relation : Relation} {field : Field} :
    field ∈ columnFields columns relation ↔ ∃ index column, columns[index]? = some column ∧
      sameName column.table relation.key = true ∧ field = .column column.name index := by
  unfold columnFields
  simp only [List.mem_filterMap, mem_projected, Option.map_eq_some_iff]
  constructor
  · rintro ⟨index, ⟨column, hcolumn, hof⟩, found, hfound, rfl⟩
    obtain rfl := Option.some.inj (hcolumn.symm.trans hfound)
    exact ⟨index, column, hcolumn, hof, rfl⟩
  · rintro ⟨index, column, hcolumn, hof, rfl⟩
    exact ⟨index, ⟨column, hcolumn, hof⟩, column, hcolumn, rfl⟩

theorem mem_childFields {children : List Relation} {parent? : Relation → Option Nat} {place : Nat}
    {field : Field} :
    field ∈ childFields children (children.map parent?) place ↔ ∃ child relation,
      children[child]? = some relation ∧ parent? relation = some place ∧
        field = .child relation.key relation.cardinality child := by
  unfold childFields
  rw [List.mem_filterMap]
  constructor
  · rintro ⟨⟨⟨relation, parent⟩, child⟩, hmem, hfield⟩
    dsimp only at hfield
    split at hfield
    case isFalse => cases hfield
    case isTrue hparent =>
      cases hfield
      obtain ⟨hat, hits⟩ := List.getElem?_zip_eq_some.1 (List.mk_mem_zipIdx_iff_getElem?.1 hmem)
      rw [List.getElem?_map, hat, Option.map_some, Option.some.injEq] at hits
      exact ⟨child, relation, hat, hits.trans (by simpa using hparent), rfl⟩
  · rintro ⟨child, relation, hat, hparent, rfl⟩
    refine ⟨((relation, parent? relation), child), ?_, by simp [hparent]⟩
    rw [List.mk_mem_zipIdx_iff_getElem?, List.getElem?_zip_eq_some, List.getElem?_map, hat]
    exact ⟨rfl, rfl⟩

/-- A built tree has a node for each relation that is kept, with its columns and the nodes that hang
off it. -/
theorem nodes_build (hroot : relations.findIdx? Relation.isRoot = some root) :
    (build columns relations).nodes =
      (kept columns relations root).zipIdx.map fun (relation, place) =>
        { name := relation.key
          keyIndex := keyIndex columns relation
          fields := columnFields columns relation ++ childFields (kept columns relations root)
            ((kept columns relations root).map (parentNode? columns relations root)) place } := by
  unfold build
  rw [hroot]
  rfl

theorem nodes_build_of_none (hroot : relations.findIdx? Relation.isRoot = none) :
    (build columns relations).nodes = [] := by
  unfold build
  rw [hroot]

theorem length_nodes_build (hroot : relations.findIdx? Relation.isRoot = some root) :
    (build columns relations).nodes.length = (kept columns relations root).length := by
  rw [nodes_build hroot, List.length_map, List.length_zipIdx]

/-- The node at a place is that of the relation which is kept there. -/
theorem getElem?_nodes_build {place : Nat} {node : Node} :
    (build columns relations).nodes[place]? = some node ↔
      ∃ root relation, relations.findIdx? Relation.isRoot = some root ∧
        (kept columns relations root)[place]? = some relation ∧
        node = { name := relation.key
                 keyIndex := keyIndex columns relation
                 fields := columnFields columns relation ++
                  childFields (kept columns relations root)
                    ((kept columns relations root).map (parentNode? columns relations root))
                    place } := by
  cases hroot : relations.findIdx? Relation.isRoot with
  | none => simp [nodes_build_of_none hroot]
  | some root =>
    rw [nodes_build hroot, List.getElem?_map, List.getElem?_zipIdx]
    cases hkept : (kept columns relations root)[place]? with
    | none => simp [hkept]
    | some relation => simp [hkept, eq_comm]

/-! ## One parent -/

theorem lt_of_mem_keptRelations (hroot : relations.findIdx? Relation.isRoot = some root)
    {index : Nat} (h : index ∈ keptRelations columns relations root) :
    index < relations.length := by
  unfold keptRelations at h
  rcases List.mem_cons.1 h with rfl | h
  · exact (List.findIdx?_eq_some_iff_getElem.1 hroot).1
  · exact List.mem_range.1 (List.mem_filter.1 h).1

/-- The relation of a node is found where the tree keeps its place. -/
theorem getElem?_kept (hroot : relations.findIdx? Relation.isRoot = some root) (place : Nat) :
    (kept columns relations root)[place]? =
      (keptRelations columns relations root)[place]?.bind (relations[·]?) := by
  have hall : ∀ index ∈ keptRelations columns relations root, index < relations.length :=
    fun _ h => lt_of_mem_keptRelations hroot h
  unfold kept
  generalize keptRelations columns relations root = places at hall
  induction places generalizing place with
  | nil => rfl
  | cons index rest ih =>
    obtain ⟨relation, hfound⟩ : ∃ relation, relations[index]? = some relation :=
      ⟨_, List.getElem?_eq_getElem (hall index List.mem_cons_self)⟩
    rw [List.filterMap_cons_some hfound]
    cases place with
    | zero => exact hfound.symm
    | succ place => exact ih place fun i hi => hall i (List.mem_cons_of_mem _ hi)

theorem length_kept (hroot : relations.findIdx? Relation.isRoot = some root) :
    (kept columns relations root).length = (keptRelations columns relations root).length := by
  unfold kept
  rw [List.length_filterMap_eq_countP, List.countP_eq_length]
  intro index hindex
  simpa using lt_of_mem_keptRelations hroot hindex

/-- The nearest kept ancestor of a relation is one of the nodes. -/
theorem lt_of_keptAncestor? {places : List Nat} {steps : Nat} {relation : Relation} {node : Nat}
    (h : keptAncestor? relations places steps relation = some node) : node < places.length := by
  induction steps generalizing relation with
  | zero => cases h
  | succ steps ih =>
    unfold keptAncestor? at h
    split at h
    case isTrue => cases h
    case isFalse =>
      split at h
      case h_1 => cases h
      case h_2 parent _ =>
        split at h
        case h_1 found hfound =>
          cases h
          exact (List.findIdx?_eq_some_iff_getElem.1 hfound).1
        case h_2 =>
          split at h
          case h_1 => exact ih h
          case h_2 => cases h

theorem keptAncestor?_of_isRoot {places : List Nat} {steps : Nat} {relation : Relation}
    (h : relation.isRoot = true) : keptAncestor? relations places steps relation = none := by
  cases steps with
  | zero => rfl
  | succ steps =>
    unfold keptAncestor?
    rw [if_pos h]

/-- A node of a built tree hangs off the node of the nearest kept ancestor of its relation. -/
theorem hasChild_iff {parent child : Nat} :
    (build columns relations).HasChild parent child ↔
      ∃ root relation, relations.findIdx? Relation.isRoot = some root ∧
        (kept columns relations root)[child]? = some relation ∧
        parentNode? columns relations root relation = some parent := by
  constructor
  · rintro ⟨node, hnode, hchild⟩
    obtain ⟨root, relation, hroot, -, rfl⟩ := getElem?_nodes_build.1 hnode
    obtain ⟨name, cardinality, hfield⟩ := Node.mem_children.1 hchild
    rcases List.mem_append.1 hfield with hfield | hfield
    · obtain ⟨_, _, _, _, hcolumn⟩ := mem_columnFields.1 hfield
      cases hcolumn
    · obtain ⟨_, found, hfound, hparent, heq⟩ := mem_childFields.1 hfield
      cases heq
      exact ⟨root, found, hroot, hfound, hparent⟩
  · rintro ⟨root, relation, hroot, hat, hparent⟩
    have hlt : parent < (kept columns relations root).length := by
      rw [length_kept hroot]
      exact lt_of_keptAncestor? hparent
    refine ⟨_, getElem?_nodes_build.2 ⟨root, _, hroot, List.getElem?_eq_getElem hlt, rfl⟩, ?_⟩
    refine Node.mem_children.2 ⟨relation.key, relation.cardinality, List.mem_append_right _ ?_⟩
    exact mem_childFields.2 ⟨child, relation, hat, hparent, rfl⟩

/-- A node hangs off at most one other. -/
theorem parent_eq_of_hasChild {first second child : Nat}
    (hfirst : (build columns relations).HasChild first child)
    (hsecond : (build columns relations).HasChild second child) : first = second := by
  obtain ⟨root, relation, hroot, hat, hparent⟩ := hasChild_iff.1 hfirst
  obtain ⟨_, _, hroot', hat', hparent'⟩ := hasChild_iff.1 hsecond
  obtain rfl := Option.some.inj (hroot.symm.trans hroot')
  obtain rfl := Option.some.inj (hat.symm.trans hat')
  exact Option.some.inj (hparent.symm.trans hparent')

/-- The root hangs off none. -/
theorem not_hasChild_root (parent : Nat) : ¬ (build columns relations).HasChild parent 0 := by
  intro h
  obtain ⟨root, relation, hroot, hat, hparent⟩ := hasChild_iff.1 h
  obtain ⟨hlt, hisRoot, -⟩ := List.findIdx?_eq_some_iff_getElem.1 hroot
  rw [getElem?_kept hroot, keptRelations, List.getElem?_cons_zero, Option.bind_some,
    List.getElem?_eq_getElem hlt] at hat
  rw [Option.some.inj hat] at hisRoot
  unfold parentNode? at hparent
  rw [keptAncestor?_of_isRoot hisRoot] at hparent
  cases hparent

theorem child_lt_of_hasChild {parent child : Nat}
    (h : (build columns relations).HasChild parent child) :
    child < (build columns relations).nodes.length := by
  obtain ⟨root, relation, hroot, hat, -⟩ := hasChild_iff.1 h
  rw [length_nodes_build hroot]
  exact (List.getElem?_eq_some_iff.1 hat).1

theorem node?_columnFields (columns : List ResultColumn) (relation : Relation) :
    (columnFields columns relation).filterMap Field.node? = [] := by
  rw [List.filterMap_eq_nil_iff]
  intro field hfield
  obtain ⟨_, _, _, _, rfl⟩ := mem_columnFields.1 hfield
  rfl

theorem nodup_childFields (children : List Relation) (parents : List (Option Nat)) (place : Nat) :
    ((childFields children parents place).filterMap Field.node?).Nodup := by
  unfold childFields
  rw [List.filterMap_filterMap, List.nodup_iff_pairwise_ne, List.pairwise_filterMap]
  have hnumbers : ((children.zip parents).zipIdx.map Prod.snd).Nodup := by
    rw [List.zipIdx_map_snd]
    exact List.nodup_range'
  refine (List.pairwise_map.1 (List.nodup_iff_pairwise_ne.1 hnumbers)).imp ?_
  -- a child is told by its number
  have hnumber : ∀ (entry : (Relation × Option Nat) × Nat) (node : Nat),
      ((if entry.1.2 == some place then
        some (Field.child entry.1.1.key entry.1.1.cardinality entry.2) else none).bind
          Field.node?) = some node → node = entry.2 := by
    intro entry node h
    split at h
    · exact (Option.some.inj h).symm
    · cases h
  intro first second hne node hnode node' hnode'
  rw [hnumber first node hnode, hnumber second node' hnode']
  exact hne

/-- A node hangs off another at most once. -/
theorem nodup_children {node : Node} (h : node ∈ (build columns relations).nodes) :
    node.children.Nodup := by
  obtain ⟨place, hplace⟩ := List.getElem?_of_mem h
  obtain ⟨root, relation, -, -, rfl⟩ := getElem?_nodes_build.1 hplace
  unfold Node.children
  rw [List.filterMap_append, node?_columnFields, List.nil_append]
  exact nodup_childFields _ _ _

end

/-! ## Ways down -/

/-- Where everything has at most one parent and the start has none, no way from the start comes back
to where it was. -/
theorem nodup_of_isChain {R : Nat → Nat → Prop} (hunique : ∀ a b c, R a c → R b c → a = b)
    {start : Nat} (hstart : ∀ a, ¬ R a start) {way : List Nat} (h : List.IsChain R (start :: way)) :
    (start :: way).Nodup := by
  have hnext := List.isChain_iff_getElem.1 h
  rw [List.nodup_iff_pairwise_ne, List.pairwise_iff_getElem]
  intro i j hi hj hlt hsame
  obtain ⟨j, rfl⟩ : ∃ k, j = k + 1 := ⟨j - 1, by omega⟩
  induction i generalizing j with
  | zero => exact hstart _ (hsame ▸ hnext j hj)
  | succ i ih =>
    -- the same place is reached from one parent, so the ways to it meet one step earlier
    have hparent := hunique _ _ _ (hnext i hi) (hsame ▸ hnext j hj)
    obtain ⟨k, rfl⟩ : ∃ k, j = k + 1 := ⟨j - 1, by omega⟩
    exact ih (by omega) k (by omega) (by omega) hparent

theorem object_congr {first second : Nat → List Json} {group : List Row} {node : Node}
    (h : ∀ child ∈ node.children, first child = second child) :
    object first group node.fields = object second group node.fields := by
  unfold object
  refine congrArg Json.ofFields (List.map_congr_left fun field hfield => ?_)
  cases field with
  | column name index => rfl
  | child name cardinality child =>
    dsimp only
    rw [h child (Node.mem_children.2 ⟨name, cardinality, hfield⟩)]

section

variable {tree : ObjectTree}

/-- Below a node that ways from the root reach without coming back there are no more nodes than the
way has left out. -/
theorem heightAtMost_of_isChain (way : List Nat)
    (hunique : ∀ a b c, tree.HasChild a c → tree.HasChild b c → a = b)
    (hroot : ∀ a, ¬ tree.HasChild a 0) {height place : Nat}
    (hway : List.IsChain tree.HasChild (way ++ [place]))
    (hstart : (way ++ [place]).head? = some 0) (hheight : tree.nodes.length ≤ height + way.length) :
    tree.HeightAtMost height place := by
  induction height generalizing way place with
  | zero =>
    unfold HeightAtMost
    rw [List.getElem?_eq_none_iff]
    by_contra hplace
    -- every place on the way has a node, and they are as many as there are nodes, and one more
    have hnodes : ∀ a ∈ way ++ [place], a ∈ List.range tree.nodes.length := by
      intro a ha
      rw [List.mem_range]
      rcases List.mem_append.1 ha with ha | ha
      · obtain ⟨before, behind, rfl⟩ := List.append_of_mem ha
        obtain ⟨c, rest, hnext⟩ : ∃ c rest, behind ++ [place] = c :: rest :=
          List.exists_cons_of_ne_nil (by simp)
        rw [List.append_assoc, List.cons_append, hnext, List.isChain_append_cons_cons] at hway
        obtain ⟨node, hnode, -⟩ := hway.2.1
        exact (List.getElem?_eq_some_iff.1 hnode).1
      · rw [List.mem_singleton.1 ha]
        exact Nat.lt_of_not_le hplace
    have hnodup : (way ++ [place]).Nodup := by
      obtain ⟨rest, hrest⟩ := List.head?_eq_some_iff.1 hstart
      rw [hrest] at hway ⊢
      exact nodup_of_isChain hunique hroot hway
    have hlength := hnodup.length_le_of_subset hnodes
    rw [List.length_append, List.length_singleton, List.length_range] at hlength
    omega
  | succ height ih =>
    intro child hchild
    refine ih (way ++ [place]) ?_ ?_ ?_
    · rw [List.isChain_append]
      refine ⟨hway, List.isChain_singleton _, ?_⟩
      simpa using hchild
    · rw [List.head?_append, hstart]
      rfl
    · rw [List.length_append, List.length_singleton]
      omega

theorem HeightAtMost.collectNode_eq {height place : Nat} (h : tree.HeightAtMost height place)
    {depth : Nat} (hdepth : height ≤ depth) (rows : List Row) :
    tree.collectNode depth place rows = tree.collectNode height place rows := by
  induction height generalizing place depth rows with
  | zero =>
    cases depth with
    | zero => rfl
    | succ depth =>
      unfold collectNode
      rw [show tree.nodes[place]? = none from h]
  | succ height ih =>
    obtain ⟨depth, rfl⟩ : ∃ k, depth = k + 1 := ⟨depth - 1, by omega⟩
    unfold collectNode
    cases hnode : tree.nodes[place]? with
    | none => rfl
    | some node =>
      refine List.map_congr_left fun group hgroup => object_congr fun child hchild => ?_
      exact ih (h child ⟨node, hnode, hchild⟩) (by omega) _

theorem HeightAtMost.acc_calls {height place : Nat} (h : tree.HeightAtMost height place)
    (rows : List Row) : Acc tree.Calls (place, rows) := by
  induction height generalizing place rows with
  | zero =>
    refine ⟨_, fun callee hcalls => ?_⟩
    obtain ⟨node, hnode, -⟩ := hcalls
    cases hnode.symm.trans (show tree.nodes[place]? = none from h)
  | succ height ih =>
    refine ⟨_, fun callee hcalls => ?_⟩
    obtain ⟨node, hnode, hchild, -⟩ := hcalls
    exact ih (h callee.1 ⟨node, hnode, hchild⟩) callee.2

end

theorem heightAtMost_root (columns : List ResultColumn) (relations : List Relation) :
    (build columns relations).HeightAtMost (build columns relations).nodes.length 0 :=
  heightAtMost_of_isChain [] (fun _ _ _ h h' => parent_eq_of_hasChild h h') not_hasChild_root
    (List.isChain_singleton 0) rfl (Nat.le_refl _)

theorem wellFormed_build (columns : List ResultColumn) (relations : List Relation) :
    (build columns relations).WellFormed columns.length := by
  have hchild : ∀ {node : Node}, node ∈ (build columns relations).nodes → ∀ child ∈ node.children,
      ∃ parent, (build columns relations).HasChild parent child := by
    intro node hnode child hchild
    obtain ⟨place, hplace⟩ := List.getElem?_of_mem hnode
    exact ⟨place, node, hplace, hchild⟩
  refine ⟨?_, ?_, ?_, ?_, ?_⟩
  · intro node hnode index hindex
    obtain ⟨place, hplace⟩ := List.getElem?_of_mem hnode
    obtain ⟨root, relation, -, -, rfl⟩ := getElem?_nodes_build.1 hplace
    exact lt_of_keyIndex hindex
  · intro node hnode name index hfield
    obtain ⟨place, hplace⟩ := List.getElem?_of_mem hnode
    obtain ⟨root, relation, -, -, rfl⟩ := getElem?_nodes_build.1 hplace
    rcases List.mem_append.1 hfield with hfield | hfield
    · obtain ⟨_, column, hcolumn, -, heq⟩ := mem_columnFields.1 hfield
      cases heq
      exact (List.getElem?_eq_some_iff.1 hcolumn).1
    · obtain ⟨_, _, _, _, heq⟩ := mem_childFields.1 hfield
      cases heq
  · intro node hnode child hmem
    obtain ⟨parent, hparent⟩ := hchild hnode child hmem
    exact child_lt_of_hasChild hparent
  · intro node hnode hmem
    obtain ⟨parent, hparent⟩ := hchild hnode 0 hmem
    exact not_hasChild_root parent hparent
  · rw [List.nodup_flatMap]
    refine ⟨fun node hnode => nodup_children hnode, ?_⟩
    rw [List.pairwise_iff_getElem]
    intro i j hi hj hlt child hfirst hsecond
    have hsame : i = j := parent_eq_of_hasChild ⟨_, List.getElem?_eq_getElem hi, hfirst⟩
      ⟨_, List.getElem?_eq_getElem hj, hsecond⟩
    omega

/-- A built tree is well-formed, no way down from its root comes back to a node, and collecting
comes to an end for all rows: there are no calls without end, and more depth than the tree has nodes
changes nothing. -/
theorem build_wellFormed (columns : List ResultColumn) (relations : List Relation) :
    (build columns relations).WellFormed columns.length ∧
      (∀ way : List Nat, List.IsChain (build columns relations).HasChild (0 :: way) →
        (0 :: way).Nodup) ∧
      ∀ rows : List Row, Acc (build columns relations).Calls (0, rows) ∧
        ∀ depth, (build columns relations).nodes.length ≤ depth →
          (build columns relations).collectNode depth 0 rows =
            (build columns relations).collect rows := by
  have hheight := heightAtMost_root columns relations
  refine ⟨wellFormed_build columns relations, ?_, fun rows => ⟨hheight.acc_calls rows, ?_⟩⟩
  · exact fun way hway => nodup_of_isChain (R := (build columns relations).HasChild)
      (fun _ _ _ h h' => parent_eq_of_hasChild h h') not_hasChild_root hway
  · exact fun depth hdepth => hheight.collectNode_eq hdepth rows

/-- Relations that are their own parent, that go round in a circle, of one key, and two roots. -/
def tangledRelations : List Relation :=
  [⟨"s", "", "s", .many, "id"⟩, ⟨"u", "", "", .one, "id"⟩, ⟨"a", "", "b", .many, "id"⟩,
    ⟨"b", "", "a", .one, "id"⟩, ⟨"d", "", "u", .many, "id"⟩, ⟨"d", "", "d", .one, "id"⟩,
    ⟨"v", "", "", .one, "id"⟩]

/-- The ids of all of these relations. -/
def tangledColumns : List ResultColumn :=
  tangledRelations.map fun relation => ⟨"id", .int, true, relation.name⟩

/-- The way from the root goes by the first of the relations of one key to the second; the circles
are not on it. -/
theorem build_wellFormed_tangled :
    (build tangledColumns tangledRelations).nodes.map Node.children =
        [[4], [1], [3], [2], [5], [], []] ∧
      (build tangledColumns tangledRelations).WellFormed tangledColumns.length ∧
      List.IsChain (build tangledColumns tangledRelations).HasChild [0, 4, 5] ∧
      [0, 4, 5].Nodup := by
  have hchain : List.IsChain (build tangledColumns tangledRelations).HasChild [0, 4, 5] :=
    List.isChain_cons_cons.2 ⟨⟨_, rfl, by decide +kernel⟩,
      List.isChain_cons_cons.2 ⟨⟨_, rfl, by decide +kernel⟩, List.isChain_singleton _⟩⟩
  have h := build_wellFormed tangledColumns tangledRelations
  exact ⟨by decide +kernel, h.1, hchain, h.2.1 _ hchain⟩

end ObjectTree

end QuerySignature
