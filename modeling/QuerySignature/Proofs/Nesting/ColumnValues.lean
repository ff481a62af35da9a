import QuerySignature.Proofs.Nesting.Collected

namespace QuerySignature

/-! # Columns of collected objects

An object has its columns and its children under their names, in one list of fields, and of fields of one
name the last counts. The children come behind the columns. So an object holds the value of a column
unless a node that hangs off its own has the name of the column.

- `ObjectTree.Makes`: the objects that are collected, at any depth, each with its group of rows;
- `holds_column_iff`: which columns the objects of a node hold;
- `child_hides_column`: a column that its objects do not hold.
-/

namespace ObjectTree

/-- The objects that collecting some rows makes, at any depth: the place of the node of each, and the
group of rows that it is made of. -/
inductive Makes (tree : ObjectTree) (rows : List Row) : Nat → List Row → Json → Prop
  | root {node : Node} {group : List Row} {object : Json} (found : tree.nodes[0]? = some node)
      (made : (group, object) ∈ (rowGroups node.keyIndex rows).zip (tree.collect rows)) :
      Makes tree rows 0 group object
  | child {place child : Nat} {node : Node} {around group : List Row} {outer object : Json}
      {objects : List Json} (inside : Makes tree rows place around outer)
      (hangs : tree.HasChild place child) (found : tree.nodes[child]? = some node)
      (collected : tree.Collected child around objects)
      (made : (group, object) ∈ (rowGroups node.keyIndex around).zip objects) :
      Makes tree rows child group object

/-! ## Objects and their groups -/

section

variable {tree : ObjectTree} {place : Nat} {node : Node} {rows group : List Row} {object : Json}
  {objects : List Json}

/-- The objects of a node stand in the order of their groups. -/
theorem Collected.mem_zip (h : tree.Collected place rows objects)
    (found : tree.nodes[place]? = some node) :
    ∃ objectOf : List Row → Json,
      (rowGroups node.keyIndex rows).zip objects =
        (rowGroups node.keyIndex rows).map (fun group => (group, objectOf group)) ∧
      ∀ group ∈ rowGroups node.keyIndex rows, tree.IsObject node group (objectOf group) := by
  cases h with
  | missing absent => cases found.symm.trans absent
  | node below found' children =>
    obtain rfl := Option.some.inj (found.symm.trans found')
    refine ⟨fun group => node.objectOf group (below group), ?_,
      fun group hgroup => ⟨below group, children group hgroup, rfl⟩⟩
    rw [List.zip_map_right, List.zip_eq_zipWith, List.zipWith_self, List.map_map]
    rfl

theorem Collected.isObject (h : tree.Collected place rows objects)
    (found : tree.nodes[place]? = some node)
    (made : (group, object) ∈ (rowGroups node.keyIndex rows).zip objects) :
    tree.IsObject node group object := by
  obtain ⟨objectOf, hzip, hobject⟩ := h.mem_zip found
  rw [hzip, List.mem_map] at made
  obtain ⟨group, hgroup, heq⟩ := made
  cases heq
  exact hobject group hgroup

theorem Collected.exists_made (h : tree.Collected place rows objects)
    (found : tree.nodes[place]? = some node) (hgroup : group ∈ rowGroups node.keyIndex rows) :
    ∃ object, (group, object) ∈ (rowGroups node.keyIndex rows).zip objects := by
  obtain ⟨objectOf, hzip, -⟩ := h.mem_zip found
  rw [hzip]
  exact ⟨objectOf group, List.mem_map_of_mem hgroup⟩

end

section

variable {columns : List ResultColumn} {relations : List Relation} {place : Nat} {node : Node}
  {rows group : List Row} {object : Json}

theorem collected_root (columns : List ResultColumn) (relations : List Relation) (rows : List Row) :
    (build columns relations).Collected 0 rows ((build columns relations).collect rows) :=
  (heightAtMost_root columns relations).collected rows

/-- Each object is one of its node, collected from its group. -/
theorem Makes.isObject (h : (build columns relations).Makes rows place group object)
    (found : (build columns relations).nodes[place]? = some node) :
    (build columns relations).IsObject node group object := by
  cases h with
  | root found' made =>
    obtain rfl := Option.some.inj (found.symm.trans found')
    exact (collected_root columns relations rows).isObject found made
  | child inside hangs found' collected made =>
    obtain rfl := Option.some.inj (found.symm.trans found')
    exact collected.isObject found made

/-- There are objects at places below the root only. -/
theorem Makes.reachable {tree : ObjectTree} (h : tree.Makes rows place group object) :
    Relation.ReflTransGen tree.HasChild 0 place := by
  induction h with
  | root found made => exact .refl
  | child inside hangs found collected made ih => exact ih.tail hangs

/-- A row with a value at every place is an object at every node below the root. -/
theorem exists_makes (hreach : Relation.ReflTransGen (build columns relations).HasChild 0 place)
    (hnode : (build columns relations).nodes[place]? = some node) :
    ∃ object, (build columns relations).Makes [List.replicate columns.length (.int 1)] place
      [List.replicate columns.length (.int 1)] object := by
  have hgroup : ∀ {place : Nat} {node : Node},
      (build columns relations).nodes[place]? = some node →
      [List.replicate columns.length (.int 1)] ∈
        rowGroups node.keyIndex [List.replicate columns.length (.int 1)] := by
    intro place node hnode
    obtain ⟨_, relation, -, -, rfl⟩ := getElem?_nodes_build.1 hnode
    cases hkey : keyIndex columns relation with
    | none => exact List.mem_singleton_self _
    | some index =>
      have htext : keyText? (some index) (List.replicate columns.length (.int 1)) =
          some (Json.int 1).compact := by
        simp only [keyText?, List.getElem?_replicate_of_lt (lt_of_keyIndex hkey)]
      simp [rowGroups, keysOf, rowsOf, htext, distinct, addDistinct]
  induction hreach generalizing node with
  | refl =>
    obtain ⟨object, hmade⟩ := (collected_root columns relations _).exists_made hnode (hgroup hnode)
    exact ⟨object, .root hnode hmade⟩
  | @tail parent child hway hchild ih =>
    obtain ⟨above, habove, hmem⟩ := hchild
    obtain ⟨outer, houter⟩ := ih habove
    obtain ⟨below, hbelow, -⟩ := houter.isObject habove
    have hcollected := hbelow child hmem
    obtain ⟨object, hmade⟩ := hcollected.exists_made hnode (hgroup hnode)
    exact ⟨object, .child houter ⟨above, habove, hmem⟩ hnode hcollected hmade⟩

end

/-! ## What an object holds under a name -/

section

variable {tree : ObjectTree} {node : Node} {name : String}

/-- A field is found under its name if no other field has it. -/
theorem Node.field?_of_unique {field : Field} (hfield : field ∈ node.fields)
    (hunique : ∀ other ∈ node.fields, other.name = field.name → other = field) :
    node.field? field.name = some field := by
  unfold Node.field?
  cases hfound : node.fields.reverse.find? fun other => other.name == field.name with
  | none =>
    have hnone := List.find?_eq_none.1 hfound field (List.mem_reverse.2 hfield)
    exact absurd (beq_self_eq_true _) hnone
  | some other =>
    have hname : other.name = field.name := by simpa using List.find?_some hfound
    rw [hunique other (List.mem_reverse.1 (List.mem_of_find?_eq_some hfound)) hname]

/-- A field of the name among the last ones hides all in front of them. -/
theorem Node.field?_of_append {first last : List Field} (hfields : node.fields = first ++ last)
    {field : Field} (hfield : field ∈ last) : ∃ other ∈ last, node.field? field.name = some other := by
  unfold Node.field?
  rw [hfields, List.reverse_append, List.find?_append]
  cases hfound : last.reverse.find? fun other => other.name == field.name with
  | none =>
    have hnone := List.find?_eq_none.1 hfound field (List.mem_reverse.2 hfield)
    exact absurd (beq_self_eq_true _) hnone
  | some other => exact ⟨other, List.mem_reverse.1 (List.mem_of_find?_eq_some hfound), rfl⟩

/-- What stands in an object for the objects of a child is one of them, their list, or nothing; it is
no number. -/
theorem Field.value_child_ne_int {below : Nat → List Json} {cardinality : Cardinality} {child : Nat}
    {rows : List Row} (h : tree.Collected child rows (below child)) (n : Int) :
    (Field.child name cardinality child).value rows below ≠ .int n := by
  cases cardinality with
  | many => simp [Field.value]
  | one =>
    show (below child).head?.getD .null ≠ .int n
    generalize below child = objects at h
    cases h with
    | missing _ => simp
    | @node _ _ node below found children =>
      cases rowGroups node.keyIndex rows with
      | nil => simp
      | cons first rest => simp [Node.objectOf, Json.ofFields]

end

/-! ## The fields of a built node -/

section

variable {columns : List ResultColumn} {relations : List Relation} {place index : Nat} {node : Node}
  {column : ResultColumn}

/-- The fields of a node are its columns, each under its own name, and behind them the nodes that hang
off it, each under its own name, too. -/
theorem fields_of_node (hnode : (build columns relations).nodes[place]? = some node) :
    ∃ ofColumns ofChildren, node.fields = ofColumns ++ ofChildren ∧
      (∀ field, field ∈ ofColumns ↔ ∃ index column, columns[index]? = some column ∧
        sameName column.table node.name = true ∧ field = .column column.name index) ∧
      (∀ field ∈ ofChildren, ∃ child next cardinality,
        (build columns relations).HasChild place child ∧
          (build columns relations).nodes[child]? = some next ∧
            field = .child next.name cardinality child) ∧
      ∀ child next, (build columns relations).HasChild place child →
        (build columns relations).nodes[child]? = some next →
          ∃ cardinality, .child next.name cardinality child ∈ ofChildren := by
  obtain ⟨root, relation, hroot, -, rfl⟩ := getElem?_nodes_build.1 hnode
  refine ⟨_, _, rfl, fun field => mem_columnFields, fun field hfield => ?_,
    fun child next hchild hnext => ?_⟩
  · obtain ⟨child, found, hfound, hparent, rfl⟩ := mem_childFields.1 hfield
    exact ⟨child, _, found.cardinality, hasChild_iff.2 ⟨root, found, hroot, hfound, hparent⟩,
      getElem?_nodes_build.2 ⟨root, found, hroot, hfound, rfl⟩, rfl⟩
  · obtain ⟨root', found, hroot', hfound, hparent⟩ := hasChild_iff.1 hchild
    obtain ⟨root'', found', hroot'', hfound', rfl⟩ := getElem?_nodes_build.1 hnext
    obtain rfl := Option.some.inj (hroot.symm.trans hroot')
    obtain rfl := Option.some.inj (hroot.symm.trans hroot'')
    obtain rfl := Option.some.inj (hfound.symm.trans hfound')
    exact ⟨found.cardinality, mem_childFields.2 ⟨child, found, hfound, hparent, rfl⟩⟩

/-- Columns of one name are one column. -/
theorem index_eq_of_name (hnames : columns.Pairwise fun c d => c.name ≠ d.name) {other : Nat}
    {column' : ResultColumn} (h : columns[index]? = some column)
    (h' : columns[other]? = some column') (hname : column'.name = column.name) : other = index := by
  obtain ⟨hlt, rfl⟩ := List.getElem?_eq_some_iff.1 h
  obtain ⟨hlt', rfl⟩ := List.getElem?_eq_some_iff.1 h'
  have hapart := List.pairwise_iff_getElem.1 hnames
  rcases Nat.lt_trichotomy other index with hless | heq | hmore
  · exact absurd hname (hapart _ _ hlt' hlt hless)
  · exact heq
  · exact absurd hname.symm (hapart _ _ hlt hlt' hmore)

/-- A column is found under its name if no node that hangs off its own has that name. -/
theorem field?_column (hnames : columns.Pairwise fun c d => c.name ≠ d.name)
    (hnode : (build columns relations).nodes[place]? = some node)
    (hcolumn : columns[index]? = some column) (hof : sameName column.table node.name = true)
    (hfree : ∀ child next, (build columns relations).HasChild place child →
      (build columns relations).nodes[child]? = some next → next.name ≠ column.name) :
    node.field? column.name = some (.column column.name index) := by
  obtain ⟨ofColumns, ofChildren, hfields, hcolumns, hchildren, -⟩ := fields_of_node hnode
  refine Node.field?_of_unique (?_ : Field.column column.name index ∈ node.fields)
    fun other hother hname => ?_
  · rw [hfields]
    exact List.mem_append_left _ ((hcolumns _).2 ⟨index, column, hcolumn, hof, rfl⟩)
  · rw [hfields] at hother
    rcases List.mem_append.1 hother with hother | hother
    · obtain ⟨index', column', hfound, -, rfl⟩ := (hcolumns other).1 hother
      obtain rfl := index_eq_of_name hnames hcolumn hfound hname
      obtain rfl := Option.some.inj (hcolumn.symm.trans hfound)
      rfl
    · obtain ⟨child, next, cardinality, hhangs, hnext, rfl⟩ := hchildren other hother
      exact absurd hname (hfree child next hhangs hnext)

/-- Behind the name of a node that hangs off another, the objects of that one have its objects. -/
theorem field?_child (hnode : (build columns relations).nodes[place]? = some node) {child : Nat}
    {next : Node} (hchild : (build columns relations).HasChild place child)
    (hnext : (build columns relations).nodes[child]? = some next) :
    ∃ name cardinality child', (build columns relations).HasChild place child' ∧
      node.field? next.name = some (.child name cardinality child') := by
  obtain ⟨ofColumns, ofChildren, hfields, -, hchildren, hall⟩ := fields_of_node hnode
  obtain ⟨cardinality, hmem⟩ := hall child next hchild hnext
  obtain ⟨other, hother, hfound⟩ := Node.field?_of_append hfields hmem
  obtain ⟨child', next', cardinality', hhangs, -, rfl⟩ := hchildren other hother
  exact ⟨_, _, _, hhangs, hfound⟩

/-- For columns of pairwise distinct names, all objects of a node, at any depth, in any group and of
any rows, hold under the name of a column of its relation the value that the column has in the first
row of their group, exactly if none of the nodes that hang off the node has the name of the column.
(A node without objects is below no root.) -/
theorem holds_column_iff (hnames : columns.Pairwise fun c d => c.name ≠ d.name)
    (hnode : (build columns relations).nodes[place]? = some node)
    (hcolumn : columns[index]? = some column) (hof : sameName column.table node.name = true) :
    (∀ rows group object, (build columns relations).Makes rows place group object →
      object.field? column.name = some (cell group index)) ↔
    (Relation.ReflTransGen (build columns relations).HasChild 0 place →
      ∀ child next, (build columns relations).HasChild place child →
        (build columns relations).nodes[child]? = some next → next.name ≠ column.name) := by
  constructor
  · intro hholds hreach child next hchild hnext hname
    -- one row of numbers is an object at the node, and holds no number where the child stands
    obtain ⟨object, hmade⟩ := exists_makes hreach hnode
    have hvalue := hholds _ _ _ hmade
    obtain ⟨below, hbelow, rfl⟩ := hmade.isObject hnode
    obtain ⟨name, cardinality, child', hhangs, hfound⟩ := field?_child hnode hchild hnext
    obtain ⟨node', hnode', hmem⟩ := hhangs
    obtain rfl := Option.some.inj (hnode.symm.trans hnode')
    obtain ⟨hlt, -⟩ := List.getElem?_eq_some_iff.1 hcolumn
    have hcell : cell [List.replicate columns.length (.int 1)] index = .int 1 := by
      simp [cell, List.getElem?_replicate_of_lt hlt]
    rw [← hname, Node.field?_objectOf, hfound, hcell, Option.map_some] at hvalue
    exact Field.value_child_ne_int (hbelow child' hmem) 1 (Option.some.inj hvalue)
  · intro hfree rows group object hmade
    obtain ⟨below, -, rfl⟩ := hmade.isObject hnode
    rw [Node.field?_objectOf, field?_column hnames hnode hcolumn hof (hfree hmade.reachable),
      Option.map_some]
    rfl

end

/-- Users with the name of a post each, and their posts, which are shown as `p`. -/
def postColumns : List ResultColumn :=
  [⟨"id", .int, true, "u"⟩, ⟨"p", .varchar, false, "u"⟩, ⟨"n", .int, false, "p"⟩]

/-- Two relations of different keys, of which the second hangs off the first. -/
def postRelations : List Relation :=
  [⟨"users", "u", "", .one, "id"⟩, ⟨"posts", "p", "u", .many, "n"⟩]

theorem postColumns_node : (build postColumns postRelations).nodes =
    [⟨"u", some 0, [.column "id" 0, .column "p" 1, .child "p" .many 1]⟩,
      ⟨"p", some 2, [.column "n" 2]⟩] := by
  decide +kernel

/-- Nothing hangs off the posts, so in any rows each post has its own number. -/
theorem holds_column_iff_numbersOfPosts :
    (postColumns.Pairwise fun c d => c.name ≠ d.name) ∧
      (∃ node, (build postColumns postRelations).nodes[1]? = some node ∧ node.name = "p") ∧
      ∀ rows group object, (build postColumns postRelations).Makes rows 1 group object →
        object.field? "n" = some (cell group 2) := by
  have hnames : postColumns.Pairwise fun c d => c.name ≠ d.name := by decide
  have hnode : (build postColumns postRelations).nodes[1]? = some ⟨"p", some 2, [.column "n" 2]⟩ := by
    rw [postColumns_node]
    rfl
  have hcolumn : postColumns[2]? = some ⟨"n", .int, false, "p"⟩ := rfl
  refine ⟨hnames, ⟨_, hnode, rfl⟩, ?_⟩
  refine (holds_column_iff hnames hnode hcolumn (by decide +kernel)).2 fun _ child next hchild => ?_
  obtain ⟨node, hfound, hmem⟩ := hchild
  obtain rfl := Option.some.inj (hnode.symm.trans hfound)
  exact absurd hmem List.not_mem_nil

/-- A row of a user, of a post of it that is called `x`. -/
def postRow : Row := [.int 1, .text "x", .int 10]

/-- The names of the columns and the keys of the relations are pairwise distinct, and yet the object of
the user does not hold the value of the column `p`: it has its posts under that name. -/
theorem child_hides_column : (postColumns.Pairwise fun c d => c.name ≠ d.name) ∧
    (postRelations.Pairwise fun r s => sameName r.key s.key = false) ∧
    (∃ node, (build postColumns postRelations).nodes[0]? = some node ∧
      sameName "u" node.name = true) ∧
    ∃ object, (build postColumns postRelations).Makes [postRow] 0 [postRow] object ∧
      cell [postRow] 1 = .text "x" ∧
      object.field? "p" = some (.list [.ofFields [("n", .int 10)]]) := by
  have hroot : (build postColumns postRelations).nodes[0]? =
      some ⟨"u", some 0, [.column "id" 0, .column "p" 1, .child "p" .many 1]⟩ := by
    rw [postColumns_node]
    rfl
  have hzip : (rowGroups (some 0) [postRow]).zip
      ((build postColumns postRelations).collect [postRow]) =
        [([postRow], .ofFields [("id", .int 1), ("p", .list [.ofFields [("n", .int 10)]])])] := by
    rfl
  have hmade : (build postColumns postRelations).Makes [postRow] 0 [postRow] _ :=
    .root hroot (hzip ▸ List.mem_singleton_self _)
  exact ⟨by decide, by decide +kernel, ⟨_, hroot, by decide +kernel⟩, _, hmade, rfl, rfl⟩

end ObjectTree

end QuerySignature
