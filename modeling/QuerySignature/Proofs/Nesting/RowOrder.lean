import QuerySignature.Proofs.Nesting.Collected

namespace QuerySignature

/-! # Rows in another order

Collecting looks at the order of the rows in three places: the objects are in the order of the first
rows of their keys, an object has the values of its first row, and of the objects of a `one`
relation the first is taken. Where the keys determine the values and the one object, only the order
of lists is left.

- `Determined.child`: the rows of an object determine what is below it as well;
- `Collected.perm`: rows in another order give the same objects up to the order of lists;
- `collect_perm`: the same for a built tree.
-/

namespace ObjectTree

/-! ## What keys determine -/

/-- A way down a tree from a node: the nodes from the first to the last, and the last one. -/
inductive Descent (tree : ObjectTree) : Nat → List Node → Node → Prop
  | here {place : Nat} {node : Node} (found : tree.nodes[place]? = some node) :
      Descent tree place [node] node
  | down {place child : Nat} {node last : Node} {nodes : List Node}
      (found : tree.nodes[place]? = some node) (hangs : child ∈ node.children)
      (rest : Descent tree child nodes last) : Descent tree place (node :: nodes) last

/-- The keys along the way from a node determine the columns of the last node, and for each `one`
relation below that the key, where a row has one. -/
structure Determined (tree : ObjectTree) (place : Nat) (rows : List Row) : Prop where
  columns : ∀ nodes last, tree.Descent place nodes last → ∀ keys,
    ∀ first ∈ rowsAlong nodes keys rows, ∀ second ∈ rowsAlong nodes keys rows,
      ∀ name index, Field.column name index ∈ last.fields →
        (first[index]?).getD .null = (second[index]?).getD .null
  one : ∀ nodes last, tree.Descent place nodes last → ∀ keys,
    ∀ first ∈ rowsAlong nodes keys rows, ∀ second ∈ rowsAlong nodes keys rows,
      ∀ name child node, Field.child name .one child ∈ last.fields →
        tree.nodes[child]? = some node →
          ∀ key ∈ keyText? node.keyIndex first, ∀ other ∈ keyText? node.keyIndex second, key = other

/-! ## The same up to the order of lists -/

mutual

/-- Two objects of a node that are the same up to the order of the lists in them. -/
inductive SameObject (tree : ObjectTree) : Nat → Json → Json → Prop
  | object {place : Nat} {node : Node} (found : tree.nodes[place]? = some node)
      (first second : Field → Json)
      (values : ∀ field ∈ node.fields, SameValue tree field (first field) (second field)) :
      SameObject tree place (.ofFields (node.fields.map fun field => (field.name, first field)))
        (.ofFields (node.fields.map fun field => (field.name, second field)))

/-- Two values of a field that are the same up to the order of the lists of `many` relations. -/
inductive SameValue (tree : ObjectTree) : Field → Json → Json → Prop
  | column {name : String} {index : Nat} {value : Json} :
      SameValue tree (.column name index) value value
  | many {name : String} {child : Nat} {objects other : List Json}
      (same : SameObjects tree child objects other) :
      SameValue tree (.child name .many child) (.list objects) (.list other)
  | one {name : String} {child : Nat} {first second : Json}
      (same : SameObject tree child first second) :
      SameValue tree (.child name .one child) first second
  | missing {name : String} {child : Nat} : SameValue tree (.child name .one child) .null .null

/-- Two lists of objects of a node that are the same up to the order of lists, their own
included. -/
inductive SameObjects (tree : ObjectTree) : Nat → List Json → List Json → Prop
  | nil {place : Nat} : SameObjects tree place [] []
  | cons {place : Nat} {first second : Json} {objects other : List Json}
      (same : SameObject tree place first second) (rest : SameObjects tree place objects other) :
      SameObjects tree place (first :: objects) (second :: other)
  | order {place : Nat} {objects paired other : List Json}
      (same : SameObjects tree place objects paired) (perm : paired.Perm other) :
      SameObjects tree place objects other

end

section

variable {tree : ObjectTree} {place : Nat} {rows : List Row} {objects : List Json}

/-- The keys determine as much below an object, for its rows. -/
theorem Determined.child (h : tree.Determined place rows) {node : Node}
    (found : tree.nodes[place]? = some node) {child : Nat} (hangs : child ∈ node.children)
    (key : String) : tree.Determined child (rowsOf node.keyIndex rows key) where
  columns nodes last hway keys first hfirst second hsecond := by
    rw [← rowsAlong_cons] at hfirst hsecond
    exact h.columns _ last (.down found hangs hway) _ first hfirst second hsecond
  one nodes last hway keys first hfirst second hsecond := by
    rw [← rowsAlong_cons] at hfirst hsecond
    exact h.one _ last (.down found hangs hway) _ first hfirst second hsecond

/-- The rows of keys along a way share the key of its last node. -/
theorem Descent.exists_key {nodes : List Node} {last : Node} (hway : tree.Descent place nodes last)
    (rows : List Row) (keys : List String) : last ∈ tree.nodes ∧
      ∃ key, ∀ row ∈ rowsAlong nodes keys rows,
        row ∈ rows ∧ keyText? last.keyIndex row = some key := by
  induction hway generalizing rows keys with
  | @here place node found =>
    refine ⟨List.mem_of_getElem? found, keys.headD "", fun row hrow => ?_⟩
    obtain ⟨hmem, hkeys⟩ := List.mem_filter.1 hrow
    obtain ⟨key, rest, rfl, hkey, -⟩ := keysAlong_cons.1 (beq_iff_eq.1 hkeys)
    exact ⟨hmem, hkey⟩
  | @down place child node last nodes found hangs rest ih =>
    obtain ⟨hlast, key, hkey⟩ := ih (rowsOf node.keyIndex rows (keys.headD "")) keys.tail
    refine ⟨hlast, key, fun row hrow => ?_⟩
    cases keys with
    | nil =>
      obtain ⟨_, _, heq, -⟩ := keysAlong_cons.1 (beq_iff_eq.1 (List.mem_filter.1 hrow).2)
      cases heq
    | cons first others =>
      rw [rowsAlong_cons] at hrow
      obtain ⟨hmem, htext⟩ := hkey row hrow
      exact ⟨(mem_rowsOf.1 hmem).1, htext⟩

/-- It is enough that the key of each node determines its columns and its `one` objects by itself,
as where every relation has a unique key. -/
theorem Determined.of_keys (place : Nat) (h : ∀ node ∈ tree.nodes, ∀ first ∈ rows, ∀ second ∈ rows,
    ∀ key, keyText? node.keyIndex first = some key → keyText? node.keyIndex second = some key →
      (∀ name index, Field.column name index ∈ node.fields →
        (first[index]?).getD .null = (second[index]?).getD .null) ∧
      ∀ name child below, Field.child name .one child ∈ node.fields →
        tree.nodes[child]? = some below → ∀ key ∈ keyText? below.keyIndex first,
          ∀ other ∈ keyText? below.keyIndex second, key = other) : tree.Determined place rows where
  columns nodes last hway keys first hfirst second hsecond := by
    obtain ⟨hlast, key, hkey⟩ := hway.exists_key rows keys
    exact (h last hlast first (hkey first hfirst).1 second (hkey second hsecond).1 key
      (hkey first hfirst).2 (hkey second hsecond).2).1
  one nodes last hway keys first hfirst second hsecond := by
    obtain ⟨hlast, key, hkey⟩ := hway.exists_key rows keys
    exact (h last hlast first (hkey first hfirst).1 second (hkey second hsecond).1 key
      (hkey first hfirst).2 (hkey second hsecond).2).2

theorem keysOf_perm {other : List Row} (h : rows.Perm other) (keyIndex : Option Nat) :
    (keysOf keyIndex rows).Perm (keysOf keyIndex other) := by
  refine (List.perm_ext_iff_of_nodup nodup_keysOf nodup_keysOf).2 fun key => ?_
  simp only [mem_keysOf, h.mem_iff]

/-- Rows that share a key make one object at most. -/
theorem Collected.length_le_one (h : tree.Collected place rows objects)
    (hkeys : ∀ node, tree.nodes[place]? = some node → ∀ first ∈ rows, ∀ second ∈ rows,
      ∀ key ∈ keyText? node.keyIndex first, ∀ other ∈ keyText? node.keyIndex second, key = other) :
    objects.length ≤ 1 := by
  cases h with
  | missing absent => exact Nat.zero_le _
  | @node _ _ node below found children =>
    rw [List.length_map, rowGroups_eq, List.length_map]
    have hsame : ∀ key ∈ keysOf node.keyIndex rows, ∀ other ∈ keysOf node.keyIndex rows,
        key = other := by
      intro key hkey other hother
      obtain ⟨first, hfirst, hkey⟩ := mem_keysOf.1 hkey
      obtain ⟨second, hsecond, hother⟩ := mem_keysOf.1 hother
      exact hkeys node found first hfirst second hsecond key hkey other hother
    have hnodup : (keysOf node.keyIndex rows).Nodup := nodup_keysOf
    generalize keysOf node.keyIndex rows = keys at hsame hnodup
    match keys with
    | [] => exact Nat.zero_le _
    | [_] => exact Nat.le_refl _
    | key :: other :: rest =>
      have heq := hsame key List.mem_cons_self other (List.mem_cons_of_mem _ List.mem_cons_self)
      exact absurd (heq ▸ List.mem_cons_self) (List.nodup_cons.1 hnodup).1

theorem SameObjects.of_forall₂ {paired : List Json}
    (h : List.Forall₂ (tree.SameObject place) objects paired) :
    tree.SameObjects place objects paired := by
  induction h with
  | nil => exact .nil
  | cons hfirst _ ih => exact .cons hfirst ih

/-- Where there is one object at most, the first of them is the same on both sides. -/
theorem sameValue_one {paired other : List Json}
    (h : List.Forall₂ (tree.SameObject place) objects paired) (hperm : paired.Perm other)
    (hlength : objects.length ≤ 1) (name : String) :
    tree.SameValue (.child name .one place) (objects.head?.getD .null)
      (other.head?.getD .null) := by
  cases h with
  | nil =>
    rw [hperm.symm.eq_nil]
    exact .missing
  | cons hfirst hrest =>
    cases hrest with
    | nil =>
      rw [hperm.symm.eq_singleton]
      exact .one hfirst
    | cons _ _ => exact absurd hlength (by simp)

theorem exists_head?_rowsOf {keyIndex : Option Nat} {key : String}
    (h : key ∈ keysOf keyIndex rows) :
    ∃ row ∈ rowsOf keyIndex rows key, (rowsOf keyIndex rows key).head? = some row := by
  obtain ⟨row, hrow, hkey⟩ := mem_keysOf.1 h
  have hne : rowsOf keyIndex rows key ≠ [] := List.ne_nil_of_mem (mem_rowsOf.2 ⟨hrow, hkey⟩)
  exact ⟨_, List.head_mem hne, List.head?_eq_some_head hne⟩

/-- From rows in another order the same objects are collected, up to the order of lists. -/
theorem Collected.perm {other : List Row} {objects' : List Json}
    (h : tree.Collected place rows objects) (h' : tree.Collected place other objects')
    (hperm : rows.Perm other) (hrows : tree.Determined place rows) :
    ∃ paired, List.Forall₂ (tree.SameObject place) objects paired ∧ paired.Perm objects' := by
  induction h generalizing other objects' with
  | missing absent =>
    cases h' with
    | missing _ => exact ⟨[], .nil, .refl _⟩
    | node below found children => cases found.symm.trans absent
  | @node place rows node below found children ih =>
    cases h' with
    | missing absent => cases found.symm.trans absent
    | node below' found' children' =>
      obtain rfl := Option.some.inj (found.symm.trans found')
      have hkeys := keysOf_perm hperm node.keyIndex
      rw [rowGroups_eq] at ih children children' ⊢
      rw [rowGroups_eq, List.map_map, List.map_map]
      refine ⟨(keysOf node.keyIndex rows).map fun key => node.objectOf
        (rowsOf node.keyIndex other key) (below' (rowsOf node.keyIndex other key)), ?_, hkeys.map _⟩
      rw [List.forall₂_map_left_iff, List.forall₂_map_right_iff, List.forall₂_same]
      intro key hkey
      have hkey' := hkeys.mem_iff.1 hkey
      have hgroup : (rowsOf node.keyIndex rows key).Perm (rowsOf node.keyIndex other key) :=
        hperm.filter _
      -- what is below the two groups is the same up to the order of lists
      have hbelow : ∀ child ∈ node.children,
          ∃ paired, List.Forall₂ (tree.SameObject child) (below _ child) paired ∧
            paired.Perm (below' _ child) := fun child hchild =>
        ih _ (List.mem_map_of_mem hkey) child hchild
          (children' _ (List.mem_map_of_mem hkey') child hchild) hgroup
            (hrows.child found hchild key)
      have hown : ∀ {row}, row ∈ rowsOf node.keyIndex rows key →
          row ∈ rowsAlong [node] [key] rows := fun h => rowsAlong_singleton node key rows ▸ h
      refine .object found _ _ fun field hfield => ?_
      cases field with
      | column name index =>
        obtain ⟨first, hfirst, hhead⟩ := exists_head?_rowsOf hkey
        obtain ⟨second, hsecond, hhead'⟩ := exists_head?_rowsOf hkey'
        have hcell := hrows.columns _ _ (.here found) _ first (hown hfirst) second
          (hown (hgroup.mem_iff.2 hsecond)) name index hfield
        -- the first rows of the two groups may differ, but not in the columns of the node
        simp only [Field.value, hhead, hhead', Option.bind_some, hcell]
        exact .column
      | child name cardinality child =>
        have hchild : child ∈ node.children := Node.mem_children.2 ⟨name, cardinality, hfield⟩
        obtain ⟨paired, hsame, horder⟩ := hbelow child hchild
        cases cardinality with
        | many => exact .many (.order (.of_forall₂ hsame) horder)
        | one =>
          -- which object comes first does not matter, since there is no second one
          refine sameValue_one hsame horder ?_ name
          refine (children _ (List.mem_map_of_mem hkey) child hchild).length_le_one ?_
          intro below hfound first hfirst second hsecond
          exact hrows.one _ _ (.here found) _ first (hown hfirst) second (hown hsecond) name child
            below hfield hfound

end

/-- Where the keys determine the columns and the objects of `one` relations, rows in another order
give the same objects, up to the order of the root list and of the lists of `many` relations. -/
theorem collect_perm (columns : List ResultColumn) (relations : List Relation)
    {rows other : List Row} (hrows : (build columns relations).Determined 0 rows)
    (hperm : rows.Perm other) :
    (build columns relations).SameObjects 0 ((build columns relations).collect rows)
      ((build columns relations).collect other) := by
  have hheight := heightAtMost_root columns relations
  obtain ⟨paired, hsame, horder⟩ :=
    (hheight.collected rows).perm (hheight.collected other) hperm hrows
  exact .order (.of_forall₂ hsame) horder

/-- Users with the one city each of them lives in, and their posts below them. -/
def usersWithCity : ObjectTree :=
  build [⟨"id", .int, true, "u"⟩, ⟨"name", .varchar, true, "u"⟩, ⟨"id", .int, false, "c"⟩,
      ⟨"id", .int, false, "p"⟩]
    [⟨"users", "u", "", .one, "id"⟩, ⟨"cities", "c", "u", .one, "id"⟩,
      ⟨"posts", "p", "u", .many, "id"⟩]

/-- The post of a user as a row, with the user's name and city. -/
def postOfUser (user : Int) (name : String) (city post : Json) : Row :=
  [.int user, .text name, city, post]

/-- Two posts of a user, one of them without the city, and another user without posts. -/
def cityRows : List Row :=
  [postOfUser 1 "a" (.int 7) (.int 10), postOfUser 2 "b" .null .null,
    postOfUser 1 "a" .null (.int 11)]

/-- From the other end the users come in another order, and so do the posts of the first. -/
theorem collect_perm_usersWithCity : usersWithCity.Determined 0 cityRows ∧
    usersWithCity.SameObjects 0 (usersWithCity.collect cityRows)
      (usersWithCity.collect cityRows.reverse) := by
  have hnodes : usersWithCity.nodes =
      [⟨"u", some 0, [.column "id" 0, .column "name" 1, .child "c" .one 1, .child "p" .many 2]⟩,
        ⟨"c", some 2, [.column "id" 2]⟩, ⟨"p", some 3, [.column "id" 3]⟩] := by decide +kernel
  have hrows : usersWithCity.Determined 0 cityRows := by
    refine .of_keys 0 ?_
    have husers : (Json.int 1).compact ≠ (Json.int 2).compact := by decide +kernel
    have hposts : (Json.int 10).compact ≠ (Json.int 11).compact := by decide +kernel
    rw [hnodes]
    simp only [List.forall_mem_cons, cityRows, keyText?, postOfUser]
    simp +contextual [or_imp, forall_and, husers, husers.symm, hposts, hposts.symm]
  exact ⟨hrows, collect_perm _ _ hrows (List.reverse_perm _).symm⟩

end ObjectTree

end QuerySignature
