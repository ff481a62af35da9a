import Mathlib.Tactic.Choose
import QuerySignature.Nesting.Collect
import QuerySignature.Proofs.Gathered
import QuerySignature.Proofs.Nesting.Shape

namespace QuerySignature

/-! # What is collected

The rows that make one object each are gathered one row after the other. What comes out is told
without that: the keys in the order of their first rows, and the rows of each key in their order.

Collecting is told by a plain definition: the objects of a node are one for each group of rows, with
the values of the first row of the group and with the objects of the children from all of its rows.
The definition looks at no depth; a built tree is low enough for the bounded recursion to reach all
that it asks for.

- `groups_eq`: the groups are the rows of each key;
- `map_snd_groups`: the same by the definition, where without a key all rows are one group;
- `Collected.unique`, `HeightAtMost.collected`: there is one such list of objects, and it is found;
- `Way.objects`: down a way through `many` relations there is one object for each list of keys that
  a row has along the way;
- `collected_iff`: both for a built tree.
-/

/-! ## Groups of rows -/

namespace ObjectTree

/-- The keys of rows, each at its first place. -/
def keysOf (keyIndex : Option Nat) (rows : List Row) : List String :=
  distinct (rows.filterMap (keyText? keyIndex))

/-- The rows of a key. -/
def rowsOf (keyIndex : Option Nat) (rows : List Row) (key : String) : List Row :=
  rows.filter fun row => keyText? keyIndex row == some key

/-- The groups of rows by their definition: without a key all rows are one group, if there are
any. -/
def rowGroups (keyIndex : Option Nat) (rows : List Row) : List (List Row) :=
  match keyIndex with
  | none => if rows.isEmpty then [] else [rows]
  | some index => (keysOf (some index) rows).map (rowsOf (some index) rows)

section

variable {keyIndex : Option Nat} {rows : List Row} {key : String}

theorem mem_keysOf :
    key ∈ keysOf keyIndex rows ↔ ∃ row ∈ rows, keyText? keyIndex row = some key := by
  unfold keysOf
  rw [mem_distinct, List.mem_filterMap]

theorem nodup_keysOf : (keysOf keyIndex rows).Nodup := nodup_distinct _

theorem mem_rowsOf {row : Row} :
    row ∈ rowsOf keyIndex rows key ↔ row ∈ rows ∧ keyText? keyIndex row = some key := by
  unfold rowsOf
  rw [List.mem_filter, beq_iff_eq]

theorem addToGroup_eq (key : String) (row : Row) : addToGroup key row = gather key row := by
  funext groups
  induction groups with
  | nil => rfl
  | cons group rest ih => rw [addToGroup, gather, ih]

/-- The groups are the rows of each key, in the order of the keys. -/
theorem groups_eq (keyIndex : Option Nat) (rows : List Row) :
    groups keyIndex rows =
      (keysOf keyIndex rows).map fun key => (key, rowsOf keyIndex rows key) := by
  unfold groups
  simp only [addToGroup_eq]
  exact foldl_gather (keyText? keyIndex) rows

theorem keysOf_concat {row : Row} (htext : keyText? keyIndex row = some key) :
    keysOf keyIndex (rows ++ [row]) = addDistinct (keysOf keyIndex rows) key := by
  unfold keysOf
  rw [List.filterMap_append, ← distinct_concat, List.filterMap_cons_some htext, List.filterMap_nil]

/-- Without a key all rows have the same one. -/
theorem keysOf_none (rows : List Row) : keysOf none rows = if rows.isEmpty then [] else [""] := by
  induction rows using List.reverseRecOn with
  | nil => rfl
  | append_singleton rows row ih =>
    rw [keysOf_concat rfl, ih]
    cases rows <;> rfl

theorem rowsOf_none (rows : List Row) : rowsOf none rows "" = rows := by
  unfold rowsOf keyText?
  simp

/-- With a key and without, the groups are the rows of each key. -/
theorem rowGroups_eq (keyIndex : Option Nat) (rows : List Row) :
    rowGroups keyIndex rows = (keysOf keyIndex rows).map (rowsOf keyIndex rows) := by
  cases keyIndex with
  | some index => rfl
  | none =>
    unfold rowGroups
    rw [keysOf_none]
    cases rows with
    | nil => rfl
    | cons row rest => simp [rowsOf_none]

theorem map_snd_groups (keyIndex : Option Nat) (rows : List Row) :
    (groups keyIndex rows).map (·.2) = rowGroups keyIndex rows := by
  rw [groups_eq, rowGroups_eq, List.map_map]
  rfl

end

end ObjectTree

/-! ## Objects of a node -/

namespace Json

/-- The items of a list; no other value has any. -/
def items : Json → List Json
  | .list items => items
  | _ => []

/-- The objects in the lists that objects have under names, one below the other. -/
def under : List String → List Json → List Json
  | [], objects => objects
  | name :: names, objects =>
    under names (objects.flatMap fun object => ((object.field? name).map items).getD [])

theorem under_flatMap {α : Type} (names : List String) (xs : List α) (f : α → List Json) :
    under names (xs.flatMap f) = xs.flatMap fun x => under names (f x) := by
  induction names generalizing f with
  | nil => rfl
  | cons name names ih =>
    unfold under
    rw [List.flatMap_assoc, ih]

/-- Of fields of one name the last one counts. -/
theorem field?_ofFields (name : String) (fields : List (String × Json)) :
    (ofFields fields).field? name =
      (fields.reverse.find? fun field => field.1 == name).map (·.2) := by
  unfold ofFields field?
  dsimp only
  induction fields using List.reverseRecOn with
  | nil => rfl
  | append_singleton fields field ih =>
    rw [List.foldl_append, List.foldl_cons, List.foldl_nil, find?_put, ih, List.reverse_append,
      List.reverse_singleton, List.singleton_append, List.find?_cons]
    by_cases hname : name = field.1
    · rw [if_pos hname, hname, beq_self_eq_true]
      rfl
    · have hother : (field.1 == name) = false := by simpa using Ne.symm hname
      rw [if_neg hname, hother]

end Json

namespace ObjectTree

/-! ## The definition -/

/-- The value of a field in the object of a group of rows, with the objects of the children. -/
def Field.value (group : List Row) (below : Nat → List Json) : Field → Json
  | .column _ index => (group.head?.bind (·[index]?)).getD .null
  | .child _ .many node => .list (below node)
  | .child _ .one node => (below node).head?.getD .null

/-- The object of a group of rows, with the objects of the children. -/
def Node.objectOf (node : Node) (group : List Row) (below : Nat → List Json) : Json :=
  .ofFields (node.fields.map fun field => (field.name, field.value group below))

/-- The objects of a node from a list of rows. What is `below` a group is collected from its
rows. -/
inductive Collected (tree : ObjectTree) : Nat → List Row → List Json → Prop
  | missing {place : Nat} {rows : List Row} (absent : tree.nodes[place]? = none) :
      Collected tree place rows []
  | node {place : Nat} {rows : List Row} {node : Node} (below : List Row → Nat → List Json)
      (found : tree.nodes[place]? = some node)
      (children : ∀ group ∈ rowGroups node.keyIndex rows, ∀ child ∈ node.children,
        Collected tree child group (below group child)) :
      Collected tree place rows
        ((rowGroups node.keyIndex rows).map fun group => node.objectOf group (below group))

/-- An object of a node, collected from one group of rows. -/
def IsObject (tree : ObjectTree) (node : Node) (group : List Row) (object : Json) : Prop :=
  ∃ below : Nat → List Json, (∀ child ∈ node.children, tree.Collected child group (below child)) ∧
    object = node.objectOf group below

/-- The field that the objects of a node have under a name. -/
def Node.field? (node : Node) (name : String) : Option Field :=
  node.fields.reverse.find? fun field => field.name == name

/-- A way down a tree through `many` relations: the names of the fields, the nodes from the first to
the last, and the last one. -/
inductive Way (tree : ObjectTree) : Nat → List String → List Node → Node → Prop
  | here {place : Nat} {node : Node} (found : tree.nodes[place]? = some node) :
      Way tree place [] [node] node
  | down {place child : Nat} {node last : Node} {name own : String} {names : List String}
      {nodes : List Node} (found : tree.nodes[place]? = some node)
      (field : node.field? name = some (.child own .many child))
      (rest : Way tree child names nodes last) : Way tree place (name :: names) (node :: nodes) last

/-- The keys of a row along a way, if it has one at each node. -/
def keysAlong : List Node → Row → Option (List String)
  | [], _ => some []
  | node :: nodes, row =>
    (keyText? node.keyIndex row).bind fun key => (keysAlong nodes row).map (key :: ·)

/-- The lists of keys that rows have along a way, each at its first place. -/
def keysSeen (nodes : List Node) (rows : List Row) : List (List String) :=
  distinct (rows.filterMap (keysAlong nodes))

/-- The rows of a list of keys along a way. -/
def rowsAlong (nodes : List Node) (keys : List String) (rows : List Row) : List Row :=
  rows.filter fun row => keysAlong nodes row == some keys

/-! ## One list of objects -/

section

variable {tree : ObjectTree} {place : Nat} {rows : List Row}

theorem Node.objectOf_eq (node : Node) (group : List Row) (below : Nat → List Json) :
    object below group node.fields = node.objectOf group below := by
  unfold object objectOf
  refine congrArg Json.ofFields (List.map_congr_left fun field _ => ?_)
  cases field with
  | column name index => rfl
  | child name cardinality child => cases cardinality <;> rfl

theorem Node.objectOf_congr {node : Node} (group : List Row) {first second : Nat → List Json}
    (h : ∀ child ∈ node.children, first child = second child) :
    node.objectOf group first = node.objectOf group second := by
  rw [← Node.objectOf_eq, ← Node.objectOf_eq]
  exact object_congr h

/-- There is at most one list of objects. -/
theorem Collected.unique {first second : List Json} (h : tree.Collected place rows first)
    (h' : tree.Collected place rows second) : first = second := by
  induction h generalizing second with
  | missing absent =>
    cases h' with
    | missing _ => rfl
    | node below found children => cases found.symm.trans absent
  | node below found children ih =>
    cases h' with
    | missing absent => cases found.symm.trans absent
    | node below' found' children' =>
      obtain rfl := Option.some.inj (found.symm.trans found')
      refine List.map_congr_left fun group hgroup =>
        Node.objectOf_congr group fun child hchild => ?_
      exact ih group hgroup child hchild (children' group hgroup child hchild)

/-- To a depth that is enough for what hangs off a node, the bounded recursion finds it. -/
theorem HeightAtMost.collected {height : Nat} (h : tree.HeightAtMost height place)
    (rows : List Row) : tree.Collected place rows (tree.collectNode height place rows) := by
  induction height generalizing place rows with
  | zero => exact .missing h
  | succ height ih =>
    unfold collectNode
    cases found : tree.nodes[place]? with
    | none => exact .missing found
    | some node =>
      have hobjects : ((groups node.keyIndex rows).map fun keyed =>
          object (fun child => tree.collectNode height child keyed.2) keyed.2 node.fields) =
          (rowGroups node.keyIndex rows).map fun group =>
            node.objectOf group fun child => tree.collectNode height child group := by
        rw [← map_snd_groups, List.map_map]
        exact List.map_congr_left fun keyed _ => Node.objectOf_eq node _ _
      show tree.Collected place rows ((groups node.keyIndex rows).map fun keyed =>
        object (fun child => tree.collectNode height child keyed.2) keyed.2 node.fields)
      rw [hobjects]
      exact .node _ found fun group _ child hchild => ih (h child ⟨node, found, hchild⟩) group

end

/-! ## Ways through many relations -/

theorem keysAlong_cons {node : Node} {nodes : List Node} {row : Row} {keys : List String} :
    keysAlong (node :: nodes) row = some keys ↔ ∃ key rest, keys = key :: rest ∧
      keyText? node.keyIndex row = some key ∧ keysAlong nodes row = some rest := by
  rw [keysAlong, Option.bind_eq_some_iff]
  constructor
  · rintro ⟨key, hkey, hrest⟩
    obtain ⟨rest, halong, rfl⟩ := Option.map_eq_some_iff.1 hrest
    exact ⟨key, rest, rfl, hkey, halong⟩
  · rintro ⟨key, rest, rfl, hkey, hrest⟩
    exact ⟨key, hkey, Option.map_eq_some_iff.2 ⟨rest, hrest, rfl⟩⟩

theorem mem_keysSeen {nodes : List Node} {rows : List Row} {keys : List String} :
    keys ∈ keysSeen nodes rows ↔ ∃ row ∈ rows, keysAlong nodes row = some keys := by
  unfold keysSeen
  rw [mem_distinct, List.mem_filterMap]

theorem nodup_keysSeen (nodes : List Node) (rows : List Row) : (keysSeen nodes rows).Nodup :=
  nodup_distinct _

/-- The rows of a list of keys are those of the first key that have the others. -/
theorem rowsAlong_cons (node : Node) (nodes : List Node) (key : String) (rest : List String)
    (rows : List Row) :
    rowsAlong (node :: nodes) (key :: rest) rows =
      rowsAlong nodes rest (rowsOf node.keyIndex rows key) := by
  unfold rowsAlong rowsOf
  rw [List.filter_filter]
  refine List.filter_congr fun row _ => ?_
  rw [Bool.eq_iff_iff, beq_iff_eq, Bool.and_eq_true, beq_iff_eq, beq_iff_eq, keysAlong_cons]
  constructor
  · rintro ⟨_, _, heq, hkey, hrest⟩
    cases heq
    exact ⟨hrest, hkey⟩
  · exact fun h => ⟨key, rest, rfl, h.2, h.1⟩

/-- The lists of keys are the first keys, each with the lists that its rows have further down. -/
theorem keysSeen_cons (node : Node) (nodes : List Node) (rows : List Row) :
    (keysSeen (node :: nodes) rows).Perm ((keysOf node.keyIndex rows).flatMap fun key =>
      (keysSeen nodes (rowsOf node.keyIndex rows key)).map (key :: ·)) := by
  have hnodup : ((keysOf node.keyIndex rows).flatMap fun key =>
      (keysSeen nodes (rowsOf node.keyIndex rows key)).map (key :: ·)).Nodup := by
    rw [List.nodup_flatMap]
    refine ⟨fun key _ => (nodup_keysSeen _ _).map List.cons_injective, ?_⟩
    refine nodup_keysOf.imp fun hne keys hfirst hsecond => ?_
    obtain ⟨_, _, rfl⟩ := List.mem_map.1 hfirst
    obtain ⟨_, _, heq⟩ := List.mem_map.1 hsecond
    exact hne (List.cons.inj heq).1.symm
  refine (List.perm_ext_iff_of_nodup (nodup_keysSeen _ _) hnodup).2 fun keys => ?_
  simp only [mem_keysSeen, List.mem_flatMap, List.mem_map, mem_keysOf, mem_rowsOf, keysAlong_cons]
  constructor
  · rintro ⟨row, hrow, key, rest, rfl, hkey, hrest⟩
    exact ⟨key, ⟨row, hrow, hkey⟩, rest, ⟨row, ⟨hrow, hkey⟩, hrest⟩, rfl⟩
  · rintro ⟨key, -, rest, ⟨row, ⟨hrow, hkey⟩, hrest⟩, rfl⟩
    exact ⟨row, hrow, key, rest, rfl, hkey, hrest⟩

theorem keysSeen_singleton (node : Node) (rows : List Row) :
    (keysSeen [node] rows).Perm ((keysOf node.keyIndex rows).map ([·])) := by
  have hnodup : ((keysOf node.keyIndex rows).map ([·])).Nodup :=
    nodup_keysOf.map fun _ _ h => (List.cons.inj h).1
  refine (List.perm_ext_iff_of_nodup (nodup_keysSeen _ _) hnodup).2 fun keys => ?_
  simp only [mem_keysSeen, List.mem_map, mem_keysOf, keysAlong_cons]
  constructor
  · rintro ⟨row, hrow, key, rest, rfl, hkey, hrest⟩
    cases hrest
    exact ⟨key, ⟨row, hrow, hkey⟩, rfl⟩
  · rintro ⟨key, ⟨row, hrow, hkey⟩, rfl⟩
    exact ⟨row, hrow, key, [], rfl, hkey, rfl⟩

theorem rowsAlong_singleton (node : Node) (key : String) (rows : List Row) :
    rowsAlong [node] [key] rows = rowsOf node.keyIndex rows key := by
  rw [rowsAlong_cons]
  exact List.filter_eq_self.2 fun _ _ => beq_self_eq_true _

/-- A field of an object is the value of the last field of its name. -/
theorem Node.field?_objectOf (node : Node) (name : String) (group : List Row)
    (below : Nat → List Json) :
    (node.objectOf group below).field? name =
      (node.field? name).map (Field.value group below) := by
  unfold objectOf Node.field?
  rw [Json.field?_ofFields, ← List.map_reverse, List.find?_map, Option.map_map]
  rfl

/-- Down a way through `many` relations, from the objects of its first node, there is one object for
each list of keys that a row has along the way, and it is collected from the rows of these keys. -/
theorem Way.objects {tree : ObjectTree} {place : Nat} {names : List String} {nodes : List Node}
    {last : Node} (hway : tree.Way place names nodes last) {rows : List Row} {objects : List Json}
    (h : tree.Collected place rows objects) :
    ∃ objectOf : List String → Json,
      (∀ keys ∈ keysSeen nodes rows,
        tree.IsObject last (rowsAlong nodes keys rows) (objectOf keys)) ∧
      (Json.under names objects).Perm ((keysSeen nodes rows).map objectOf) := by
  induction hway generalizing rows objects with
  | @here place node found =>
    cases h with
    | missing absent => cases found.symm.trans absent
    | node below found' children =>
      obtain rfl := Option.some.inj (found.symm.trans found')
      rw [rowGroups_eq] at children ⊢
      -- the way ends here: there is an object for each key, and nothing is looked up in it
      refine ⟨fun keys => node.objectOf (rowsAlong [node] keys rows)
        (below (rowsAlong [node] keys rows)), fun keys hkeys => ?_, ?_⟩
      · obtain ⟨key, hkey, rfl⟩ := List.mem_map.1 ((keysSeen_singleton node rows).mem_iff.1 hkeys)
        dsimp only
        rw [rowsAlong_singleton]
        exact ⟨_, children _ (List.mem_map_of_mem hkey), rfl⟩
      · refine List.Perm.trans (List.Perm.of_eq ?_) ((keysSeen_singleton node rows).map _).symm
        rw [List.map_map, List.map_map]
        refine List.map_congr_left fun key _ => ?_
        dsimp only [Function.comp]
        rw [rowsAlong_singleton]
  | @down place child node last name own names nodes found field rest ih =>
    cases h with
    | missing absent => cases found.symm.trans absent
    | node below found' children =>
      obtain rfl := Option.some.inj (found.symm.trans found')
      have hchild : child ∈ node.children := Node.mem_children.2
        ⟨own, .many, List.mem_reverse.1 (List.mem_of_find?_eq_some field)⟩
      rw [rowGroups_eq] at children ⊢
      -- below each first key there is an object for each list of the other keys
      choose! objectOf hobject hperm using fun key (hkey : key ∈ keysOf node.keyIndex rows) =>
        ih (children _ (List.mem_map_of_mem hkey) child hchild)
      refine ⟨fun keys => objectOf (keys.headD "") keys.tail, fun keys hkeys => ?_, ?_⟩
      · rw [(keysSeen_cons node nodes rows).mem_iff, List.mem_flatMap] at hkeys
        obtain ⟨key, hkey, hmem⟩ := hkeys
        obtain ⟨others, hothers, rfl⟩ := List.mem_map.1 hmem
        rw [rowsAlong_cons]
        exact hobject key hkey others hothers
      · refine List.Perm.trans ?_ ((keysSeen_cons node nodes rows).map _).symm
        rw [Json.under, List.map_map, List.flatMap_map, Json.under_flatMap, List.map_flatMap]
        refine List.Perm.flatMap_left _ fun key hkey => ?_
        rw [List.map_map]
        dsimp only [Function.comp]
        rw [Node.field?_objectOf, field]
        exact hperm key hkey

/-- From a built tree exactly the list of objects is collected that the definition gives, and down
any way through `many` relations there is one object for each list of keys that a row has along the
way: no row that has its keys is dropped, and no object is made up. -/
theorem collected_iff (columns : List ResultColumn) (relations : List Relation) :
    (∀ rows objects, (build columns relations).Collected 0 rows objects ↔
      objects = (build columns relations).collect rows) ∧
    ∀ names nodes last, (build columns relations).Way 0 names nodes last → ∀ rows : List Row,
      ∃ objectOf : List String → Json,
        (∀ keys ∈ keysSeen nodes rows,
          (build columns relations).IsObject last (rowsAlong nodes keys rows) (objectOf keys)) ∧
        (Json.under names ((build columns relations).collect rows)).Perm
          ((keysSeen nodes rows).map objectOf) := by
  have hfound : ∀ rows, (build columns relations).Collected 0 rows
      ((build columns relations).collect rows) := (heightAtMost_root columns relations).collected
  refine ⟨fun rows objects => ⟨fun h => h.unique (hfound rows), ?_⟩, ?_⟩
  · rintro rfl
    exact hfound rows
  · exact fun names nodes last hway rows => hway.objects (hfound rows)

/-- Users, and their posts below them. -/
def usersWithPosts : ObjectTree :=
  build [⟨"id", .int, true, "u"⟩, ⟨"id", .int, false, "p"⟩]
    [⟨"users", "u", "", .one, "id"⟩, ⟨"posts", "p", "u", .many, "id"⟩]

/-- Two posts of a user, one of them twice, a user without posts, and a row that is too short. -/
def postRows : List Row :=
  [[.int 1, .int 10], [.int 2, .null], [.int 1, .int 11], [.int 1, .int 10], [.int 3]]

/-- From the five rows two posts are collected below three users. -/
theorem collected_iff_usersWithPosts : ∃ nodes last, usersWithPosts.Way 0 ["p"] nodes last ∧
    (keysOf (some 0) postRows = ["1", "2", "3"]) ∧
    keysSeen nodes postRows = [["1", "10"], ["1", "11"]] ∧
    ∃ objectOf : List String → Json,
      (∀ keys ∈ keysSeen nodes postRows,
        usersWithPosts.IsObject last (rowsAlong nodes keys postRows) (objectOf keys)) ∧
      (Json.under ["p"] (usersWithPosts.collect postRows)).Perm
        [objectOf ["1", "10"], objectOf ["1", "11"]] := by
  have hway : usersWithPosts.Way 0 ["p"]
      [⟨"u", some 0, [.column "id" 0, .child "p" .many 1]⟩, ⟨"p", some 1, [.column "id" 1]⟩]
      ⟨"p", some 1, [.column "id" 1]⟩ :=
    @Way.down _ 0 1 _ _ "p" "p" [] _ (by decide +kernel) (by decide +kernel)
      (.here (by decide +kernel))
  have hseen : keysSeen
      [⟨"u", some 0, [.column "id" 0, .child "p" .many 1]⟩, ⟨"p", some 1, [.column "id" 1]⟩]
      postRows = [["1", "10"], ["1", "11"]] := by decide +kernel
  obtain ⟨objectOf, hobject, hperm⟩ := (collected_iff _ _).2 _ _ _ hway postRows
  refine ⟨_, _, hway, by decide +kernel, hseen, objectOf, hobject, ?_⟩
  rw [hseen] at hperm
  exact hperm

end ObjectTree

end QuerySignature
