import QuerySignature.Proofs.Comparison.Steps
import QuerySignature.Proofs.Spelling.Columns
import QuerySignature.Proofs.Spelling.Text

namespace QuerySignature

/-! # Clauses by their plain forms

What the clauses of a query make of columns under names of one plain form: the links and the relations
of a FROM clause, the output columns, and the shape that decides how many rows come back.

The name of a join column is read with its case in one place: a projection under another name than the
column's gives it that name. Where case does not count, relations are compared without it.

- `JoinCondition.link_respelled`: what a joined table hangs off.
- `Sources.Respelled.add`, `Sources.Respelled.join`: one more source.
- `BranchResult.Respelled.of`: a branch, from its clauses.
-/

/-- What a walk over a statement has in common with a walk over its plain form. They make the same
variables, for texts that may differ. -/
def Spelling.likeness (s : Spelling) : Likeness where
  Label _ _ := True
  Name := s.Same
  Var := TypeVar.Relabelled
  Place i i' := i' = i
  Column := SourceColumn.Respelled s
  sameLabel _ := trivial
  label _ := trivial
  noName := rfl
  name h := h.name
  visibleTable h := h.visibleTable
  qualifiedName _ := trivial
  notNull h := h.notNull
  projected h := h.var.projected
  info h := h.var.info
  tied h _ := h.var

/-- An expression of which the same is found out. -/
abbrev Inferred.Respelled (s : Spelling) : Inferred → Inferred → Prop := Inferred.Compared s.likeness

/-- An output column of which the same is found out, under names of one plain form. -/
abbrev OutputColumn.Respelled (s : Spelling) : OutputColumn → OutputColumn → Prop :=
  OutputColumn.Compared s.likeness

/-- A relation, under names of one plain form. -/
structure Relation.Respelled (s : Spelling) (r r' : Relation) : Prop where
  name : s.Same r.name r'.name
  aliasName : s.Same r.aliasName r'.aliasName
  parent : s.Same r.parent r'.parent
  cardinality : r'.cardinality = r.cardinality
  joinColumn : s.caseless = false → r'.joinColumn = r.joinColumn

/-- A link to one table. -/
structure Link.Respelled (s : Spelling) (link link' : Link) : Prop where
  parent : Option.Rel s.Same link.parent link'.parent
  cardinality : link'.cardinality = link.cardinality

/-- A FROM clause with the same columns and relations. -/
structure Sources.Respelled (s : Spelling) (clause clause' : Sources) : Prop where
  columns : clause.columns.Respelled s clause'.columns
  relations : List.Forall₂ (Relation.Respelled s) clause.relations clause'.relations

/-- A branch with the same columns, relations and shape. -/
structure BranchResult.Respelled (s : Spelling) (b b' : BranchResult) : Prop where
  columns : List.Forall₂ (OutputColumn.Respelled s) b.columns b'.columns
  relations : List.Forall₂ (Relation.Respelled s) b.relations b'.relations
  visible : b.visible.Respelled s b'.visible
  shape : b'.shape = b.shape

/-- A query with the same columns and relations, and as many rows. -/
structure QueryResult.Respelled (s : Spelling) (q q' : QueryResult) : Prop where
  columns : List.Forall₂ (OutputColumn.Respelled s) q.columns q'.columns
  relations : List.Forall₂ (Relation.Respelled s) q.relations q'.relations
  manyRows : q'.manyRows = q.manyRows

section

variable {s : Spelling} {scope scope' : Scope}

/-! ## Links -/

theorem Scope.Respelled.joinedPair? (h : scope.Respelled s scope') {joined joined' : String}
    (hjoined : s.Same joined joined') (sides : Expr × Expr) :
    Option.Rel (fun p p' => p.1.Respelled s p'.1 ∧ p.2.Respelled s p'.2)
      (scope.joinedPair? joined sides)
      (scope'.joinedPair? joined' (sides.1.plain s, sides.2.plain s)) := by
  have hleft := h.columnOf? sides.1
  have hright := h.columnOf? sides.2
  unfold Scope.joinedPair?
  dsimp only
  generalize scope.columnOf? sides.1 = left, scope'.columnOf? (sides.1.plain s) = left' at hleft
  generalize scope.columnOf? sides.2 = right, scope'.columnOf? (sides.2.plain s) = right' at hright
  cases hleft with
  | none => exact .none
  | some hl =>
    cases hright with
    | none => exact .none
    | some hr =>
      dsimp only
      rw [hl.isOf hjoined, hr.isOf hjoined]
      split
      · exact .some ⟨hl, hr⟩
      · exact .some ⟨hr, hl⟩
      · exact .none

theorem Link.ofPredicate_respelled (h : scope.Respelled s scope') {joined joined' : String}
    (hjoined : s.Same joined joined') (e : Expr) :
    Link.Respelled s (.ofPredicate scope joined e) (.ofPredicate scope' joined' (e.plain s)) := by
  have hpairs : List.Forall₂ (fun p p' => p.1.Respelled s p'.1 ∧ p.2.Respelled s p'.2)
      (e.equalities.filterMap (scope.joinedPair? joined))
      ((e.plain s).equalities.filterMap (scope'.joinedPair? joined')) := by
    rw [Expr.equalities_plain, List.filterMap_map]
    exact List.rel_filterMap (fun sides _ heq => heq ▸ h.joinedPair? hjoined sides)
      (List.forall₂_same.2 fun _ _ => rfl)
  have hmentioned : List.Forall₂ (SourceColumn.Respelled s) (e.columns.filterMap scope.lookup?)
      ((e.plain s).columns.filterMap scope'.lookup?) := by
    rw [Expr.columns_plain, List.filterMap_map]
    exact List.rel_filterMap (fun c _ heq => heq ▸ h.lookup? c) (List.forall₂_same.2 fun _ _ => rfl)
  constructor
  · -- an equation comes before a mention
    refine rel_option_map (R := SourceColumn.Respelled s) (fun _ _ hc => hc.visibleTable)
      (rel_or ?_ ?_)
    · exact rel_option_map (fun _ _ hp => hp.2) (rel_head? hpairs)
    · exact rel_find? (fun c c' hc => by rw [hc.isOf hjoined]) hmentioned
  · exact congrArg Cardinality.ofUnique (any_eq_of_rel hpairs fun p p' hp => by rw [hp.1.key])

theorem Link.ofShared_respelled {earlier earlier' joined joined' : Level}
    (h : earlier.Respelled s earlier') (h' : joined.Respelled s joined') (names : List String) :
    Link.Respelled s (.ofShared names earlier joined)
      (.ofShared (names.map s.name) earlier' joined') := by
  constructor
  · exact rel_option_map (fun _ _ hc => hc.visibleTable)
      (rel_find? (fun c c' hc => (hc.isShared names).symm) h)
  · exact congrArg Cardinality.ofUnique
      (any_eq_of_rel h' fun c c' hc => by rw [hc.isShared names, hc.key])

/-- The condition of a join links the joined table to one table in both walks, or to none. -/
theorem JoinCondition.link_respelled (condition : JoinCondition) {outer outer' : List Level}
    (houter : List.Forall₂ (Level.Respelled s) outer outer') {joined joined' : String}
    (hjoined : s.Same joined joined') {earlier earlier' level level' : Level}
    (hearlier : earlier.Respelled s earlier') (hlevel : level.Respelled s level') :
    Link.Respelled s (condition.link outer joined earlier level)
      ((condition.plain s).link outer' joined' earlier' level') := by
  cases condition with
  | predicate e =>
    have hscope : Scope.Respelled s ⟨earlier ++ level, outer⟩ ⟨earlier' ++ level', outer'⟩ :=
      ⟨List.rel_append hearlier hlevel, houter⟩
    exact Link.ofPredicate_respelled hscope hjoined e
  | shared names => exact Link.ofShared_respelled hearlier hlevel names
  | unconditional => exact ⟨.none, rfl⟩

/-! ## Columns of joins -/

theorem JoinCondition.added_respelled (condition : JoinCondition) {level level' : Level}
    (h : level.Respelled s level') :
    Level.Respelled s (condition.added level) ((condition.plain s).added level') := by
  cases condition with
  | predicate e => exact h
  | unconditional => exact h
  | shared names => exact h.filter fun c c' hc => by rw [hc.isShared names]

theorem Level.Respelled.nullables {level level' : Level} (h : level.Respelled s level') :
    Level.Respelled s (level.map SourceColumn.nullable) (level'.map SourceColumn.nullable) :=
  List.rel_map (fun _ _ hc => hc.nullable) h

theorem Level.Respelled.earlier {level level' : Level} (h : level.Respelled s level')
    (kind : JoinKind) : Level.Respelled s (kind.earlier level) (kind.earlier level') := by
  cases kind with
  | right | full => exact h.nullables
  | inner | left | cross => exact h

theorem Level.Respelled.joined {level level' : Level} (h : level.Respelled s level')
    (kind : JoinKind) : Level.Respelled s (kind.joined level) (kind.joined level') := by
  cases kind with
  | left | full => exact h.nullables
  | inner | right | cross => exact h

/-! ## Relations -/

namespace Relation.Respelled

variable {r r' : Relation}

theorem key (h : r.Respelled s r') : s.Same r.key r'.key := by
  unfold Relation.key
  rw [h.aliasName.isEmpty]
  split
  · exact h.name
  · exact h.aliasName

theorem answers (h : r.Respelled s r') {table table' : String} (htable : s.Same table table') :
    r'.answers table' = r.answers table := by
  unfold Relation.answers
  rw [htable.isEmpty, h.name.compared htable, h.aliasName.compared htable]

theorem hungOff (h : r.Respelled s r') {parent parent' : String} (hparent : s.Same parent parent')
    (cardinality : Cardinality) :
    Relation.Respelled s { r with parent, cardinality }
      { r' with parent := parent', cardinality } :=
  { h with parent := hparent, cardinality := rfl }

end Relation.Respelled

theorem Relation.ofSource?_respelled (x : Source) {level level' : Level}
    (h : level.Respelled s level') :
    Option.Rel (Relation.Respelled s) (Relation.ofSource? x level)
      (Relation.ofSource? (x.plain s) level') := by
  cases x with
  | derived q aliasName => exact .none
  | table name aliasName =>
    have hprimary : Option.Rel (SourceColumn.Respelled s)
        (level.find? fun column => column.key == .primary)
        (level'.find? fun column => column.key == .primary) :=
      rel_find? (fun c c' hc => by rw [hc.key]) h
    refine .some ⟨?_, ?_, rfl, rfl, ?_⟩
    · show s.Same (lastSegment name) (lastSegment (s.name name))
      rw [s.lastSegment_name]
      exact s.same_name _
    · cases aliasName with
      | none => rfl
      | some aliasName => exact s.same_name aliasName
    · intro hexact
      exact (rel_getD (rel_option_map (fun _ _ hc => hc.name) hprimary)
        (Spelling.Same.refl s "")).eq hexact

namespace Sources.Respelled

variable {clause clause' : Sources} {level level' : Level}

theorem empty (s : Spelling) : Sources.Respelled s .empty .empty := ⟨.nil, .nil⟩

/-- One more source, with its relation if it has one. -/
theorem snoc (h : clause.Respelled s clause') {columns columns' : Level}
    (hcolumns : columns.Respelled s columns') {relation relation' : Option Relation}
    (hrelation : Option.Rel (Relation.Respelled s) relation relation') :
    Sources.Respelled s ⟨columns, clause.relations ++ relation.toList⟩
      ⟨columns', clause'.relations ++ relation'.toList⟩ := by
  refine ⟨hcolumns, List.rel_append h.relations ?_⟩
  cases hrelation with
  | none => exact .nil
  | some hr => exact .cons hr .nil

/-- A source of the list after FROM hangs off the first relation. -/
theorem add (h : clause.Respelled s clause') (x : Source) (hlevel : level.Respelled s level') :
    Sources.Respelled s (clause.add x level) (clause'.add (x.plain s) level') := by
  refine h.snoc (List.rel_append h.columns hlevel) ?_
  refine rel_option_map (fun r r' hr => ?_) (Relation.ofSource?_respelled x hlevel)
  have hroot := rel_head? h.relations
  generalize clause.relations.head? = root, clause'.relations.head? = root' at hroot
  cases hroot with
  | none => exact hr
  | some hroot => exact hr.hungOff hroot.key .many

/-- A joined source hangs off what its condition links it to, or off the source before it. -/
theorem join (h : clause.Respelled s clause') {outer outer' : List Level}
    (houter : List.Forall₂ (Level.Respelled s) outer outer') {previous previous' : String}
    (hprevious : s.Same previous previous') (kind : JoinKind) (x : Source)
    (condition : JoinCondition) (hlevel : level.Respelled s level') :
    Sources.Respelled s (clause.join outer previous kind x condition level)
      (clause'.join outer' previous' kind (x.plain s) (condition.plain s) level') := by
  have hname : s.Same x.visibleName (x.plain s).visibleName := by
    rw [Source.visibleName_plain]
    exact s.same_name _
  have hlink := condition.link_respelled houter hname h.columns hlevel
  refine h.snoc ?_ ?_
  · exact List.rel_append (h.columns.earlier kind) ((condition.added_respelled hlevel).joined kind)
  · refine rel_option_map (fun r r' hr => ?_) (Relation.ofSource?_respelled x hlevel)
    rw [hlink.cardinality]
    exact hr.hungOff (rel_getD hlink.parent hprevious) _

theorem lastName (s : Spelling) (xs : List Source) :
    s.Same (Sources.lastName xs) (Sources.lastName (plainSources s xs)) := by
  have hmap : plainSources s xs = xs.map (Source.plain s) := by
    induction xs with
    | nil => rfl
    | cons x rest ih => exact congrArg (x.plain s :: ·) ih
  unfold Sources.lastName
  rw [hmap, List.getLast?_map]
  cases xs.getLast? with
  | none => rfl
  | some x =>
    show s.Same x.visibleName (x.plain s).visibleName
    rw [Source.visibleName_plain]
    exact s.same_name _

end Sources.Respelled

/-! ## Output columns -/

/-- A column that a query around it sees, under the name that the query is given. -/
theorem OutputColumn.Compared.asSource {c c' : OutputColumn} (h : c.Respelled s c')
    {table table' : String} (htable : s.Same table table') :
    SourceColumn.Respelled s (c.asSource table) (c'.asSource table') where
  table := htable
  aliasName := rfl
  name := h.name
  var := h.var.asProjected
  key := rfl
  notNull := h.notNull

theorem levelOf_respelled {cs cs' : List OutputColumn}
    (h : List.Forall₂ (OutputColumn.Respelled s) cs cs') {table table' : String}
    (htable : s.Same table table') : Level.Respelled s (levelOf table cs) (levelOf table' cs') :=
  List.rel_map (fun _ _ hc => hc.asSource htable) h

/-- The name of a projected expression. Where it is a text, no parentheses have been left out. -/
theorem outputName_plain (s : Spelling) (value : Expr) (aliasName : Option String) :
    s.Same (outputName value aliasName)
      (outputName (value.plain (s.projected value aliasName)) (aliasName.map s.name)) := by
  cases aliasName with
  | some aliasName => exact s.same_name aliasName
  | none =>
    unfold outputName
    rw [Expr.column?_plain]
    cases hcolumn : value.column? with
    | some c =>
      have hprojected : s.projected value none = s := by simp [Spelling.projected, hcolumn]
      rw [hprojected]
      exact s.same_name c.name
    | none =>
      have hprojected : s.projected value none = s.kept := by simp [Spelling.projected, hcolumn]
      rw [hprojected]
      exact Expr.text_kept s value

/-- WHERE proves the same output columns not null. -/
theorem proveColumns_respelled (h : scope.Respelled s scope') (criteria : Option Expr)
    {cs cs' : List OutputColumn} (hcs : List.Forall₂ (OutputColumn.Respelled s) cs cs') :
    List.Forall₂ (OutputColumn.Respelled s) (proveColumns scope criteria cs)
      (proveColumns scope' (plainSome s criteria) cs') := by
  refine List.rel_map (fun c c' hc => ?_) hcs
  have hsource := hc.source
  refine { hc with notNull := ?_ }
  rw [hc.notNull]
  generalize c.source = source, c'.source = source' at hsource
  cases criteria with
  | none => rfl
  | some e =>
    cases hsource with
    | none => rfl
    | some hsource => exact congrArg (c.notNull || ·) (h.provesNotNull hsource e)

/-! ## Results -/

/-- Where case counts, a relation is renamed alike. -/
theorem renamed?_respelled (hexact : s.caseless = false) {r r' : Relation} (hr : r.Respelled s r')
    {c c' : OutputColumn} (hc : c.Respelled s c') : r'.renamed? c' = r.renamed? c := by
  have hsource := hc.source
  have hname : c'.name = c.name := Spelling.Same.eq hc.name hexact
  unfold Relation.renamed?
  generalize c.source = source, c'.source = source' at hsource
  cases hsource with
  | none => rfl
  | some hd =>
    dsimp only
    rw [hr.answers hd.visibleTable, hd.name.eq hexact, hr.joinColumn hexact, hname]

theorem renameJoinColumns_respelled {rs rs' : List Relation}
    (hrs : List.Forall₂ (Relation.Respelled s) rs rs') {cs cs' : List OutputColumn}
    (hcs : List.Forall₂ (OutputColumn.Respelled s) cs cs') :
    List.Forall₂ (Relation.Respelled s) (renameJoinColumns cs rs) (renameJoinColumns cs' rs') := by
  refine List.rel_map (fun r r' hr => ?_) hrs
  cases hcase : s.caseless with
  | false =>
    have hrenamed : cs'.findSome? r'.renamed? = cs.findSome? r.renamed? := by
      induction hcs with
      | nil => rfl
      | cons hc _ ih =>
        rw [List.findSome?_cons, List.findSome?_cons, renamed?_respelled hcase hr hc, ih]
    rw [hrenamed]
    cases cs.findSome? r.renamed? with
    | none => exact hr
    | some name => exact { hr with joinColumn := fun _ => rfl }
  | true =>
    -- relations may be renamed apart, as they are compared without their join columns here
    have hapart : s.caseless ≠ false := by simp [hcase]
    cases cs.findSome? r.renamed? <;> cases cs'.findSome? r'.renamed? <;>
      exact { hr with joinColumn := fun hexact => absurd hexact hapart }

theorem readsOneTable_plain (s : Spelling) (xs : List Source) (joins : List Join) :
    readsOneTable (plainSources s xs) (plainJoins s joins) = readsOneTable xs joins := by
  rcases xs with _ | ⟨_ | _, _ | ⟨y, rest⟩⟩ <;> rcases joins with _ | ⟨⟨kind, x, on⟩, more⟩ <;> rfl

/-- The features of a branch on which the number of rows depends. -/
theorem branchShape_respelled (h : scope.Respelled s scope') (xs : List Source) (joins : List Join)
    (criteria : Option Expr) (group : List Expr) {cs cs' : List OutputColumn}
    (hcs : List.Forall₂ (OutputColumn.Respelled s) cs cs') :
    branchShape scope' (plainSources s xs) (plainJoins s joins) (plainSome s criteria)
        (plainAll s group) cs' = branchShape scope xs joins criteria group cs := by
  have hnone : cs'.isEmpty = cs.isEmpty := by cases hcs <;> rfl
  have hall : cs'.all (·.aggregate) = cs.all (·.aggregate) :=
    all_eq_of_rel hcs fun _ _ hc => hc.aggregate
  have hfixed : (plainSome s criteria).any scope'.fixesKey = criteria.any scope.fixesKey := by
    cases criteria with
    | none => rfl
    | some e => exact h.fixesKey e
  unfold branchShape
  rw [isEmpty_plainAll, isEmpty_plainSources, readsOneTable_plain, hnone, hall, hfixed]

theorem BranchResult.Respelled.of {clause clause' : Sources} (hclause : clause.Respelled s clause')
    (h : scope.Respelled s scope') (xs : List Source) (joins : List Join) (criteria : Option Expr)
    (group : List Expr) {cs cs' : List OutputColumn}
    (hcs : List.Forall₂ (OutputColumn.Respelled s) cs cs') :
    BranchResult.Respelled s (.of clause scope xs joins criteria group cs)
      (.of clause' scope' (plainSources s xs) (plainJoins s joins) (plainSome s criteria)
        (plainAll s group) cs') := by
  have hproven := proveColumns_respelled h criteria hcs
  exact ⟨hproven, renameJoinColumns_respelled hclause.relations hproven, h.columns,
    branchShape_respelled h xs joins criteria group hproven⟩

/-- Branches go together in both walks, or have different numbers of columns in both. -/
theorem unionColumns_respelled {bs bs' : List BranchResult}
    (hbs : List.Forall₂ (BranchResult.Respelled s) bs bs') {cs cs' : List OutputColumn}
    (hcs : List.Forall₂ (OutputColumn.Respelled s) cs cs') :
    AlikeInKind (List.Forall₂ (OutputColumn.Respelled s)) (unionColumns cs bs)
      (unionColumns cs' bs') := by
  induction hbs generalizing cs cs' with
  | nil => exact .ok hcs
  | @cons b b' _ _ hb _ ih =>
    unfold unionColumns
    rw [← hcs.length_eq, ← hb.columns.length_eq]
    split
    · exact ih (zipWith_union_compared hcs hb.columns)
    · exact .error rfl

theorem QueryResult.Respelled.of {b b' : BranchResult} (hb : b.Respelled s b')
    {cs cs' : List OutputColumn} (hcs : List.Forall₂ (OutputColumn.Respelled s) cs cs')
    (branches : List Branch) (order : List OrderTerm) (limit : Option Limit) :
    QueryResult.Respelled s (.of b cs branches order limit)
      (.of b' cs' (plainUnion s branches) (plainOrder s order) (plainLimit s limit)) := by
  refine ⟨hcs, hb.relations, ?_⟩
  unfold QueryResult.of
  dsimp only
  rw [hb.shape, length_plainUnion, Limit.isOne_plain]

end

end QuerySignature
