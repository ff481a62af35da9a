import QuerySignature.Proofs.Fragments.Relations
import QuerySignature.Proofs.Nesting.Keyed
import QuerySignature.Proofs.Walk.CommonTables

namespace QuerySignature

/-! # How tables hang

The relations of a FROM clause are in the order of its tables. The first one is the root, and each
of the others hangs off one before it: the condition of a join links its table to a column that is
visible before, and where it links it to none, the table hangs off the one before it.

- `JoinCondition.exists_of_link`: what a condition links a table to is visible before it;
- `Sources.Hanging.add`, `Sources.Hanging.join`: one more table keeps the order;
- `hanging_of_sources`, `hanging_of_joins`: so do all the tables of a clause, one after the other;
- `tree_of_clause`: where no two tables have one name, each hangs off exactly one before it.
-/

/-- Relations of which the first hangs off none, and every other off one before it. -/
structure HangInOrder (relations : List Relation) : Prop where
  named : ∀ relation ∈ relations, relation.key.isEmpty = false
  root : ∀ relation, relations[0]? = some relation → relation.parent = ""
  earlier : ∀ place relation, 0 < place → relations[place]? = some relation →
    ∃ before parent, before < place ∧ relations[before]? = some parent ∧
      sameName parent.key relation.parent = true

theorem HangInOrder.snoc {relations : List Relation} (h : HangInOrder relations)
    {relation : Relation} (hnamed : relation.key.isEmpty = false)
    (hroot : relations = [] → relation.parent = "")
    (hparent : relations ≠ [] → ∃ parent ∈ relations, sameName parent.key relation.parent = true) :
    HangInOrder (relations ++ [relation]) := by
  refine ⟨?_, ?_, ?_⟩
  · intro other hother
    rcases List.mem_append.1 hother with hother | hother
    · exact h.named other hother
    · exact List.mem_singleton.1 hother ▸ hnamed
  · intro first hfirst
    cases relations with
    | nil =>
      cases hfirst
      exact hroot rfl
    | cons other rest => exact h.root first hfirst
  · intro place other hplace hother
    rcases Nat.lt_or_ge place relations.length with hlt | hge
    · rw [List.getElem?_append_left hlt] at hother
      obtain ⟨before, parent, hbefore, hat, hname⟩ := h.earlier place other hplace hother
      exact ⟨before, parent, hbefore, by rw [List.getElem?_append_left (by omega), hat], hname⟩
    · -- it is the last one, and its parent is one of those before
      have hlast : place = relations.length := by
        have hlt := (List.getElem?_eq_some_iff.1 hother).1
        rw [List.length_append, List.length_singleton] at hlt
        omega
      subst hlast
      rw [List.getElem?_concat_length, Option.some.injEq] at hother
      subst hother
      obtain ⟨parent, hmem, hname⟩ := hparent (List.ne_nil_of_length_pos hplace)
      obtain ⟨before, hbefore, hat⟩ := List.getElem_of_mem hmem
      refine ⟨before, parent, hbefore, ?_, hname⟩
      rw [List.getElem?_append_left hbefore, List.getElem?_eq_getElem hbefore, hat]

/-! ## One join -/

section

variable {columns level : Level} {column : SourceColumn}

theorem mem_of_lookup? {c : ColumnRef} (h : Scope.lookup? ⟨columns, []⟩ c = some column) :
    column ∈ columns := by
  unfold Scope.lookup? at h
  cases hmeaning : Scope.resolve ⟨columns, []⟩ c with
  | error e =>
    rw [hmeaning] at h
    cases h
  | ok found =>
    rw [hmeaning] at h
    cases h
    obtain ⟨l, hl, hmem⟩ := mem_of_resolveIn (resolveIn_of_resolve hmeaning)
    obtain rfl : l = columns := by simpa [Scope.levels] using hl
    exact hmem

theorem mem_of_columnOf? {e : Expr} (h : Scope.columnOf? ⟨columns, []⟩ e = some column) :
    column ∈ columns := by
  obtain ⟨c, -, hlookup⟩ := Option.bind_eq_some_iff.1 h
  exact mem_of_lookup? hlookup

/-- The second column of an equation with the joined table is that of another one. -/
theorem other_of_joinedPair? {joined : String} {sides : Expr × Expr}
    {pair : SourceColumn × SourceColumn}
    (h : Scope.joinedPair? ⟨columns, []⟩ joined sides = some pair) :
    pair.2 ∈ columns ∧ pair.2.isOf joined = false := by
  unfold Scope.joinedPair? at h
  cases hleft : Scope.columnOf? ⟨columns, []⟩ sides.1 with
  | none => simp [hleft] at h
  | some left =>
    cases hright : Scope.columnOf? ⟨columns, []⟩ sides.2 with
    | none => simp [hleft, hright] at h
    | some right =>
      simp only [hleft, hright] at h
      split at h
      case h_1 hjoined hother =>
        cases h
        exact ⟨mem_of_columnOf? hright, hother⟩
      case h_2 hother hjoined =>
        cases h
        exact ⟨mem_of_columnOf? hleft, hother⟩
      case h_3 => cases h

/-- What the condition of a join links the joined table to is visible before it. -/
theorem JoinCondition.exists_of_link {condition : JoinCondition} {joined table : String}
    (hlevel : ∀ c ∈ level, sameName c.visibleTable joined = true)
    (h : (condition.link [] joined columns level).parent = some table) :
    ∃ c ∈ columns, c.visibleTable = table := by
  cases condition with
  | unconditional => cases h
  | shared names =>
    obtain ⟨c, hc, rfl⟩ := Option.map_eq_some_iff.1 h
    exact ⟨c, List.mem_of_find?_eq_some hc, rfl⟩
  | predicate e =>
    obtain ⟨c, hc, rfl⟩ := Option.map_eq_some_iff.1 h
    -- by an equation or by its first mention, the condition goes by a column of another table
    have hother : c ∈ columns ++ level ∧ c.isOf joined = false := by
      rcases Option.or_eq_some_iff.1 hc with hequated | ⟨-, hmentioned⟩
      · obtain ⟨pair, hpair, rfl⟩ := Option.map_eq_some_iff.1 hequated
        obtain ⟨sides, -, hsides⟩ := List.mem_filterMap.1 (List.mem_of_head? hpair)
        exact other_of_joinedPair? hsides
      · obtain ⟨ref, -, hlookup⟩ := List.mem_filterMap.1 (List.mem_of_find?_eq_some hmentioned)
        exact ⟨mem_of_lookup? hlookup, by simpa using List.find?_some hmentioned⟩
    rcases List.mem_append.1 hother.1 with hmem | hmem
    · exact ⟨c, hmem, rfl⟩
    · exact absurd (hlevel c hmem) (by simpa [SourceColumn.isOf] using hother.2)

end

/-! ## A whole clause -/

/-- What a FROM clause of tables makes visible, and how its relations hang. -/
structure Sources.Hanging (xs : List Source) (clause : Sources) : Prop where
  columns : ∀ c ∈ clause.columns, ∃ x ∈ xs, sameName c.visibleTable x.visibleName = true
  keys : clause.relations.map Relation.key = xs.map Source.visibleName
  order : HangInOrder clause.relations

namespace Sources.Hanging

variable {xs : List Source} {clause : Sources} {x : Source} {level : Level}

theorem empty : Hanging [] .empty :=
  ⟨fun _ hc => absurd hc List.not_mem_nil, rfl,
    ⟨fun _ h => absurd h List.not_mem_nil, nofun, nofun⟩⟩

/-- The relation of a source that is visible under a name. -/
theorem exists_key (h : clause.Hanging xs) {name : String}
    (hname : ∃ x ∈ xs, sameName name x.visibleName = true) :
    ∃ relation ∈ clause.relations, sameName relation.key name = true := by
  obtain ⟨x, hx, hsame⟩ := hname
  have hkey : x.visibleName ∈ clause.relations.map Relation.key := h.keys ▸ List.mem_map_of_mem hx
  obtain ⟨relation, hrelation, heq⟩ := List.mem_map.1 hkey
  exact ⟨relation, hrelation, heq ▸ sameName_symm hsame⟩

/-- One more table, with columns as a join leaves them, and with its relation as it is linked. -/
theorem snoc (h : clause.Hanging xs) (hshown : x.isShown = true)
    (hlevel : ∀ c ∈ level, sameName c.visibleTable x.visibleName = true) {columns : Level}
    (hcolumns : ∀ c ∈ columns, ∃ d, (d ∈ clause.columns ∨ d ∈ level) ∧
      c.visibleTable = d.visibleTable)
    (link : Relation → Relation) (hkey : ∀ relation, (link relation).key = relation.key)
    (hroot : xs = [] → ∀ relation, (link relation).parent = relation.parent)
    (hparent : xs ≠ [] → ∀ relation,
      ∃ parent ∈ clause.relations, sameName parent.key (link relation).parent = true) :
    Hanging (xs ++ [x])
      ⟨columns, clause.relations ++ ((Relation.ofSource? x level).map link).toList⟩ := by
  obtain ⟨relation, hof, hname, hfree⟩ := x.exists_shownRelation hshown level
  have hempty : clause.relations = [] ↔ xs = [] := by
    rw [← List.map_eq_nil_iff (f := Relation.key), h.keys, List.map_eq_nil_iff]
  rw [hof]
  refine ⟨?_, ?_, h.order.snoc ?_ ?_ ?_⟩
  · intro c hc
    obtain ⟨d, hd, htable⟩ := hcolumns c hc
    rcases hd with hd | hd
    · obtain ⟨y, hy, hsame⟩ := h.columns d hd
      exact ⟨y, List.mem_append_left _ hy, htable ▸ hsame⟩
    · exact ⟨x, List.mem_append_right _ List.mem_cons_self, htable ▸ hlevel d hd⟩
  · simp [h.keys, hkey, hname]
  · rw [hkey, hname]
    exact x.visibleName_isEmpty hshown
  · exact fun hnone => (hroot (hempty.1 hnone) relation).trans hfree
  · exact fun hsome => hparent (fun hnone => hsome (hempty.2 hnone)) relation

/-- One more source of the list after FROM hangs off the first one. -/
theorem add (h : clause.Hanging xs) (hshown : x.isShown = true)
    (hlevel : ∀ c ∈ level, sameName c.visibleTable x.visibleName = true) :
    (clause.add x level).Hanging (xs ++ [x]) := by
  refine h.snoc hshown hlevel (fun c hc => ⟨c, List.mem_append.1 hc, rfl⟩) _ ?_ ?_ ?_
  · intro relation
    cases clause.relations.head? <;> rfl
  · rintro rfl relation
    have hnone : clause.relations = [] := List.map_eq_nil_iff.1 h.keys
    rw [hnone]
    rfl
  · intro hne relation
    have hsome : clause.relations ≠ [] := fun hnone => hne (List.map_eq_nil_iff.1 (by
      rw [← h.keys, hnone, List.map_nil]))
    obtain ⟨root, rest, hrelations⟩ := List.exists_cons_of_ne_nil hsome
    rw [hrelations]
    exact ⟨root, List.mem_cons_self, sameName_refl _⟩

/-- A joined table hangs off what its condition links it to, or off the table before it. -/
theorem join (h : clause.Hanging xs) (hshown : x.isShown = true)
    (hlevel : ∀ c ∈ level, sameName c.visibleTable x.visibleName = true) {previous : String}
    (hprevious : ∃ y ∈ xs, sameName previous y.visibleName = true) (kind : JoinKind)
    (condition : JoinCondition) :
    (clause.join [] previous kind x condition level).Hanging (xs ++ [x]) := by
  refine h.snoc hshown hlevel ?_ _ (fun _ => rfl) ?_ ?_
  · intro c hc
    obtain ⟨d, hd, htable, -⟩ := JoinKind.exists_of_mem_join hc
    exact ⟨d, hd, htable⟩
  · rintro rfl
    obtain ⟨y, hy, -⟩ := hprevious
    exact absurd hy List.not_mem_nil
  · intro _ relation
    show ∃ parent ∈ clause.relations, sameName parent.key
      ((condition.link [] x.visibleName clause.columns level).parent.getD previous) = true
    cases hlink : (condition.link [] x.visibleName clause.columns level).parent with
    | none => exact h.exists_key hprevious
    | some table =>
      obtain ⟨c, hc, rfl⟩ := JoinCondition.exists_of_link hlevel hlink
      exact h.exists_key (h.columns c hc)

end Sources.Hanging

theorem exists_sameName_lastName {xs : List Source} (h : xs ≠ []) :
    ∃ y ∈ xs, sameName (Sources.lastName xs) y.visibleName = true := by
  refine ⟨xs.getLast h, List.getLast_mem h, ?_⟩
  unfold Sources.lastName
  rw [List.getLast?_eq_some_getLast h]
  exact sameName_refl _

theorem Run.CtesCarryNames.of_kept {α : Type} {step : Analyze α} {r s : Run} {a : α}
    (hr : r.CtesCarryNames) (hkeeps : KeepsCtes step) (h : step.outcome r = .ok (a, s)) :
    s.CtesCarryNames := by
  intro entry hentry
  rw [hkeeps.of_outcome h] at hentry
  exact hr entry hentry

section

variable {records : List ColumnRecord} {profile : Profile} {r s : Run} {done : Sources}
  {before : List Source}

/-- Listed tables. Reading one changes no common table, so those that follow are read as it is. -/
theorem hanging_of_sources (hctes : r.CtesCarryNames) (hdone : done.Hanging before)
    {xs : List Source} (hxs : ∀ x ∈ xs, x.isShown = true) {listed : Sources}
    (hs : (inferSources ⟨.ofRecords records, profile⟩ done xs).outcome r = .ok (listed, s)) :
    listed.Hanging (before ++ xs) ∧ s.CtesCarryNames := by
  induction xs generalizing r done before with
  | nil =>
    cases hs
    exact ⟨by simpa using hdone, hctes⟩
  | cons x rest ih =>
    unfold inferSources at hs
    rw [Analyze.outcome_bind] at hs
    obtain ⟨⟨level, t⟩, hsource, hs⟩ := bind_eq_ok.1 hs
    have hshown := hxs x List.mem_cons_self
    have hlevel := visibleTable_of_source hctes hshown hsource
    have hctes₁ : t.CtesCarryNames := hctes.of_kept (KeepsCtes.source _ x) hsource
    have hall := ih hctes₁ (hdone.add hshown hlevel)
      (fun y hy => hxs y (List.mem_cons_of_mem _ hy)) hs
    simpa using hall

/-- Joined tables behind others. -/
theorem hanging_of_joins (hctes : r.CtesCarryNames) (hdone : done.Hanging before)
    {previous : String} (hprevious : ∃ y ∈ before, sameName previous y.visibleName = true)
    {js : List Join} (hjs : ∀ j ∈ js, j.source.isShown = true) {joined : Sources}
    (hs : (inferJoins ⟨.ofRecords records, profile⟩ [] done previous js).outcome r =
      .ok (joined, s)) : joined.Hanging (before ++ js.map (·.source)) := by
  induction js generalizing r done before previous with
  | nil =>
    cases hs
    simpa using hdone
  | cons j rest ih =>
    obtain ⟨kind, x, on⟩ := j
    obtain ⟨level, t, u, hsource, hcondition, hs⟩ := join_of_cons hs
    have hshown : x.isShown = true := hjs ⟨kind, x, on⟩ List.mem_cons_self
    have hlevel := visibleTable_of_source hctes hshown hsource
    have hctes₁ : t.CtesCarryNames := hctes.of_kept (KeepsCtes.source _ x) hsource
    have hctes₂ : u.CtesCarryNames := hctes₁.of_kept (KeepsCtes.condition _ _ on) hcondition
    -- the table just joined is the one before the next
    have hall := ih hctes₂ (hdone.join hshown hlevel hprevious kind on)
      ⟨x, List.mem_append_right _ List.mem_cons_self, sameName_refl _⟩
      (fun k hk => hjs k (List.mem_cons_of_mem _ hk)) hs
    simpa using hall

/-- A FROM clause of tables, from its two loops. -/
theorem hanging_of_clause (hctes : r.CtesCarryNames) {b : Branch} (hfrom : b.sources ≠ [])
    (hshown : ∀ x ∈ b.allSources, x.isShown = true) {listed joined : Sources} {t : Run}
    (hsources : (inferSources ⟨.ofRecords records, profile⟩ .empty b.sources).outcome r =
      .ok (listed, t))
    (hjoins : (inferJoins ⟨.ofRecords records, profile⟩ [] listed (Sources.lastName b.sources)
      b.joins).outcome t = .ok (joined, s)) : joined.Hanging b.allSources := by
  obtain ⟨hlisted, hctes₁⟩ := hanging_of_sources hctes .empty
    (fun x hx => hshown x (List.mem_append_left _ hx)) hsources
  exact hanging_of_joins hctes₁ hlisted (exists_sameName_lastName hfrom)
    (fun j hj => hshown j.source (List.mem_append_right _ (List.mem_map_of_mem hj))) hjoins

end

/-- The FROM clause of a query of one branch over tables, with its projection and relations. -/
theorem hanging_of_query {records : List ColumnRecord} {profile : Profile} {q : Select} {b : Branch}
    (hbranch : q.branches = [b]) (hfrom : b.sources ≠ [])
    (hshown : ∀ x ∈ b.allSources, x.isShown = true) {result : QueryResult} {run : Run}
    (h : (inferQuery ⟨.ofRecords records, profile⟩ [] q).outcome .start = .ok (result, run)) :
    ∃ clause : Sources, clause.Hanging b.allSources ∧
      (∀ c ∈ result.columns, c.ReadFrom ⟨clause.columns, []⟩) ∧
      result.relations = renameJoinColumns result.columns clause.relations := by
  obtain ⟨behind, listed, rs, joined, rj, hctes, hsources, hjoins, hreadFrom, hrelations⟩ :=
    clause_of_query hbranch h
  have hcarry : behind.CtesCarryNames := carryNames_behind hctes rfl
  exact ⟨joined, hanging_of_clause hcarry hfrom hshown hsources hjoins, hreadFrom, hrelations⟩

/-! ## The tree of a clause -/

/-- The relation at the second place hangs off the one at the first. -/
def HangsAt (relations : List Relation) (before place : Nat) : Prop :=
  ∃ parent relation, relations[before]? = some parent ∧ relations[place]? = some relation ∧
    sameName parent.key relation.parent = true

theorem HangInOrder.parent_eq_empty_iff {relations : List Relation} (h : HangInOrder relations)
    {place : Nat} {relation : Relation} (hat : relations[place]? = some relation) :
    relation.parent = "" ↔ place = 0 := by
  constructor
  · intro hfree
    by_contra hplace
    obtain ⟨before, parent, -, hparent, hname⟩ :=
      h.earlier place relation (Nat.pos_of_ne_zero hplace) hat
    -- its parent has a key, so it has the name of one
    have hkey := h.named parent (List.mem_of_getElem? hparent)
    rw [isEmpty_of_sameName hname, hfree] at hkey
    cases hkey
  · rintro rfl
    exact h.root relation hat

/-- Where no two keys are the same, a relation hangs off one other. -/
theorem HangInOrder.exists_hangsAt {relations : List Relation} (h : HangInOrder relations)
    (hkeys : relations.Pairwise fun r s => sameName r.key s.key = false) {place : Nat}
    (hplace : 0 < place) (hlt : place < relations.length) :
    ∃ before < place, ∀ other, HangsAt relations other place ↔ other = before := by
  have hat : relations[place]? = some relations[place] := List.getElem?_eq_getElem hlt
  obtain ⟨before, parent, hbefore, hparent, hname⟩ := h.earlier place _ hplace hat
  refine ⟨before, hbefore, fun other => ⟨?_, ?_⟩⟩
  · rintro ⟨found, relation, hfound, hrelation, hsame⟩
    obtain rfl := Option.some.inj (hat.symm.trans hrelation)
    have hboth : sameName found.key parent.key = true := sameName_trans hsame (sameName_symm hname)
    by_contra hne
    obtain ⟨hother, rfl⟩ := List.getElem?_eq_some_iff.1 hfound
    obtain ⟨hlow, rfl⟩ := List.getElem?_eq_some_iff.1 hparent
    rcases Nat.lt_or_gt_of_ne hne with hlt | hgt
    · rw [List.pairwise_iff_getElem.1 hkeys other before hother hlow hlt] at hboth
      cases hboth
    · rw [sameName_comm, List.pairwise_iff_getElem.1 hkeys before other hlow hother hgt] at hboth
      cases hboth
  · rintro rfl
    exact ⟨parent, _, hparent, hat, hname⟩

/-- The relations of a FROM clause of tables under different names are a tree in the order of the
tables: one for each table, under its name, the first one hanging off none, and each of the others
off exactly one, which stands before it. The common tables that are known may be any, as long as
each brings its columns under its own name. -/
theorem tree_of_clause {records : List ColumnRecord} {profile : Profile} {b : Branch}
    {run after : Run} {clause : Sources} (hctes : run.CtesCarryNames) (hfrom : b.sources ≠ [])
    (hshown : ∀ x ∈ b.allSources, x.isShown = true)
    (hdistinct : b.allSources.Pairwise fun x y => sameName x.visibleName y.visibleName = false)
    (h : (inferFrom ⟨.ofRecords records, profile⟩ [] b).outcome run = .ok (clause, after)) :
    clause.relations.map Relation.key = b.allSources.map Source.visibleName ∧
      (∀ place relation, clause.relations[place]? = some relation →
        (relation.parent = "" ↔ place = 0)) ∧
      ∀ place, 0 < place → place < clause.relations.length →
        ∃ before < place, ∀ other, HangsAt clause.relations other place ↔ other = before := by
  unfold inferFrom at h
  rw [Analyze.outcome_bind] at h
  obtain ⟨⟨listed, t⟩, hsources, hjoins⟩ := bind_eq_ok.1 h
  have hhanging := hanging_of_clause hctes hfrom hshown hsources hjoins
  refine ⟨hhanging.keys, fun place relation => hhanging.order.parent_eq_empty_iff, ?_⟩
  intro place
  have hnames : (b.allSources.map Source.visibleName).Pairwise fun m n => sameName m n = false :=
    List.pairwise_map.2 hdistinct
  rw [← hhanging.keys, List.pairwise_map] at hnames
  exact hhanging.order.exists_hangsAt hnames

/-- `FROM t, app.mytable2 LEFT JOIN mytable3 c USING (id) INNER JOIN mytable1 ON
(mytable1.id = C.double_value)`. -/
def Branch.listedAndJoined : Branch :=
  ⟨false, [.star], [.table "t" none, .table "app.mytable2" none],
    [⟨.left, .table "mytable3" (some "c"), .shared ["id"]⟩,
      ⟨.inner, .table "mytable1" none,
        .predicate (.paren (.compare .eq (columnOf "mytable1" "id") (columnOf "C" "double_value")))⟩],
    none, [], none⟩

/-- `t AS (SELECT id FROM mytable1)`. -/
def firstAsT : Cte :=
  ⟨"t", ⟨[], [⟨false, [.expr (.column ⟨none, "id"⟩) none], [.table "mytable1" none], [], none, [],
    none⟩], [], none⟩⟩

/-- Behind the common table, the second table and the third hang off it, the fourth off the third. -/
theorem tree_of_clause_listedAndJoined : ∃ run clause after,
    (inferCtes ⟨.ofRecords threeTables, .mysql⟩ [] [firstAsT]).outcome .start = .ok ((), run) ∧
      (inferFrom ⟨.ofRecords threeTables, .mysql⟩ [] .listedAndJoined).outcome run =
        .ok (clause, after) ∧
      clause.relations.map (fun relation => (relation.key, relation.parent)) =
        [("t", ""), ("mytable2", "t"), ("c", "t"), ("mytable1", "c")] ∧
      ∃ before < 3, ∀ other, HangsAt clause.relations other 3 ↔ other = before := by
  let setting : Setting := ⟨.ofRecords threeTables, .mysql⟩
  obtain ⟨⟨⟨⟩, run⟩, hctes⟩ := exists_of_isOk
    (x := (inferCtes setting [] [firstAsT]).outcome .start) (by decide +kernel)
  have hlinks : (((inferCtes setting [] [firstAsT]).outcome .start).bind fun behind =>
      ((inferFrom setting [] .listedAndJoined).outcome behind.2).map fun reached =>
        reached.1.relations.map fun relation => (relation.key, relation.parent)).toOption =
      some [("t", ""), ("mytable2", "t"), ("c", "t"), ("mytable1", "c")] := by
    decide +kernel
  rw [hctes, ok_bind] at hlinks
  cases hclause : (inferFrom setting [] .listedAndJoined).outcome run with
  | error e =>
    rw [hclause] at hlinks
    cases hlinks
  | ok reached =>
    obtain ⟨clause, after⟩ := reached
    rw [hclause] at hlinks
    have hrelations := Option.some.inj hlinks
    have hcount := congrArg List.length hrelations
    rw [List.length_map] at hcount
    have htree := tree_of_clause (carryNames_behind hctes rfl) (by decide) (by decide) (by decide)
      hclause
    exact ⟨run, clause, after, hctes, hclause, hrelations,
      htree.2.2 3 (by decide) (by rw [hcount]; decide)⟩

end QuerySignature
