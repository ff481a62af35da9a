import QuerySignature.Proofs.Criteria.KeyFilter
import QuerySignature.Proofs.Sources.Shown

namespace QuerySignature

/-! # How many rows a join finds

A join is read as finding one row for a row of the tables before it if its condition equates a
unique column of the joined table with another one. Which columns belong to the joined table is told
by its visible name alone, also among those of the queries around. So what is read off is right where
no other table in sight has that name, and need not be right elsewhere.

- `JoinCondition.pins_of_link`: a condition read as finding one row fixes the value of a unique
  column;
- `one_row_of_join`: in a clause of tables under different names, a joined table that is read as one
  row is one, unless a query around has a table of its name;
- `outer_table_taken_for_joined`: there, more rows may be found.
-/

/-! ## Rows that a join finds -/

/-- Rows in which no value stands twice in a column that is unique. -/
def Level.UniquelyKeyed {V : Type} (level : Level) (rows : List (TableRow V)) : Prop :=
  rows.Pairwise fun row other => ∀ index column, level[index]? = some column →
    column.key.isUnique = true → ∀ v, row index = some v → other index ≠ some v

/-- What a condition is read with at a row of the joined table, whose columns are behind so many
others. Those have the values of a row that is fixed, as have the columns of the queries around. -/
def RowsValuation.atJoined {V : Type} (x : RowsValuation V) (width : Nat) (row : TableRow V) :
    Valuation V :=
  { x.atRow row with
    column := fun place =>
      if place.depth = 0 ∧ width ≤ place.index then row (place.index - width) else x.outer place }

namespace JoinCondition

/-- Whether a join finds a row: its condition holds, or every column of its USING list equals the
first earlier column of that name. -/
def Finds {V : Type} (condition : JoinCondition) (x : RowsValuation V) (earlier level : Level)
    (outer : List Level) (row : TableRow V) : Prop :=
  match condition with
  | .predicate e => (x.atJoined earlier.length row).truth ⟨earlier ++ level, outer⟩ [] e = .holds
  | .shared names => ∀ index column, level[index]? = some column → column.isShared names = true →
      ∃ first, earlier.findIdx? (fun before => sameName before.name column.name) = some first ∧
        (x.atJoined earlier.length row).comparison .eq (x.outer ⟨0, first⟩) (row index) = .holds
  | .unconditional => True

/-- Of the rows of a table, a join finds one at most, whatever stands in the rows before it. -/
def FindsOne (condition : JoinCondition) (earlier level : Level) (outer : List Level) : Prop :=
  ∀ (V : Type) (x : RowsValuation V) (rows : List (TableRow V)), level.UniquelyKeyed rows →
    ∀ found : List (TableRow V), found.Sublist rows →
      (∀ row ∈ found, condition.Finds x earlier level outer row) → found.length ≤ 1

/-- A join finds only rows with one value in some unique column. -/
def Pins (condition : JoinCondition) (earlier level : Level) (outer : List Level) : Prop :=
  ∃ index column place, level[index]? = some column ∧ column.key.isUnique = true ∧
    ∀ (V : Type) (x : RowsValuation V) (row : TableRow V),
      condition.Finds x earlier level outer row → ∃ v, row index = some v ∧ x.outer place = some v

/-- No two rows have the same value in a unique column. -/
theorem Pins.findsOne {condition : JoinCondition} {earlier level : Level} {outer : List Level}
    (h : condition.Pins earlier level outer) : condition.FindsOne earlier level outer := by
  obtain ⟨index, column, place, hcolumn, hkey, hvalue⟩ := h
  intro V x rows hunique found hsub hfound
  match found, hunique.sublist hsub, hfound with
  | [], _, _ => simp
  | [_], _, _ => simp
  | row :: other :: rest, hunique, hfound =>
    obtain ⟨v, hrow, hfixed⟩ := hvalue V x row (hfound row List.mem_cons_self)
    obtain ⟨w, hother, hfixed'⟩ :=
      hvalue V x other (hfound other (List.mem_cons_of_mem _ List.mem_cons_self))
    obtain rfl : v = w := Option.some.inj (hfixed.symm.trans hfixed')
    have hdiffer := (List.pairwise_cons.1 hunique).1 other List.mem_cons_self
    exact absurd hother (hdiffer index column hcolumn hkey v hrow)

end JoinCondition

/-! ## Columns of the joined table -/

theorem Scope.exists_exprPlace {scope : Scope} {e : Expr} {column : SourceColumn}
    (h : scope.columnOf? e = some column) :
    ∃ place, scope.exprPlace? e = some place ∧ scope.columnAt? place = some column := by
  obtain ⟨c, hc, hlookup⟩ := Option.bind_eq_some_iff.1 h
  rw [Scope.lookup?_eq_columnAt?] at hlookup
  obtain ⟨place, hplace, hcolumn⟩ := Option.bind_eq_some_iff.1 hlookup
  exact ⟨place, Option.bind_eq_some_iff.2 ⟨c, hc, hplace⟩, hcolumn⟩

/-- In sight of a join, just the columns of the joined table are of its name. -/
structure OnlyJoined (joined : String) (earlier level : Level) (outer : List Level) : Prop where
  earlier : ∀ c ∈ earlier, c.isOf joined = false
  level : ∀ c ∈ level, c.isOf joined = true
  outer : ∀ l ∈ outer, ∀ c ∈ l, c.isOf joined = false

namespace OnlyJoined

variable {joined : String} {earlier level : Level} {outer : List Level}
  (only : OnlyJoined joined earlier level outer) {place : ColumnPlace} {column : SourceColumn}

include only

/-- A column of the name stands behind the earlier ones. -/
theorem place_of_isOf (hat : Scope.columnAt? ⟨earlier ++ level, outer⟩ place = some column)
    (hof : column.isOf joined = true) :
    ∃ index, place = ⟨0, earlier.length + index⟩ ∧ level[index]? = some column := by
  obtain ⟨depth, index⟩ := place
  cases depth with
  | zero =>
    have hcolumn : (earlier ++ level)[index]? = some column := hat
    rcases Nat.lt_or_ge index earlier.length with hlt | hge
    · rw [List.getElem?_append_left hlt] at hcolumn
      rw [only.earlier column (List.mem_of_getElem? hcolumn)] at hof
      cases hof
    · refine ⟨index - earlier.length, ?_, ?_⟩
      · rw [Nat.add_sub_cancel' hge]
      · rwa [List.getElem?_append_right hge] at hcolumn
  | succ depth =>
    have hin : (outer[depth]?.bind fun l => l[index]?) = some column := hat
    obtain ⟨l, hl, hcolumn⟩ := Option.bind_eq_some_iff.1 hin
    rw [only.outer l (List.mem_of_getElem? hl) column (List.mem_of_getElem? hcolumn)] at hof
    cases hof

/-- A column of another name does not. -/
theorem place_of_not_isOf (hat : Scope.columnAt? ⟨earlier ++ level, outer⟩ place = some column)
    (hother : column.isOf joined = false) : ¬ (place.depth = 0 ∧ earlier.length ≤ place.index) := by
  obtain ⟨depth, index⟩ := place
  rintro ⟨rfl, hge⟩
  have hcolumn : (earlier ++ level)[index]? = some column := hat
  rw [List.getElem?_append_right hge] at hcolumn
  rw [only.level column (List.mem_of_getElem? hcolumn)] at hother
  cases hother

/-- Of two sides that make a pair, each has its place, and one of them is in the joined table. -/
theorem exists_places {sides : Expr × Expr} {pair : SourceColumn × SourceColumn}
    (h : Scope.joinedPair? ⟨earlier ++ level, outer⟩ joined sides = some pair) :
    ∃ index place, level[index]? = some pair.1 ∧
      ¬ (place.depth = 0 ∧ earlier.length ≤ place.index) ∧
      (Scope.exprPlace? ⟨earlier ++ level, outer⟩ sides.1 = some ⟨0, earlier.length + index⟩ ∧
          Scope.exprPlace? ⟨earlier ++ level, outer⟩ sides.2 = some place ∨
        Scope.exprPlace? ⟨earlier ++ level, outer⟩ sides.1 = some place ∧
          Scope.exprPlace? ⟨earlier ++ level, outer⟩ sides.2 =
            some ⟨0, earlier.length + index⟩) := by
  unfold Scope.joinedPair? at h
  cases hleft : Scope.columnOf? ⟨earlier ++ level, outer⟩ sides.1 with
  | none => simp [hleft] at h
  | some left =>
    cases hright : Scope.columnOf? ⟨earlier ++ level, outer⟩ sides.2 with
    | none => simp [hleft, hright] at h
    | some right =>
      obtain ⟨leftPlace, hleftPlace, hleftAt⟩ := Scope.exists_exprPlace hleft
      obtain ⟨rightPlace, hrightPlace, hrightAt⟩ := Scope.exists_exprPlace hright
      simp only [hleft, hright] at h
      -- the two cases of a pair: the joined table on the left, or on the right
      split at h
      case h_1 hjoined hother =>
        cases h
        obtain ⟨index, rfl, hcolumn⟩ := only.place_of_isOf hleftAt hjoined
        exact ⟨index, rightPlace, hcolumn, only.place_of_not_isOf hrightAt hother,
          .inl ⟨hleftPlace, hrightPlace⟩⟩
      case h_2 hother hjoined =>
        cases h
        obtain ⟨index, rfl, hcolumn⟩ := only.place_of_isOf hrightAt hjoined
        exact ⟨index, leftPlace, hcolumn, only.place_of_not_isOf hleftAt hother,
          .inr ⟨hleftPlace, hrightPlace⟩⟩
      case h_3 => cases h

end OnlyJoined

/-! ## One condition -/

section

variable {joined : String} {earlier level : Level} {outer : List Level}

/-- An equation between a column of the joined table and another one fixes the value of the former
wherever the condition holds. -/
theorem exists_fixed_of_joinedPair? (only : OnlyJoined joined earlier level outer) {criteria : Expr}
    {sides : Expr × Expr} (hsides : sides ∈ criteria.equalities) {pair : SourceColumn × SourceColumn}
    (h : Scope.joinedPair? ⟨earlier ++ level, outer⟩ joined sides = some pair) :
    ∃ index place, level[index]? = some pair.1 ∧ ∀ (V : Type) (x : RowsValuation V) (row : TableRow V),
      (JoinCondition.predicate criteria).Finds x earlier level outer row →
        ∃ v, row index = some v ∧ x.outer place = some v := by
  obtain ⟨index, place, hcolumn, hfixed, hsame⟩ := only.exists_places h
  refine ⟨index, place, hcolumn, ?_⟩
  intro V x row hholds
  have hown : (x.atJoined earlier.length row).column ⟨0, earlier.length + index⟩ = row index := by
    simp [RowsValuation.atJoined]
  have hother : (x.atJoined earlier.length row).column place = x.outer place := if_neg hfixed
  -- a condition that holds makes each of its equations hold, in which neither side is NULL
  obtain ⟨path, hpath⟩ := Valuation.holds_of_mem_equalities (V := V)
    ⟨earlier ++ level, outer⟩ hsides []
  obtain ⟨v, w, hv, hw, hvw⟩ := Valuation.comparison_eq_holds.1 (hpath _ hholds)
  obtain rfl : v = w := x.eq_of_compares v w hvw
  rcases hsame with ⟨hleft, hright⟩ | ⟨hleft, hright⟩
  · rw [Valuation.value_of_exprPlace? hleft, hown] at hv
    rw [Valuation.value_of_exprPlace? hright, hother] at hw
    exact ⟨v, hv, hw⟩
  · rw [Valuation.value_of_exprPlace? hleft, hother] at hv
    rw [Valuation.value_of_exprPlace? hright, hown] at hw
    exact ⟨v, hw, hv⟩

theorem Cardinality.ofUnique_eq_one {unique : Bool} (h : ofUnique unique = .one) :
    unique = true := by
  cases unique with
  | false => cases h
  | true => rfl

/-- A condition that is read as finding one row pins a unique column. -/
theorem JoinCondition.pins_of_link {condition : JoinCondition}
    (only : OnlyJoined joined earlier level outer)
    (h : (condition.link outer joined earlier level).cardinality = .one) :
    condition.Pins earlier level outer := by
  cases condition with
  | unconditional => cases h
  | predicate e =>
    obtain ⟨pair, hpair, hkey⟩ := List.any_eq_true.1 (Cardinality.ofUnique_eq_one h)
    obtain ⟨sides, hsides, hjoined⟩ := List.mem_filterMap.1 hpair
    obtain ⟨index, place, hcolumn, hvalue⟩ := exists_fixed_of_joinedPair? only hsides hjoined
    exact ⟨index, pair.1, place, hcolumn, hkey, hvalue⟩
  | shared names =>
    obtain ⟨column, hmem, hunique⟩ := List.any_eq_true.1 (Cardinality.ofUnique_eq_one h)
    obtain ⟨hshared, hkey⟩ := Bool.and_eq_true_iff.1 hunique
    obtain ⟨index, hcolumn⟩ := List.mem_iff_getElem?.1 hmem
    -- which of the earlier columns is equated with it does not depend on the row
    cases hfirst : earlier.findIdx? fun before => sameName before.name column.name with
    | none =>
      refine ⟨index, column, ⟨0, 0⟩, hcolumn, hkey, ?_⟩
      intro V x row hfinds
      obtain ⟨first, hfound, -⟩ := hfinds index column hcolumn hshared
      rw [hfirst] at hfound
      cases hfound
    | some first =>
      refine ⟨index, column, ⟨0, first⟩, hcolumn, hkey, ?_⟩
      intro V x row hfinds
      obtain ⟨first', hfound, hequal⟩ := hfinds index column hcolumn hshared
      obtain rfl : first = first' := Option.some.inj (hfirst.symm.trans hfound)
      obtain ⟨v, w, hv, hw, hvw⟩ := Valuation.comparison_eq_holds.1 hequal
      obtain rfl : v = w := x.eq_of_compares v w hvw
      exact ⟨v, hw, hv⟩

end

/-! ## A whole clause -/

/-- Every source that is a table is a relation. -/
theorem length_ofSource? {source : Source} (h : source.isShown = true) (columns : Level)
    (link : Relation → Relation) :
    ((Relation.ofSource? source columns).map link).toList.length = 1 := by
  obtain ⟨relation, hrelation, -⟩ := source.exists_shownRelation h columns
  rw [hrelation]
  rfl

section

variable {setting : Setting} {done : Sources} {r s : Run}

/-- Each listed table adds a relation. -/
theorem length_relations_of_sources {xs : List Source} (hxs : ∀ x ∈ xs, x.isShown = true)
    {listed : Sources} (h : (inferSources setting done xs).outcome r = .ok (listed, s)) :
    listed.relations.length = done.relations.length + xs.length := by
  induction xs generalizing done r with
  | nil =>
    cases h
    rfl
  | cons x rest ih =>
    rw [outcome_inferSources_cons] at h
    obtain ⟨⟨level, t⟩, -, h⟩ := bind_eq_ok.1 h
    have hall := ih (fun y hy => hxs y (List.mem_cons_of_mem _ hy)) h
    have hone := length_ofSource? (hxs x List.mem_cons_self) level
    simp only [Sources.add, List.length_append, hone] at hall
    rw [hall, List.length_cons, Nat.add_assoc, Nat.add_comm 1]

/-- Each joined table adds a relation behind those that are there. -/
theorem relations_of_joins {outer : List Level} {previous : String} {js : List Join}
    (hjs : ∀ j ∈ js, j.source.isShown = true) {joined : Sources}
    (h : (inferJoins setting outer done previous js).outcome r = .ok (joined, s)) :
    done.relations <+: joined.relations ∧
      joined.relations.length = done.relations.length + js.length := by
  induction js generalizing done r previous with
  | nil =>
    cases h
    exact ⟨List.prefix_rfl, rfl⟩
  | cons j rest ih =>
    obtain ⟨level, t, u, -, -, h⟩ := join_of_cons h
    obtain ⟨hkept, hlength⟩ := ih (fun k hk => hjs k (List.mem_cons_of_mem _ hk)) h
    have hone := length_ofSource? (hjs j List.mem_cons_self) level
    refine ⟨(List.prefix_append _ _).trans hkept, ?_⟩
    simp only [Sources.join, List.length_append, hone] at hlength
    rw [hlength, List.length_cons, Nat.add_assoc, Nat.add_comm 1]

/-- The relation that a join adds is read off its condition, and stays as it is behind other joins. -/
theorem exists_relation_of_join {outer : List Level} {previous : String} {j : Join} {rest : List Join}
    {level : Level} (hj : j.source.isShown = true) (hrest : ∀ k ∈ rest, k.source.isShown = true)
    {joined : Sources} (h : (inferJoins setting outer
      (done.join outer previous j.kind j.source j.condition level) j.source.visibleName rest).outcome
        r = .ok (joined, s)) :
    ∃ relation, joined.relations[done.relations.length]? = some relation ∧
      relation.key = j.source.visibleName ∧ relation.cardinality =
        (j.condition.link outer j.source.visibleName done.columns level).cardinality := by
  obtain ⟨root, hroot, hkey, -⟩ := j.source.exists_shownRelation hj level
  let link := j.condition.link outer j.source.visibleName done.columns level
  have hadded : (done.join outer previous j.kind j.source j.condition level).relations =
      done.relations ++
        [{ root with parent := link.parent.getD previous, cardinality := link.cardinality }] := by
    simp [Sources.join, hroot, link]
  obtain ⟨later, hlater⟩ := (relations_of_joins hrest h).1
  refine ⟨{ root with parent := link.parent.getD previous, cardinality := link.cardinality },
    ?_, hkey, rfl⟩
  rw [← hlater, hadded, List.append_assoc, List.getElem?_append_right (Nat.le_refl _), Nat.sub_self]
  rfl

end

theorem Source.seenName_of_isShown {source : Source} (h : source.isShown = true) :
    source.seenName = source.visibleName := by
  refine Source.seenName_eq_visibleName ?_
  simpa using Source.visibleName_isEmpty h

/-- Among tables of different names, no earlier column is of the joined table. -/
theorem onlyJoined_of_clause {records : List ColumnRecord} {profile : Profile} {branch : Branch}
    {r t u : Run} (hnames : r.CtesCarryNames) (hshown : ∀ x ∈ branch.allSources, x.isShown = true)
    (hdistinct : branch.allSources.Pairwise fun x y => sameName x.visibleName y.visibleName = false)
    {k : Nat} {join : Join} (hjoin : branch.joins[k]? = some join) {outer : List Level}
    (houter : ∀ l ∈ outer, ∀ c ∈ l, c.isOf join.source.visibleName = false)
    {listed before : Sources} {level : Level}
    (hsources : (inferSources ⟨.ofRecords records, profile⟩ .empty branch.sources).outcome r =
      .ok (listed, t))
    (hjoins : (inferJoins ⟨.ofRecords records, profile⟩ outer listed
      (Sources.lastName branch.sources) (branch.joins.take k)).outcome t = .ok (before, u))
    {v : Run} (hsource : (inferSource ⟨.ofRecords records, profile⟩ join.source).outcome u =
      .ok (level, v)) :
    OnlyJoined join.source.visibleName before.columns level outer := by
  obtain ⟨hsame, hlisted⟩ := shows_of_sources rfl hnames .nil hsources
  obtain ⟨hsame', hbefore⟩ := shows_of_joins hsame (hnames.of_same hsame) hlisted hjoins
  -- the sources before the joined one have other names
  have hsplit : branch.allSources = (branch.sources ++ (branch.joins.take k).map (·.source)) ++
      join.source :: (branch.joins.drop (k + 1)).map (·.source) := by
    unfold Branch.allSources
    conv_lhs => rw [split_at hjoin]
    simp
  rw [hsplit] at hdistinct hshown
  have hothers := (List.pairwise_append.1 hdistinct).2.2
  refine ⟨?_, ?_, houter⟩
  · intro c hc
    obtain ⟨step, hstep, -, -, hseen, -⟩ := hbefore.exists_source hc
    have hmem : step.source ∈ branch.sources ++ (branch.joins.take k).map (·.source) := by
      rcases List.mem_append.1 hstep with hstep | hstep
      · obtain ⟨x, hx, rfl⟩ := List.mem_map.1 hstep
        exact List.mem_append_left _ hx
      · exact List.mem_append_right _ (List.mem_map_of_mem hstep)
    rw [Source.seenName_of_isShown (hshown _ (List.mem_append_left _ hmem))] at hseen
    have hother := hothers _ hmem _ List.mem_cons_self
    by_contra hof
    rw [sameName_trans (sameName_symm hseen) (by simpa [SourceColumn.isOf] using hof)] at hother
    cases hother
  · exact visibleTable_of_source (hnames.of_same hsame')
      (hshown _ (List.mem_append_right _ List.mem_cons_self)) hsource

/-- In a FROM clause of tables under different names, a joined table whose relation is read as one
row of it for a row of the tables before is found one row of at most, whatever the rest of its
condition says, unless a query around has a table of its name. -/
theorem one_row_of_join {records : List ColumnRecord} {profile : Profile} {outer : List Level}
    {branch : Branch} {r s : Run} {clause : Sources} (hnames : r.CtesCarryNames)
    (h : (inferFrom ⟨.ofRecords records, profile⟩ outer branch).outcome r = .ok (clause, s))
    (hshown : ∀ x ∈ branch.allSources, x.isShown = true)
    (hdistinct : branch.allSources.Pairwise fun x y => sameName x.visibleName y.visibleName = false)
    {k : Nat} {join : Join} (hjoin : branch.joins[k]? = some join)
    (houter : ∀ l ∈ outer, ∀ c ∈ l, c.isOf join.source.visibleName = false) {relation : Relation}
    (hrelation : clause.relations[branch.sources.length + k]? = some relation)
    (hone : relation.cardinality = .one) :
    ∃ before t level u,
      (inferFrom ⟨.ofRecords records, profile⟩ outer
        { branch with joins := branch.joins.take k }).outcome r = .ok (before, t) ∧
      (inferSource ⟨.ofRecords records, profile⟩ join.source).outcome t = .ok (level, u) ∧
      relation.key = join.source.visibleName ∧
      join.condition.FindsOne before.columns level outer := by
  unfold inferFrom at h ⊢
  simp only [Analyze.outcome_bind] at h ⊢
  obtain ⟨⟨listed, t⟩, hsources, h⟩ := bind_eq_ok.1 h
  rw [split_at hjoin, outcome_inferJoins_append] at h
  obtain ⟨⟨before, u⟩, hjoins, h⟩ := bind_eq_ok.1 h
  obtain ⟨level, v, w, hsource, -, h⟩ := join_of_cons h
  have htables : ∀ k ∈ branch.joins, k.source.isShown = true := fun k hk =>
    hshown _ (List.mem_append_right _ (List.mem_map_of_mem hk))
  have hlisted := length_relations_of_sources
    (fun x hx => hshown x (List.mem_append_left _ hx)) hsources
  have hjoined := (relations_of_joins (fun k hk => htables k (List.mem_of_mem_take hk)) hjoins).2
  -- the relation at the place is the one that this join adds
  have hplace : before.relations.length = branch.sources.length + k := by
    have hlt := (List.getElem?_eq_some_iff.1 hjoin).1
    rw [hjoined, hlisted, List.length_take, Nat.min_eq_left (Nat.le_of_lt hlt)]
    simp [Sources.empty]
  obtain ⟨added, hadded, hkey, hcardinality⟩ := exists_relation_of_join
    (htables join (List.mem_of_getElem? hjoin)) (fun k hk => htables k (List.mem_of_mem_drop hk)) h
  rw [hplace] at hadded
  obtain rfl : relation = added := Option.some.inj (hrelation.symm.trans hadded)
  have only := onlyJoined_of_clause hnames hshown hdistinct hjoin houter hsources hjoins hsource
  refine ⟨before, u, level, v, ?_, hsource, hkey, ?_⟩
  · rw [hsources]
    exact hjoins
  · rw [hcardinality] at hone
    exact (JoinCondition.pins_of_link only hone).findsOne

/-! ## Posts with tags -/

/-- Users, their posts, and the tags of these. -/
def postTables : List ColumnRecord :=
  [⟨"users", "uid", .int, .primary, true⟩, ⟨"posts", "id", .int, .primary, true⟩,
    ⟨"posts", "author", .int, .plain, true⟩, ⟨"tags", "tag_id", .int, .primary, true⟩,
    ⟨"tags", "post", .int, .plain, true⟩]

/-- The users, seen by a query inside another one. -/
def usersAs (aliasName : String) : Level :=
  [⟨"users", aliasName, "uid", ⟨1, "uid", .exact .int, false, false⟩, .primary, true⟩]

/-- `FROM posts a INNER JOIN tags b ON criteria`. -/
def taggedPosts (criteria : Expr) : Branch :=
  ⟨false, [.star], [.table "posts" (some "a")],
    [⟨.inner, .table "tags" (some "b"), .predicate criteria⟩], none, [], none⟩

/-- `(B.tag_id = u.uid AND b.post > a.id)`. -/
def onOuterUser : Expr :=
  .paren (.and (.compare .eq (columnOf "B" "tag_id") (columnOf "u" "uid"))
    (.compare .gt (columnOf "b" "post") (columnOf "a" "id")))

/-- `b.uid = a.author`. -/
def onAuthor : Expr := .compare .eq (columnOf "b" "uid") (columnOf "a" "author")

/-- The run that has read these columns. -/
def usersRead : Run := { Run.start with issued := 1 }

/-- Inside a query over users, tags are found by their key. -/
theorem one_row_of_join_onOuterUser : ∃ clause s before t level u,
    (tableColumns (.ofRecords postTables) "users" (some "u")).outcome .start =
      .ok (usersAs "u", usersRead) ∧
    (inferFrom ⟨.ofRecords postTables, .mysql⟩ [usersAs "u"] (taggedPosts onOuterUser)).outcome
      usersRead = .ok (clause, s) ∧
    clause.relations.map (fun relation => (relation.key, relation.cardinality)) =
      [("a", .one), ("b", .one)] ∧
    (inferFrom ⟨.ofRecords postTables, .mysql⟩ [usersAs "u"]
      { taggedPosts onOuterUser with joins := [] }).outcome usersRead = .ok (before, t) ∧
    (inferSource ⟨.ofRecords postTables, .mysql⟩ (.table "tags" (some "b"))).outcome t =
      .ok (level, u) ∧
    (JoinCondition.predicate onOuterUser).FindsOne before.columns level [usersAs "u"] := by
  have hnames : usersRead.CtesCarryNames := fun _ hentry => absurd hentry List.not_mem_nil
  have hread : ((inferFrom ⟨.ofRecords postTables, .mysql⟩ [usersAs "u"]
      (taggedPosts onOuterUser)).outcome usersRead).toOption.map (fun reached =>
        reached.1.relations.map fun relation => (relation.key, relation.cardinality)) =
      some [("a", .one), ("b", .one)] := by
    decide +kernel
  cases hclause : (inferFrom ⟨.ofRecords postTables, .mysql⟩ [usersAs "u"]
      (taggedPosts onOuterUser)).outcome usersRead with
  | error e =>
    rw [hclause] at hread
    cases hread
  | ok reached =>
    obtain ⟨clause, s⟩ := reached
    rw [hclause] at hread
    have hrelations := Option.some.inj hread
    have hsecond := congrArg (fun pairs => pairs[1]?) hrelations
    rw [List.getElem?_map] at hsecond
    obtain ⟨relation, hrelation, hpair⟩ := Option.map_eq_some_iff.1 hsecond
    obtain ⟨before, t, level, u, hbefore, hlevel, -, hfinds⟩ := one_row_of_join hnames hclause
      (by decide) (by decide) (k := 0) rfl (by decide) hrelation (Prod.mk.inj hpair).2
    exact ⟨clause, s, before, t, level, u, rfl, rfl, hrelations, hbefore, hlevel, hfinds⟩

/-- Inside a query over users of the name under which tags are joined, a reference to these users is
taken for one to the tags, though it leaves all the tags. -/
theorem outer_table_taken_for_joined : ∃ clause s before t level u,
    (tableColumns (.ofRecords postTables) "users" (some "b")).outcome .start =
      .ok (usersAs "b", usersRead) ∧
    (inferFrom ⟨.ofRecords postTables, .mysql⟩ [usersAs "b"] (taggedPosts onAuthor)).outcome
      usersRead = .ok (clause, s) ∧
    clause.relations.map (fun relation => (relation.key, relation.cardinality)) =
      [("a", .one), ("b", .one)] ∧
    (inferFrom ⟨.ofRecords postTables, .mysql⟩ [usersAs "b"]
      { taggedPosts onAuthor with joins := [] }).outcome usersRead = .ok (before, t) ∧
    (inferSource ⟨.ofRecords postTables, .mysql⟩ (.table "tags" (some "b"))).outcome t =
      .ok (level, u) ∧
    ¬ (JoinCondition.predicate onAuthor).FindsOne before.columns level [usersAs "b"] := by
  refine ⟨_, _, _, _, _, _, rfl, rfl, by decide, rfl, rfl, ?_⟩
  intro hone
  -- all columns in sight but those of the tags have one value
  let x : RowsValuation Nat := { plainNumbers with outer := fun _ => some 1 }
  have hlength := hone Nat x [rowOf [1, 1], rowOf [2, 1]] ?unique _ (List.Sublist.refl _) ?found
  · exact absurd hlength (by decide)
  case unique =>
    refine List.pairwise_pair.2 fun index column hcolumn hkey v hv => ?_
    match index, hcolumn, hkey, hv with
    | 0, _, _, hv =>
      cases hv
      decide
    | 1, hcolumn, hkey, _ =>
      cases hcolumn
      cases hkey
  case found =>
    intro row hrow
    simp only [List.mem_cons, List.not_mem_nil, or_false] at hrow
    rcases hrow with rfl | rfl <;> rfl

end QuerySignature
