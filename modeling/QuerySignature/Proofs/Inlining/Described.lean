import QuerySignature.Proofs.Inlining.Crossing

namespace QuerySignature

/-! # Inlined common tables

A common table that a query of one branch mentions once, in its FROM clause, can stand there as a
derived table: the query is described as before, up to the order of its parameters.

- `walk_inlined`: what the walks over both queries give.
- `describe_inlined`: what both are described as.
-/

/-! ## Steps at the mention -/

/-- A run that has analysed nothing but a common table knows it. -/
theorem outcome_soleCte (setting : Setting) (c : Cte) (r : Run) :
    (inferCtes setting [] [c]).outcome r =
      ((inferQuery setting [] c.query).outcome r).bind fun q => .ok ((), q.2.knowing c q.1) := by
  rw [outcome_inferCtes_cons]
  rfl

/-- A mention shows the columns of the common table under its own alias. -/
theorem outcome_mention (setting : Setting) {name : String} (aliasName : Option String) {r : Run}
    {c : Cte} {query : QueryResult}
    (hcte : r.cte? (lastSegment name) = some (levelOf c.name query.columns)) :
    (inferSource setting (.table name aliasName)).outcome r =
      .ok (c.mentioned query aliasName, r) := by
  unfold inferSource tableColumns
  rw [Analyze.outcome_bind, Analyze.outcome_get, ok_bind, hcte]
  rfl

/-- A derived table shows the columns of its query. -/
theorem outcome_derivedTable (setting : Setting) (q : Select) (aliasName : String) (r : Run) :
    (inferSource setting (.derived q aliasName)).outcome r =
      ((inferQuery setting [] q).outcome r).bind fun p => .ok (levelOf aliasName p.1.columns, p.2) := by
  unfold inferSource
  rw [Analyze.outcome_bind]
  rfl

/-! ## No key of a common table -/

theorem fixesKey_of_plain {scope : Scope} (h : ∀ column ∈ scope.columns, column.key = .plain)
    (e : Expr) : scope.fixesKey e = false := by
  have hkey : ∀ side : Expr, scope.isPrimaryKey side = false := by
    intro side
    unfold Scope.isPrimaryKey
    cases side.column? with
    | none => rfl
    | some reference =>
      refine List.any_eq_false.2 fun column hcolumn => ?_
      rw [h column hcolumn]
      simp
  unfold Scope.fixesKey
  refine List.any_eq_false.2 fun ⟨left, right⟩ _ => ?_
  simp only [hkey, Bool.or_self, Bool.false_eq_true, not_false_eq_true]

section

variable {setting : Setting} {c : Cte} {order : List OrderTerm} {limit : Option Limit}
  {b b' : Branch} {spot : Spot} {name : String} {aliasName : Option String}

/-- Where a common table is all that is read, no key is fixed. -/
theorem InlinedAt.fixesKey (h : InlinedAt c order limit b b' spot name aliasName)
    (x : Crossing setting c spot) {joined : Sources} {r : Run}
    (hafter : (spot.readAfter setting (.table name aliasName) x.beforeBehind
      (c.mentioned x.query aliasName)).outcome x.run = .ok (joined, r)) :
    b.fixesKey joined = false := by
  unfold Branch.fixesKey
  cases hone : readsOneTable b.sources b.joins with
  | false => rfl
  | true =>
    rw [h.sources, h.joins] at hone
    obtain ⟨rfl, -⟩ := Spot.eq_of_readsOneTable hone
    have hbefore : Sources.empty = x.beforeBehind :=
      congrArg Prod.fst (Except.ok.inj x.beforeBehindOk)
    rw [← hbefore] at hafter
    obtain rfl : Sources.add .empty _ _ = joined := congrArg Prod.fst (Except.ok.inj hafter)
    -- columns of a common table are under no key
    have hplain : ∀ column ∈ (Sources.empty.add (.table name aliasName)
        (c.mentioned x.query aliasName)).columns, column.key = .plain := by
      intro column hcolumn
      obtain ⟨_, hlevel, rfl⟩ := List.mem_map.1 hcolumn
      obtain ⟨_, -, rfl⟩ := List.mem_map.1 hlevel
      rfl
    rw [Bool.true_and, Option.any_eq_false]
    exact fun e _ => fixesKey_of_plain hplain e

theorem InlinedAt.fixesKey' (h : InlinedAt c order limit b b' spot name aliasName)
    (joined : Sources) : b'.fixesKey joined = false := by
  unfold Branch.fixesKey
  cases hone : readsOneTable b'.sources b'.joins with
  | false => rfl
  | true =>
    rw [h.sources', h.joins'] at hone
    obtain ⟨-, name, aliasName, hne⟩ := Spot.eq_of_readsOneTable hone
    cases hne

end

/-! ## The walks -/

/-- What two walks give that meet their first two parts, of `n` and of `m` variables, in the two
orders. -/
structure Crossed (n m : Nat) (p p' : QueryResult × Run) : Prop where
  columns : ∃ Q : Pasts, Q.number = exchange n m ∧
    List.Forall₂ (OutputColumn.Abreast Q) p.1.columns p'.1.columns
  manyRows : p'.1.manyRows = p.1.manyRows
  constraints : ∃ a a' b b' k k', InEitherOrder n m p.2.constraints p'.2.constraints a a' b b' k k'
  placeholders : ∃ others bound, p.2.placeholders.Perm others ∧
    List.Forall₂ (Placeholder.Paired (exchange n m) bound) others p'.2.placeholders

section

variable {setting : Setting} {c : Cte} {order : List OrderTerm} {limit : Option Limit}
  {b b' : Branch} {spot : Spot} {name : String} {aliasName : Option String}

/-- Both walks have the placeholders of the query, of what stands before the mention, and of the rest,
the walk over the derived table in another order. -/
theorem Crossing.crossed_placeholders (x : Crossing setting c spot) {joined joined' : Sources}
    {r r' : Run}
    (hjoined : Arrived x.pasts (Sources.Abreast x.pasts) x.run x.run' (joined, r) (joined', r'))
    {p p' : QueryResult × Run}
    (hrest : Followed (hjoined.runs.onward r.placeholders r'.placeholders)
      x.own.placeholders.length 0 p p') :
    ∃ others, p.2.placeholders.Perm others ∧
      List.Forall₂ (Placeholder.Paired x.pasts.number p.2.issued) others p'.2.placeholders := by
  have hbound : x.own.issued + x.lead.issued ≤ p.2.issued := by
    have hissued : x.run.issued ≤ r.issued := hjoined.grows
    have hgrows : r.issued ≤ p.2.issued := hrest.grows
    rw [← x.run_issued]
    omega
  obtain ⟨own', lead', hrun, hrun', hpairsOwn, hpairsLead⟩ := x.placeholders hbound
  obtain ⟨read, read', hread, hread', hpairsRead⟩ := hjoined.runs.placeholders
  obtain ⟨projected, projected', added, added', hp, hp', hpairsProjected, hpairsAdded⟩ :=
    hrest.placeholders
  have hr : r.placeholders = x.own.placeholders ++ (lead' ++ read) := by
    rw [← List.append_assoc, ← hrun]
    exact hread
  have hr' : r'.placeholders = x.lead.placeholders ++ own' ++ read' := by
    rw [← hrun']
    exact hread'
  -- the projection comes behind the query in the one walk, and in front of it in the other
  have htaken : p.2.placeholders = x.own.placeholders ++ projected ++ (lead' ++ read) ++ added := by
    have hfirst : p.2.placeholders = r.placeholders.take x.own.placeholders.length ++ projected ++
        r.placeholders.drop x.own.placeholders.length ++ added := hp
    rw [hfirst, hr, List.take_left, List.drop_left]
  have htaken' : p'.2.placeholders =
      projected' ++ (x.lead.placeholders ++ own' ++ read') ++ added' := by
    have hsecond : p'.2.placeholders = r'.placeholders.take 0 ++ projected' ++
        r'.placeholders.drop 0 ++ added' := hp'
    rw [hsecond, hr', List.take_zero, List.drop_zero, List.nil_append]
  have hpairsReadBound : List.Forall₂ (Placeholder.Paired x.pasts.number p.2.issued) read read' :=
    hpairsRead.imp fun _ _ hpair => hpair.mono hrest.grows
  refine ⟨projected ++ (lead' ++ x.own.placeholders ++ read) ++ added, ?_, ?_⟩
  · rw [htaken]
    refine List.perm_iff_count.2 fun placeholder => ?_
    simp only [List.count_append]
    omega
  · rw [htaken']
    exact List.rel_append (List.rel_append hpairsProjected (List.rel_append
      (List.rel_append hpairsLead hpairsOwn) hpairsReadBound)) hpairsAdded

/-- What follows the mention keeps the walks crossed. -/
theorem Crossing.crossed (x : Crossing setting c spot) {joined joined' : Sources} {r r' : Run}
    (hjoined : Arrived x.pasts (Sources.Abreast x.pasts) x.run x.run' (joined, r) (joined', r'))
    {p p' : QueryResult × Run}
    (hrest : Followed (hjoined.runs.onward r.placeholders r'.placeholders)
      x.own.placeholders.length 0 p p') :
    Crossed x.own.issued x.lead.issued p p' := by
  obtain ⟨first, first', hfirst, hfirst', hpairsFirst⟩ := hjoined.runs.constraints
  obtain ⟨second, second', hsecond, hsecond', hpairsSecond⟩ := hrest.constraints
  obtain ⟨others, hperm, hpairs⟩ := x.crossed_placeholders hjoined hrest
  refine ⟨hrest.columns, hrest.manyRows, ?_, others, _, hperm, hpairs⟩
  refine x.inEitherOrder ?_ ?_ (List.rel_append hpairsFirst hpairsSecond)
  · rw [hsecond, ← List.append_assoc]
    exact congrArg (· ++ second) hfirst
  · rw [hsecond', ← List.append_assoc]
    exact congrArg (· ++ second') hfirst'

/-- From the mention on, the two walks go abreast. -/
theorem InlinedAt.walk_rest (h : InlinedAt c order limit b b' spot name aliasName)
    (x : Crossing setting c spot) :
    Alike (Crossed x.own.issued x.lead.issued)
      (((spot.readAfter setting (.table name aliasName) x.beforeBehind
        (c.mentioned x.query aliasName)).outcome x.run).bind fun joined =>
        (inferAfterFrom setting b order limit x.own.placeholders.length joined.1).outcome joined.2)
      (((spot.readAfter setting (.derived c.query (c.aliasOf aliasName)) x.before
        (levelOf (c.aliasOf aliasName) x.queryBehind.columns)).outcome x.run').bind fun joined =>
        (inferAfterFrom setting b' order limit 0 joined.1).outcome joined.2) := by
  -- first what reads the mention and what stands behind it in FROM
  have hafter : Abreast x.pasts (fun t => sameName c.name t = false) (Sources.Abreast x.pasts)
      (spot.readAfter setting (.table name aliasName) x.beforeBehind
        (c.mentioned x.query aliasName))
      (spot.readAfter setting (.derived c.query (c.aliasOf aliasName)) x.before
        (levelOf (c.aliasOf aliasName) x.queryBehind.columns)) :=
    Abreast.readAfter (T := fun t => sameName c.name t = false) h.around _ _ x.sources
      (x.levels aliasName)
  refine (hafter x.run x.run' (.start x.pasts) x.seesAlike).with_values.bind ?_
  rintro ⟨joined, r⟩ ⟨joined', r'⟩ ⟨hjoined, hvalue, -⟩
  have hempty : b'.sources.isEmpty = b.sources.isEmpty := by
    rw [h.sources, h.sources']
    exact spot.isEmpty_sources _ _
  have hkey : b'.fixesKey joined' = b.fixesKey joined := by
    rw [h.fixesKey x hvalue, h.fixesKey']
  have hsees : ∀ t, sameName c.name t = false → x.pasts.SeesAlike r r' t :=
    fun t ht => Abreast.seesAlike_of_ctes (x.seesAlike t ht) hjoined.ctes hjoined.ctes'
  -- then the rest of the query
  have hrest : Alike (Followed (hjoined.runs.onward r.placeholders r'.placeholders)
      x.own.placeholders.length 0)
      ((inferAfterFrom setting b order limit x.own.placeholders.length joined).outcome r)
      ((inferAfterFrom setting b' order limit 0 joined').outcome r') :=
    afterFrom_alike (T := fun t => sameName c.name t = false)
      (hjoined.runs.onward r.placeholders r'.placeholders) hsees h.behind h.same hjoined.values
      hempty hkey x.own.placeholders.length 0
  exact hrest.mono fun p p' hp => x.crossed hjoined hp

/-- The walk over a query with a mention of a common table, and the walk over the query with a derived
table instead. -/
theorem walk_inlined (setting : Setting) (h : InlinedAt c order limit b b' spot name aliasName) :
    Likewise (fun p p' => ∃ n m, Crossed n m p p')
      ((inferQuery setting [] ⟨[c], [b], order, limit⟩).outcome .start)
      ((inferQuery setting [] ⟨[], [b'], order, limit⟩).outcome .start) := by
  have hnone : (inferCtes setting [] []).outcome .start = .ok ((), .start) := rfl
  rw [outcome_oneBranch, outcome_oneBranch, outcome_soleCte, hnone]
  simp only [Spot.outcome_inferFrom setting h.sources h.joins,
    Spot.outcome_inferFrom setting h.sources' h.joins', outcome_derivedTable, bind_bind, ok_bind]
  cases hquery : (inferQuery setting [] c.query).outcome .start with
  | error e =>
    -- the query fails in both walks, if the second one comes to it
    cases hbefore : (spot.readBefore setting).outcome .start with
    | error e' => exact .error e e'
    | ok front =>
      obtain ⟨_, -, hctes, -⟩ := Run.Sound.start.readBefore hbefore
      rw [ok_bind, (query_behind c.query hctes).of_error hquery]
      exact .error e e
  | ok query =>
    cases hbefore : (spot.readBefore setting).outcome .start with
    | error e =>
      -- what stands before the mention fails in both walks
      obtain ⟨_, -, _, -, hctes, -⟩ := Run.Sound.start.query nothing_outer hquery
      rw [ok_bind, (before_behind h.around query.1 hctes).of_error hbefore]
      exact .error e e
    | ok front =>
      obtain ⟨x⟩ := exists_crossing h.around hquery hbefore
      obtain rfl : (x.query, x.own) = query := Except.ok.inj (x.queryOk.symm.trans hquery)
      obtain rfl : (x.before, x.lead) = front := Except.ok.inj (x.beforeOk.symm.trans hbefore)
      simp only [ok_bind, x.beforeBehindOk, x.queryBehindOk,
        outcome_mention setting _ (x.cte?_run h.named)]
      have hrests := h.walk_rest x
      simp only [← bind_bind]
      refine hrests.likewise.bind fun p p' hp => ?_
      exact .ok ⟨_, _, hp.columns, hp.manyRows, hp.constraints, hp.placeholders⟩

end

/-! ## The description -/

/-- What a parameter takes, whatever it is called. -/
def ResultParameter.takes (p : ResultParameter) : SqlType × Bool × Bool := (p.type, p.notNull, p.list)

/-- What a placeholder takes. -/
def Placeholder.takes (p : Placeholder) (solution : Solution) (profile : Profile) :
    SqlType × Bool × Bool :=
  (solution.typeOf profile p.var, p.notNull, p.var.list)

theorem takes_parameters (profile : Profile) (q : Select) (result : QueryResult) (run : Run)
    (solution : Solution) :
    (Description.of profile (.select q) ⟨result, 0⟩ run solution).parameters.map
        ResultParameter.takes =
      run.placeholders.map fun p => p.takes solution profile := by
  show ((run.placeholders.zipIdx.map _).drop 0).map ResultParameter.takes = _
  rw [List.drop_zero, List.map_map]
  conv_rhs => rw [← List.zipIdx_map_fst 0 run.placeholders, List.map_map]
  rfl

section

variable {profile : Profile} {n m : Nat} {p p' : QueryResult × Run} {solution solution' : Solution}

theorem Crossed.takes (h : Crossed n m p p')
    (hinfo : ∀ v v', v.Paired (exchange n m) v' → solution'.infoOf v' = solution.infoOf v) :
    (p'.2.placeholders.map fun q => q.takes solution' profile).Perm
      (p.2.placeholders.map fun q => q.takes solution profile) := by
  obtain ⟨others, bound, hperm, hpairs⟩ := h.placeholders
  have hsame : (p'.2.placeholders.map fun q => q.takes solution' profile) =
      others.map fun q => q.takes solution profile := by
    refine map_eq_of_rel hpairs fun q q' hq => ?_
    have htype : solution'.typeOf profile q'.var = solution.typeOf profile q.var :=
      typeOf_eq (hinfo _ _ hq.var)
    unfold Placeholder.takes
    rw [htype, hq.notNull, hq.var.eq]
  rw [hsame]
  exact (hperm.map _).symm

end

/-- A common table that a query of one branch mentions once, in the list or in the joins of its FROM
clause, may stand there as a derived table, under the alias of the mention or else under its own name.
The query is described or refused as before, with the same columns and the same number of rows; its
parameters are the same up to their order. -/
theorem describe_inlined (setting : Setting) (c : Cte) (b : Branch) (order : List OrderTerm)
    (limit : Option Limit) (honce : mentionsOf c b order limit = 1)
    (hmention : ∃ x ∈ b.sources ++ b.joins.map Join.source, x.mentions c = true) :
    Likewise (fun d d' => d'.columns = d.columns ∧ d'.manyRows = d.manyRows ∧
        (d'.parameters.map ResultParameter.takes).Perm (d.parameters.map ResultParameter.takes))
      (describe setting (.select ⟨[c], [b], order, limit⟩))
      (describe setting (.select ⟨[], [b.inlined c], order, limit⟩)) := by
  obtain ⟨spot, name, aliasName, hinlined⟩ := exists_inlinedAt honce hmention
  rw [describe_select, describe_select]
  refine (walk_inlined setting hinlined).bind fun p p' ⟨n, m, hcrossed⟩ => ?_
  obtain ⟨_, _, _, _, _, _, horder⟩ := hcrossed.constraints
  obtain ⟨Q, hnumber, hcolumns⟩ := hcrossed.columns
  refine ((horder.solve setting.profile).mapError _).map fun solution solution' hinfo => ?_
  refine ⟨map_eq_of_rel hcolumns fun o o' ho => ?_, hcrossed.manyRows, ?_⟩
  · exact ho.result fun v v' hv => hinfo v v' (hnumber ▸ hv)
  · rw [takes_parameters, takes_parameters]
    exact hcrossed.takes hinfo

/-! ## A query to look at -/

/-- `c AS (SELECT id AS a FROM mytable1 WHERE id = ?)`. -/
def idsByValue : Cte :=
  ⟨"c", ⟨[], [⟨false, [.expr (.column ⟨none, "id"⟩) (some "a")], [.table "mytable1" none], [],
    some (.compare .eq (.column ⟨none, "id"⟩) (.parameter none)), [], none⟩], [], none⟩⟩

/-- `SELECT x.a FROM (SELECT ? AS b) AS n, c AS x`. -/
def besideAText : Branch :=
  ⟨false, [.expr (.column ⟨some "x", "a"⟩) none],
    [.derived ⟨[], [⟨false, [.expr (.parameter none) (some "b")], [], [], none, [], none⟩], [], none⟩
      "n", .table "c" (some "x")], [], none, [], none⟩

/-- The parameter of the common table moves behind that of the source before it. -/
theorem describe_inlined_besideAText :
    ∃ d d', describe ⟨oneTable, .mysql⟩ (.select ⟨[idsByValue], [besideAText], [], none⟩) = .ok d ∧
      describe ⟨oneTable, .mysql⟩ (.select ⟨[], [besideAText.inlined idsByValue], [], none⟩) =
        .ok d' ∧
      d'.columns = d.columns ∧ d'.manyRows = d.manyRows ∧
      (d'.parameters.map ResultParameter.takes).Perm (d.parameters.map ResultParameter.takes) ∧
      d.parameters.map (·.type) = [.int, .varchar] ∧
      d'.parameters.map (·.type) = [.varchar, .int] := by
  have hone : mentionsOf idsByValue besideAText [] none = 1 := by decide +kernel
  have hmention : ∃ x ∈ besideAText.sources ++ besideAText.joins.map Join.source,
      x.mentions idsByValue = true := ⟨.table "c" (some "x"), by simp [besideAText], by decide⟩
  obtain ⟨d, hd⟩ := exists_of_isOk (x := describe ⟨oneTable, .mysql⟩
    (.select ⟨[idsByValue], [besideAText], [], none⟩)) (by decide +kernel)
  obtain ⟨d', hd'⟩ := exists_of_isOk (x := describe ⟨oneTable, .mysql⟩
    (.select ⟨[], [besideAText.inlined idsByValue], [], none⟩)) (by decide +kernel)
  have htypes : (describe ⟨oneTable, .mysql⟩ (.select ⟨[idsByValue], [besideAText], [], none⟩)).map
      (fun d => d.parameters.map (·.type)) = .ok [.int, .varchar] := by decide +kernel
  have htypes' : (describe ⟨oneTable, .mysql⟩
      (.select ⟨[], [besideAText.inlined idsByValue], [], none⟩)).map
      (fun d => d.parameters.map (·.type)) = .ok [.varchar, .int] := by decide +kernel
  rw [hd] at htypes
  rw [hd'] at htypes'
  have hinlined := describe_inlined ⟨oneTable, .mysql⟩ idsByValue besideAText [] none hone hmention
  obtain ⟨hcolumns, hrows, hperm⟩ := hinlined.of_ok hd hd'
  exact ⟨d, d', hd, hd', hcolumns, hrows, hperm, Except.ok.inj htypes, Except.ok.inj htypes'⟩

end QuerySignature
