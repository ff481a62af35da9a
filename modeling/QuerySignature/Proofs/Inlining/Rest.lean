import QuerySignature.Proofs.Abreast.Walk
import QuerySignature.Proofs.Inlining.Mention
import QuerySignature.Proofs.Walk.Parts

namespace QuerySignature

/-! # Behind a FROM clause

A query of one branch is its common tables, its FROM clause and the rest. Two rests go abreast when the
FROM clauses show columns that stand for one another, though the placeholders of the clauses may stand
in another order: these are set aside, and put back behind those of the projection.

- `outcome_oneBranch`: a query of one branch, taken apart.
- `afterFrom_alike`: what two rests give.
-/

/-- The result of a query of one branch. -/
def Branch.soleResult (b : Branch) (order : List OrderTerm) (limit : Option Limit)
    (front : Sources × List OutputColumn) : QueryResult :=
  .of (b.result [] front) (b.result [] front).columns [b] order limit

/-- What follows the projection in a query of one branch. -/
def inferAfterItems (setting : Setting) (b : Branch) (order : List OrderTerm)
    (limit : Option Limit) (front : Sources × List OutputColumn) : Analyze QueryResult := do
  let _ ← inferSome setting ⟨front.1.columns, []⟩ b.criteria
  let _ ← inferAll setting (groupedScope [] front) b.group
  let _ ← inferSome setting (groupedScope [] front) b.having
  inferOrder setting (orderScope [] (b.result [] front, (b.result [] front).columns)) order
  inferLimit setting ⟨front.1.columns, []⟩ limit
  pure (b.soleResult order limit front)

/-- What follows the FROM clause, whose placeholders begin at a place. -/
def inferAfterFrom (setting : Setting) (b : Branch) (order : List OrderTerm) (limit : Option Limit)
    (start : Nat) (joined : Sources) : Analyze QueryResult := do
  let later ← cutPlaceholders start
  let columns ← inferItems setting ⟨joined.columns, []⟩ b.items
  appendPlaceholders later
  inferAfterItems setting b order limit (joined, columns)

theorem outcome_oneBranch (setting : Setting) (ctes : List Cte) (b : Branch)
    (order : List OrderTerm) (limit : Option Limit) (r : Run) :
    (inferQuery setting [] ⟨ctes, [b], order, limit⟩).outcome r =
      ((inferCtes setting [] ctes).outcome r).bind fun known =>
      ((inferFrom setting [] b).outcome known.2).bind fun joined =>
      ((inferAfterFrom setting b order limit known.2.placeholders.length joined.1).outcome
        joined.2).bind fun q => .ok (q.1, { q.2 with ctes := r.ctes }) := by
  rw [outcome_inferQuery]
  unfold inferFrom inferAfterFrom inferAfterItems
  simp only [outcome_inferUnion_cons, outcome_inferBranch, outcome_inferFront, bind_bind,
    Analyze.outcome_bind]
  rfl

/-! ## The number of rows -/

/-- Whether WHERE fixes a key of the one table that a branch reads. -/
def Branch.fixesKey (b : Branch) (joined : Sources) : Bool :=
  readsOneTable b.sources b.joins && b.criteria.any (Scope.fixesKey ⟨joined.columns, []⟩)

theorem allAggregates_abreast {P : Pasts} {cs cs' : List OutputColumn}
    (h : List.Forall₂ (OutputColumn.Abreast P) cs cs') :
    (!cs'.isEmpty && cs'.all (·.aggregate)) = (!cs.isEmpty && cs.all (·.aggregate)) := by
  have hall : (cs'.all fun c => c.aggregate) = cs.all fun c => c.aggregate :=
    all_eq_of_rel h fun _ _ hc => hc.aggregate
  have hempty : cs'.isEmpty = cs.isEmpty := by
    cases h with
    | nil => rfl
    | cons _ _ => rfl
  rw [hall, hempty]

/-- Two branches that differ in their FROM clauses give as many rows. -/
theorem manyRows_abreast {P : Pasts} {b b' : Branch} (order : List OrderTerm)
    (limit : Option Limit) {front front' : Sources × List OutputColumn}
    (hcolumns : List.Forall₂ (OutputColumn.Abreast P) (b.result [] front).columns
      (b'.result [] front').columns)
    (hgroup : b'.group = b.group) (hsources : b'.sources.isEmpty = b.sources.isEmpty)
    (hkey : b'.fixesKey front'.1 = b.fixesKey front.1) :
    (b'.soleResult order limit front').manyRows = (b.soleResult order limit front).manyRows := by
  have hshape : (b'.result [] front').shape = (b.result [] front).shape := by
    have haggregates := allAggregates_abreast hcolumns
    unfold Branch.fixesKey at hkey
    unfold Branch.result BranchResult.of branchShape at haggregates ⊢
    simp only [RowShape.mk.injEq, true_and, and_true] at haggregates ⊢
    exact ⟨by rw [hgroup], by rw [hsources], haggregates, hkey⟩
  unfold Branch.soleResult QueryResult.of
  simp only [hshape, List.length_singleton]

/-! ## Two rests -/

/-- Runs from which two walks set out, with the placeholders behind a place of each set aside. -/
def Pasts.setAside (P : Pasts) (start start' : Nat) : Pasts :=
  (Run.Abreast.start P).onward (P.first.placeholders.take start)
    (P.second.placeholders.take start')

/-- What the rests of two queries give: columns that stand for one another, as many rows, and behind what
was there, constraints and placeholders that stand for one another. The placeholders of the projection
come in front of those of the FROM clause. -/
structure Followed (P : Pasts) (start start' : Nat) (p p' : QueryResult × Run) : Prop where
  columns : ∃ Q : Pasts, Q.number = P.number ∧
    List.Forall₂ (OutputColumn.Abreast Q) p.1.columns p'.1.columns
  manyRows : p'.1.manyRows = p.1.manyRows
  grows : P.first.issued ≤ p.2.issued
  constraints : ∃ added added', p.2.constraints = P.first.constraints ++ added ∧
    p'.2.constraints = P.second.constraints ++ added' ∧
    List.Forall₂ (Constraint.Paired P.number) added added'
  placeholders : ∃ projected projected' added added',
    p.2.placeholders = P.first.placeholders.take start ++ projected ++
      P.first.placeholders.drop start ++ added ∧
    p'.2.placeholders = P.second.placeholders.take start' ++ projected' ++
      P.second.placeholders.drop start' ++ added' ∧
    List.Forall₂ (Placeholder.Paired P.number p.2.issued) projected projected' ∧
    List.Forall₂ (Placeholder.Paired P.number p.2.issued) added added'

/-- Placeholders that are set aside during the projection come behind those that it adds. -/
theorem Followed.of_projection {P : Pasts} {start start' : Nat} {R : List OutputColumn →
    List OutputColumn → Prop} {cs cs' : List OutputColumn} {s s' : Run}
    (hprojected : Arrived (P.setAside start start') R (P.setAside start start').first
      (P.setAside start start').second (cs, s) (cs', s'))
    {S : QueryResult → QueryResult → Prop} {q q' : QueryResult} {t t' : Run}
    (hlast : Arrived (hprojected.runs.onward (s.placeholders ++ P.first.placeholders.drop start)
        (s'.placeholders ++ P.second.placeholders.drop start')) S
      { s with placeholders := s.placeholders ++ P.first.placeholders.drop start }
      { s' with placeholders := s'.placeholders ++ P.second.placeholders.drop start' } (q, t) (q', t'))
    (hcolumns : List.Forall₂ (OutputColumn.Abreast (P.setAside start start')) q.columns q'.columns)
    (hrows : q'.manyRows = q.manyRows) : Followed P start start' (q, t) (q', t') := by
  obtain ⟨projected, projected', hs, hs', hpairsProjected⟩ := hprojected.runs.placeholders
  obtain ⟨added, added', ht, ht', hpairsAdded⟩ := hlast.runs.placeholders
  have hgrows : s.issued ≤ t.issued := hlast.grows
  have hsFirst : s.placeholders = P.first.placeholders.take start ++ projected := hs
  have hsSecond : s'.placeholders = P.second.placeholders.take start' ++ projected' := hs'
  refine ⟨⟨P.setAside start start', rfl, hcolumns⟩, hrows, Nat.le_trans hprojected.grows hgrows,
    hprojected.runs.constraints_onward hlast.runs,
    ⟨projected, projected', added, added', ?_, ?_, ?_, hpairsAdded⟩⟩
  · rw [← hsFirst]
    exact ht
  · rw [← hsSecond]
    exact ht'
  · exact hpairsProjected.imp fun _ _ hp => hp.mono hgrows

open Parallel (Reads reads_append)

section Rest

variable {T : String → Prop} {setting : Setting} {b b' : Branch} {order : List OrderTerm}
  {limit : Option Limit} {front front' : Sources × List OutputColumn}

/-- From WHERE on, two rests go abreast. -/
theorem Abreast.afterItems {P : Pasts} (ht : Reads T (restTables b order limit))
    (hb : b.SameBehindFrom b') (hjoined : P.Levels front.1.columns front'.1.columns)
    (hgrouped : P.Levels (levelOf "" front.2) (levelOf "" front'.2))
    (hordered : P.Levels (levelOf "" (b.result [] front).columns)
      (levelOf "" (b'.result [] front').columns)) :
    Abreast P T (fun q q' => q = b.soleResult order limit front ∧
        q' = b'.soleResult order limit front')
      (inferAfterItems setting b order limit front)
      (inferAfterItems setting b' order limit front') := by
  obtain ⟨ht, htLimit⟩ := reads_append ht
  obtain ⟨ht, htOrder⟩ := reads_append ht
  obtain ⟨ht, htHaving⟩ := reads_append ht
  obtain ⟨ht, htGroup⟩ := reads_append ht
  obtain ⟨-, htCriteria⟩ := reads_append ht
  have hscope : Scope.Related P.Columns ⟨front.1.columns, []⟩ ⟨front'.1.columns, []⟩ :=
    ⟨hjoined, .nil⟩
  have hscopeGrouped : Scope.Related P.Columns (groupedScope [] front) (groupedScope [] front') :=
    ⟨hjoined, .cons hgrouped .nil⟩
  have hscopeOrdered : Scope.Related P.Columns
      (orderScope [] (b.result [] front, (b.result [] front).columns))
      (orderScope [] (b'.result [] front', (b'.result [] front').columns)) :=
    ⟨hordered, .cons hjoined .nil⟩
  unfold inferAfterItems
  rw [hb.criteria, hb.group, hb.having]
  refine bind (Abreast.some setting b.criteria htCriteria hscope) fun _ _ _ => ?_
  refine bind (Abreast.all setting b.group htGroup hscopeGrouped) fun _ _ _ => ?_
  refine bind (Abreast.some setting b.having htHaving hscopeGrouped) fun _ _ _ => ?_
  refine bind (Abreast.orderBy setting order htOrder hscopeOrdered) fun _ _ _ => ?_
  refine bind (Abreast.limitTo setting limit htLimit hscope) fun _ _ _ => ?_
  exact pure ⟨rfl, rfl⟩

/-- Two rests fail alike, or what one gives stands for what the other gives. -/
theorem afterFrom_alike (P : Pasts) (hsees : ∀ name, T name → P.SeesAlike P.first P.second name)
    (ht : Reads T (restTables b order limit)) (hb : b.SameBehindFrom b')
    {joined joined' : Sources} (hjoined : joined.Abreast P joined')
    (hsources : b'.sources.isEmpty = b.sources.isEmpty)
    (hkey : b'.fixesKey joined' = b.fixesKey joined) (start start' : Nat) :
    Alike (Followed P start start')
      ((inferAfterFrom setting b order limit start joined).outcome P.first)
      ((inferAfterFrom setting b' order limit start' joined').outcome P.second) := by
  have htItems : Reads T (tablesOfItems b.items) := fun t hmem => ht t (by simp [restTables, hmem])
  have hscope : Scope.Related P.Columns ⟨joined.columns, []⟩ ⟨joined'.columns, []⟩ := ⟨hjoined, .nil⟩
  -- the placeholders of the FROM clauses are set aside
  have hitems : Abreast (P.setAside start start') T
      (List.Forall₂ (OutputColumn.Abreast (P.setAside start start')))
      (inferItems setting ⟨joined.columns, []⟩ b.items)
      (inferItems setting ⟨joined'.columns, []⟩ b'.items) := by
    rw [hb.items]
    exact .items setting b.items htItems hscope
  unfold inferAfterFrom
  rw [Analyze.outcome_bind, Analyze.outcome_bind,
    Analyze.outcome_of_runFrom (runFrom_cutPlaceholders start P.first),
    Analyze.outcome_of_runFrom (runFrom_cutPlaceholders start' P.second), ok_bind, ok_bind,
    Analyze.outcome_bind, Analyze.outcome_bind]
  refine (hitems _ _ (.start (P.setAside start start')) hsees).bind ?_
  rintro ⟨cs, s⟩ ⟨cs', s'⟩ hprojected
  -- and put back behind those of the projections
  let back : Pasts := hprojected.runs.onward (s.placeholders ++ P.first.placeholders.drop start)
    (s'.placeholders ++ P.second.placeholders.drop start')
  have hshown : List.Forall₂ (OutputColumn.Abreast (P.setAside start start'))
      (b.result [] (joined, cs)).columns (b'.result [] (joined', cs')).columns := by
    show List.Forall₂ _ (proveColumns _ b.criteria cs) (proveColumns _ b'.criteria cs')
    rw [hb.criteria]
    exact proveColumns_abreast (P := P.setAside start start') hscope b.criteria hprojected.values
  have hafter : Abreast back T _ (inferAfterItems setting b order limit (joined, cs))
      (inferAfterItems setting b' order limit (joined', cs')) :=
    .afterItems ht hb hjoined
      (levels_of_levelOf (P := P.setAside start start') "" hprojected.values)
      (levels_of_levelOf (P := P.setAside start start') "" hshown)
  have hseesBack : ∀ name, T name → back.SeesAlike back.first back.second name :=
    fun name hname => Abreast.seesAlike_of_ctes (P := P) (hsees name hname) hprojected.ctes
      hprojected.ctes'
  refine (hafter back.first back.second (.start back) hseesBack).mono ?_
  rintro ⟨q, t⟩ ⟨q', t'⟩ hlast
  obtain ⟨hq, hq'⟩ := hlast.values
  obtain rfl : q = _ := hq
  obtain rfl : q' = _ := hq'
  exact .of_projection hprojected hlast hshown
    (manyRows_abreast order limit hshown hb.group hsources hkey)

end Rest

end QuerySignature
