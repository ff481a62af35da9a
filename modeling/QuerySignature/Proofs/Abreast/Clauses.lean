import QuerySignature.Proofs.Abreast.Steps
import QuerySignature.Proofs.Comparison.Forms
import QuerySignature.Proofs.Walk.Clauses

namespace QuerySignature

/-! # Clauses of queries abreast

What the clauses of a query make of parts that stand for one another: the columns of tables and of
sources, stars, unions, and common tables.

- `Abreast.tableColumns`: the columns of a table that both runs see alike.
- `Abreast.keepingCtes`: a query may declare common tables of its own.
- `unionColumns_abreast`: branches go together, or do not, in both walks.
-/

section Results

variable {P : Pasts} {cs cs' : List OutputColumn}

/-! ## Columns of queries -/

/-- An output column as a query around it sees it, under whatever alias. -/
theorem OutputColumn.Abreast.asSource {c c' : OutputColumn} (h : c.Abreast P c')
    (table aliasName : String) :
    P.Columns { c.asSource table with aliasName } { c'.asSource table with aliasName } := by
  unfold OutputColumn.asSource
  rw [h.name, h.notNull]
  exact P.made table aliasName c.name .plain c.notNull h.var.asProjected

/-- Output columns as a common table. -/
theorem tables_of_levelOf (table : String) (h : List.Forall₂ (OutputColumn.Abreast P) cs cs') :
    P.Tables (levelOf table cs) (levelOf table cs') := by
  intro aliasName
  unfold levelOf
  rw [List.map_map, List.map_map]
  exact List.rel_map (fun _ _ hc => hc.asSource table aliasName) h

theorem levels_of_levelOf (table : String) (h : List.Forall₂ (OutputColumn.Abreast P) cs cs') :
    P.Levels (levelOf table cs) (levelOf table cs') :=
  List.rel_map (fun _ _ hc => hc.asSource table "") h

/-! ## Results -/

/-- FROM clauses that show columns that stand for one another. -/
def Sources.Abreast (P : Pasts) (s s' : Sources) : Prop := P.Levels s.columns s'.columns

/-- A branch, and the same one in the other walk. -/
structure BranchResult.Abreast (P : Pasts) (b b' : BranchResult) : Prop where
  columns : List.Forall₂ (OutputColumn.Abreast P) b.columns b'.columns
  visible : P.Levels b.visible b'.visible

/-- A query, and the same one in the other walk. -/
def QueryResult.Abreast (P : Pasts) (q q' : QueryResult) : Prop :=
  List.Forall₂ (OutputColumn.Abreast P) q.columns q'.columns

/-- Two clauses with one more source each. -/
theorem Sources.Abreast.add {s s' : Sources} (h : s.Abreast P s') (source source' : Source)
    {l l' : Level} (hl : P.Levels l l') : Sources.Abreast P (s.add source l) (s'.add source' l') :=
  List.rel_append h hl

theorem Sources.Abreast.join {s s' : Sources} (h : s.Abreast P s') (outer outer' : List Level)
    (previous previous' : String) (kind : JoinKind) (source source' : Source)
    (condition : JoinCondition) {l l' : Level} (hl : P.Levels l l') :
    Sources.Abreast P (s.join outer previous kind source condition l)
      (s'.join outer' previous' kind source' condition l') :=
  List.rel_append (Pairing.earlier h kind) (Pairing.joined (Pairing.added hl condition) kind)

/-- WHERE proves the same output columns not null. -/
theorem proveColumns_abreast {scope scope' : Scope} (hscope : scope.Related P.Columns scope')
    (criteria : Option Expr) (hcs : List.Forall₂ (OutputColumn.Abreast P) cs cs') :
    List.Forall₂ (OutputColumn.Abreast P) (proveColumns scope criteria cs)
      (proveColumns scope' criteria cs') := by
  refine List.rel_map (fun c c' hc => ?_) hcs
  refine ⟨hc.name, hc.var, hc.unionVars, ?_, hc.table, hc.source, hc.placeholder, hc.aggregate⟩
  have hsource := hc.source
  simp only [hc.notNull]
  generalize c.source = source, c'.source = source' at hsource
  cases criteria with
  | none => rfl
  | some criteria =>
    cases hsource with
    | none => rfl
    | some hsource => simp only [P.named.provesNotNull (hscope.resolve P.named) hsource]

theorem BranchResult.Abreast.of {clause clause' : Sources} {scope scope' : Scope}
    (hscope : scope.Related P.Columns scope') (sources sources' : List Source)
    (joins joins' : List Join) (criteria : Option Expr) (group group' : List Expr)
    (hcs : List.Forall₂ (OutputColumn.Abreast P) cs cs') :
    BranchResult.Abreast P (.of clause scope sources joins criteria group cs)
      (.of clause' scope' sources' joins' criteria group' cs') :=
  ⟨proveColumns_abreast hscope criteria hcs, hscope.columns⟩

theorem zipWith_union_abreast {ds ds' : List OutputColumn}
    (hcs : List.Forall₂ (OutputColumn.Abreast P) cs cs')
    (hds : List.Forall₂ (OutputColumn.Abreast P) ds ds') :
    List.Forall₂ (OutputColumn.Abreast P) (List.zipWith OutputColumn.union cs ds)
      (List.zipWith OutputColumn.union cs' ds') := by
  rw [OutputColumn.abreast_eq] at hcs hds ⊢
  exact zipWith_union_compared hcs hds

/-- Branches go together in both walks, or in neither. -/
theorem unionColumns_abreast {bs bs' : List BranchResult}
    (hcs : List.Forall₂ (OutputColumn.Abreast P) cs cs')
    (hbs : List.Forall₂ (BranchResult.Abreast P) bs bs') :
    Alike (List.Forall₂ (OutputColumn.Abreast P)) (unionColumns cs bs) (unionColumns cs' bs') := by
  induction hbs generalizing cs cs' with
  | nil => exact hcs
  | @cons b b' _ _ hb _ ih =>
    unfold unionColumns
    rw [← hcs.length_eq, ← hb.columns.length_eq]
    by_cases hlength : b.columns.length = cs.length
    · rw [if_pos hlength, if_pos hlength]
      exact ih (zipWith_union_abreast hcs hb.columns)
    · rw [if_neg hlength, if_neg hlength]
      exact rfl

end Results

/-! ## Common tables -/

/-- Both runs declare common tables that stand for one another under one name. -/
theorem Pasts.SeesAlike.declare {P : Pasts} {r r' : Run} {name : String} {l l' : Level}
    (hl : P.Tables l l') {other : String}
    (h : sameName name other = false → P.SeesAlike r r' other) :
    P.SeesAlike { r with ctes := (name, l) :: r.ctes } { r' with ctes := (name, l') :: r'.ctes }
      other := by
  unfold Pasts.SeesAlike at h ⊢
  rw [Run.cte?_declare, Run.cte?_declare]
  cases hname : sameName name other with
  | true => exact .some hl
  | false => exact h hname

namespace Abreast

variable {α β : Type} {P : Pasts} {T : String → Prop} {R : α → β → Prop}

theorem freshColumns (aliasName : String) (records : List ColumnRecord) :
    Abreast P T P.Levels (QuerySignature.freshColumns aliasName records)
      (QuerySignature.freshColumns aliasName records) := by
  induction records with
  | nil => exact pure .nil
  | cons record rest ih =>
    refine bind (fresh _ (.exact _)) fun v v' hv => ?_
    exact bind ih fun l l' hl => pure (.cons (P.made _ _ _ _ _ hv) hl)

/-- The columns of a table, when both runs see alike what goes by its name. -/
theorem tableColumns (schema : Schema) (name : String) (aliasName : Option String)
    (hname : T (lastSegment name)) :
    Abreast P T P.Levels (QuerySignature.tableColumns schema name aliasName)
      (QuerySignature.tableColumns schema name aliasName) := by
  intro r r' hr hsees
  have hcte : Option.Rel P.Tables (r.cte? (lastSegment name)) (r'.cte? (lastSegment name)) :=
    hsees _ hname
  unfold QuerySignature.tableColumns
  rw [Analyze.outcome_bind, Analyze.outcome_bind]
  -- what the runs know by the name decides for both walks whether the schema is asked
  have hget : ∀ run : Run, (MonadState.get : Analyze Run).outcome run = .ok (run, run) :=
    fun _ => rfl
  rw [hget, hget, ok_bind, ok_bind]
  generalize r.cte? (lastSegment name) = found, r'.cte? (lastSegment name) = found' at hcte
  cases hcte with
  | some hl => exact pure (hl (aliasName.getD "")) r r' hr hsees
  | none =>
    dsimp only
    cases schema.columnsOf? (lastSegment name) with
    | none => exact throw _ r r' hr hsees
    | some records => exact freshColumns _ records r r' hr hsees

/-! ## Forms -/

theorem column {s s' : Scope} (hs : s.Related P.Columns s') (c : ColumnRef) :
    Abreast P T (Inferred.Compared P.likeness) (inferColumn s c) (inferColumn s' c) := by
  refine bind (resolve hs c) fun d d' hd => ?_
  exact bind ((comparison P T).reference hd) fun v v' hv => pure (.ofColumn hv hd)

theorem firstColumn (text : String) {q q' : QueryResult} (hq : q.Abreast P q') :
    Abreast P T (OutputColumn.Compared P.likeness) (QuerySignature.firstColumn text q)
      (QuerySignature.firstColumn text q') :=
  (comparison P T).firstColumn rfl (OutputColumn.abreast_eq P ▸ hq)

theorem star {l l' : Level} (hl : P.Levels l l') :
    Abreast P T (List.Forall₂ (OutputColumn.Abreast P)) (inferStar l) (inferStar l') := by
  rw [OutputColumn.abreast_eq]
  exact (comparison P T).star hl

/-- What goes abreast but for the common tables that it declares, goes abreast when it forgets them. -/
theorem keepingCtes {step : Analyze α} {step' : Analyze β}
    (h : ∀ r r', r.Abreast P r' → (∀ name, T name → P.SeesAlike r r' name) →
      Alike (fun p p' => R p.1 p'.1 ∧ p.2.Abreast P p'.2 ∧ r.issued ≤ p.2.issued)
        (step.outcome r) (step'.outcome r')) :
    Abreast P T R (QuerySignature.keepingCtes step) (QuerySignature.keepingCtes step') := by
  intro r r' hr hsees
  rw [Parallel.outcome_keepingCtes, Parallel.outcome_keepingCtes]
  refine (h r r' hr hsees).bind fun p p' ⟨hvalues, hruns, hgrows⟩ => ?_
  exact ⟨hvalues, hruns.withCtes _ _, hgrows, rfl, rfl⟩

end Abreast

end QuerySignature
