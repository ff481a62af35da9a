import QuerySignature.Proofs.Walk.Forms

namespace QuerySignature

/-! # Clauses of queries side by side

What the clauses of a query make of matching parts: the columns of tables and of sources, stars,
unions, and common tables.

- `Parallel.tableColumns`: a table has matching columns wherever both runs see it alike.
- `Parallel.keepingCtes`: a query may declare common tables of its own.
-/

section Matching

variable {ρ : Renaming} {made : List TypeInfo}

/-- A FROM clause and its counterpart. -/
structure Sources.Matches (ρ : Renaming) (made : List TypeInfo) (s s' : Sources) : Prop where
  issued : s.columns.Issued made
  columns : s'.columns = ρ.level s.columns

/-- A branch and its counterpart. -/
structure BranchResult.Matches (ρ : Renaming) (made : List TypeInfo) (b b' : BranchResult) :
    Prop where
  columns : List.Forall₂ (OutputColumn.Matches ρ made) b.columns b'.columns
  issued : b.visible.Issued made
  visible : b'.visible = ρ.level b.visible

/-- A query and its counterpart. -/
def QueryResult.Matches (ρ : Renaming) (made : List TypeInfo) (q q' : QueryResult) : Prop :=
  List.Forall₂ (OutputColumn.Matches ρ made) q.columns q'.columns

theorem Sources.Matches.mono {made' : List TypeInfo} {s s' : Sources} (h : s.Matches ρ made s')
    (hgrows : made <+: made') : s.Matches ρ made' s' :=
  ⟨h.issued.mono hgrows, h.columns⟩

theorem BranchResult.Matches.mono {made' : List TypeInfo} {b b' : BranchResult}
    (h : b.Matches ρ made b') (hgrows : made <+: made') : b.Matches ρ made' b' :=
  ⟨h.columns.imp fun _ _ hc => hc.mono hgrows, h.issued.mono hgrows, h.visible⟩

/-- An expression as an output column. -/
theorem OutputColumn.Matches.ofInferred (name : String) {e e' : Inferred}
    (h : e.Matches ρ made e') :
    OutputColumn.Matches ρ made (.ofInferred name e) (.ofInferred name e') := by
  refine ⟨rfl, h.var, .nil, h.notNull, ?_, h.sourceIssued, h.source⟩
  unfold OutputColumn.ofInferred Inferred.table
  rw [h.source]
  cases e.source <;> rfl

theorem levelOf_matches (table : String) {cs cs' : List OutputColumn}
    (h : List.Forall₂ (OutputColumn.Matches ρ made) cs cs') :
    Level.Issued made (levelOf table cs) ∧ levelOf table cs' = ρ.level (levelOf table cs) := by
  induction h with
  | nil => exact ⟨fun _ hc => absurd hc List.not_mem_nil, rfl⟩
  | @cons c c' _ _ hhead _ ih =>
    rcases ih with ⟨hissued, heq⟩
    refine ⟨?_, ?_⟩
    · intro d hd
      rcases List.mem_cons.1 hd with rfl | hd
      · exact hhead.var.issued
      · exact hissued d hd
    · have hcolumn : c'.asSource table = ρ.column (c.asSource table) := by
        unfold OutputColumn.asSource Renaming.column
        rw [hhead.name, hhead.notNull, hhead.var.eq]
        rfl
      show c'.asSource table :: levelOf table _ = _
      rw [hcolumn, heq]
      rfl

/-! ## FROM clauses -/

theorem level_nullable (l : Level) :
    (ρ.level l).map SourceColumn.nullable = ρ.level (l.map SourceColumn.nullable) := by
  simp [Renaming.level, Function.comp_def, Renaming.column, SourceColumn.nullable]

theorem Level.Issued.nullable {l : Level} (h : l.Issued made) :
    Level.Issued made (l.map SourceColumn.nullable) := by
  intro c hc
  rcases List.mem_map.1 hc with ⟨d, hd, rfl⟩
  exact h d hd

theorem Level.Issued.filter {l : Level} (h : l.Issued made) (p : SourceColumn → Bool) :
    Level.Issued made (l.filter p) :=
  fun c hc => h c (List.mem_of_mem_filter hc)

theorem Sources.Matches.add {s s' : Sources} (h : s.Matches ρ made s') (source : Source) {l : Level}
    (hl : l.Issued made) : Sources.Matches ρ made (s.add source l) (s'.add source (ρ.level l)) := by
  refine ⟨h.issued.append hl, ?_⟩
  unfold Sources.add
  simp only [h.columns, Renaming.level_append]

theorem Sources.Matches.join {s s' : Sources} (h : s.Matches ρ made s') (outer outer' : List Level)
    (previous : String) (kind : JoinKind) (source : Source) (condition : JoinCondition) {l : Level}
    (hl : l.Issued made) :
    Sources.Matches ρ made (s.join outer previous kind source condition l)
      (s'.join outer' previous kind source condition (ρ.level l)) := by
  have hadded : Level.Issued made (condition.added l) ∧
      condition.added (ρ.level l) = ρ.level (condition.added l) := by
    cases condition with
    | predicate e => exact ⟨hl, rfl⟩
    | shared names => exact ⟨hl.filter _, ρ.level_filter _ _ fun _ => rfl⟩
    | unconditional => exact ⟨hl, rfl⟩
  have hearlier : Level.Issued made (kind.earlier s.columns) ∧
      kind.earlier (ρ.level s.columns) = ρ.level (kind.earlier s.columns) := by
    cases kind with
    | right | full => exact ⟨h.issued.nullable, level_nullable _⟩
    | inner | left | cross => exact ⟨h.issued, rfl⟩
  have hjoined : Level.Issued made (kind.joined (condition.added l)) ∧
      kind.joined (ρ.level (condition.added l)) = ρ.level (kind.joined (condition.added l)) := by
    cases kind with
    | left | full => exact ⟨hadded.1.nullable, level_nullable _⟩
    | inner | right | cross => exact ⟨hadded.1, rfl⟩
  refine ⟨hearlier.1.append hjoined.1, ?_⟩
  unfold Sources.join
  simp only [h.columns, hadded.2, hearlier.2, hjoined.2, Renaming.level_append]

/-! ## Results -/

theorem BranchResult.Matches.of {clause clause' : Sources} {scope scope' : Scope}
    (hscope : Scope.Matches ρ made scope scope') (sources : List Source) (joins : List Join)
    (criteria : Option Expr) (group group' : List Expr) {cs cs' : List OutputColumn}
    (hcs : List.Forall₂ (OutputColumn.Matches ρ made) cs cs') :
    BranchResult.Matches ρ made (.of clause scope sources joins criteria group cs)
      (.of clause' scope' sources joins criteria group' cs') := by
  refine ⟨?_, hscope.issued, hscope.columns⟩
  show List.Forall₂ _ (proveColumns scope criteria cs) (proveColumns scope' criteria cs')
  unfold proveColumns
  rw [List.forall₂_map_left_iff, List.forall₂_map_right_iff]
  refine hcs.imp fun c c' hc => ?_
  refine ⟨hc.name, hc.var, hc.unionVars, ?_, hc.table, hc.sourceIssued, hc.source⟩
  simp only [hc.notNull, hc.source]
  cases criteria with
  | none => rfl
  | some criteria =>
    cases c.source with
    | none => rfl
    | some source => simp [hscope.provesNotNull]

theorem unionColumns_alike {cs cs' : List OutputColumn} {bs bs' : List BranchResult}
    (hcs : List.Forall₂ (OutputColumn.Matches ρ made) cs cs')
    (hbs : List.Forall₂ (BranchResult.Matches ρ made) bs bs') :
    Alike (List.Forall₂ (OutputColumn.Matches ρ made)) (unionColumns cs bs)
      (unionColumns cs' bs') := by
  induction hbs generalizing cs cs' with
  | nil => exact hcs
  | @cons b b' _ _ hb _ ih =>
    unfold unionColumns
    rw [← hcs.length_eq, ← hb.columns.length_eq]
    by_cases hlength : b.columns.length = cs.length
    · rw [if_pos hlength, if_pos hlength]
      refine ih ?_
      have hunion : ∀ {xs xs' ys ys' : List OutputColumn},
          List.Forall₂ (OutputColumn.Matches ρ made) xs xs' →
          List.Forall₂ (OutputColumn.Matches ρ made) ys ys' →
          List.Forall₂ (OutputColumn.Matches ρ made) (List.zipWith OutputColumn.union xs ys)
            (List.zipWith OutputColumn.union xs' ys') := by
        intro xs xs' ys ys' hxs hys
        induction hxs generalizing ys ys' with
        | nil => exact .nil
        | cons hx _ ihx =>
          cases hys with
          | nil => exact .nil
          | cons hy hys =>
            refine .cons ⟨hx.name, hx.var, ?_, ?_, hx.table, hx.sourceIssued, hx.source⟩ (ihx hys)
            · exact List.rel_append hx.unionVars (.cons hy.var .nil)
            · simp [OutputColumn.union, hx.notNull, hy.notNull]
      exact hunion hcs hb.columns
    · rw [if_neg hlength, if_neg hlength]
      exact rfl

end Matching

/-! ## Common tables -/

theorem Run.cte?_congr {r s : Run} (h : r.ctes = s.ctes) (name : String) : r.cte? name = s.cte? name := by
  unfold Run.cte?
  rw [h]

theorem Run.cte?_of_nil {r : Run} (h : r.ctes = []) (name : String) : r.cte? name = none := by
  unfold Run.cte?
  rw [h]
  rfl

theorem Run.cte?_declare (run : Run) (name other : String) (l : Level) :
    Run.cte? { run with ctes := (name, l) :: run.ctes } other =
      if sameName name other then some l else run.cte? other := by
  unfold Run.cte?
  by_cases h : sameName name other = true
  · simp [h]
  · simp [h]

/-- Both runs declare counterparts under one name. -/
theorem Run.SeesAlike.declare {ρ : Renaming} {made : List TypeInfo} {r r' : Run} {name : String}
    {l : Level} (hl : l.Issued made) {other : String}
    (h : sameName name other = false → r.SeesAlike ρ made r' other) :
    Run.SeesAlike ρ made { r with ctes := (name, l) :: r.ctes }
      { r' with ctes := (name, ρ.level l) :: r'.ctes } other := by
  unfold Run.SeesAlike at h ⊢
  rw [Run.cte?_declare, Run.cte?_declare]
  cases hname : sameName name other with
  | true => exact .some ⟨hl, rfl⟩
  | false => exact h hname

namespace Parallel

variable {α β : Type} {F : Frame} {T : String → Prop} {made : List TypeInfo}
  {R : List TypeInfo → α → β → Prop}

theorem freshColumns (aliasName : String) (records : List ColumnRecord) :
    Parallel F T made (fun made l l' => Level.Issued made l ∧ l' = F.ρ.level l)
      (QuerySignature.freshColumns aliasName records)
      (QuerySignature.freshColumns aliasName records) := by
  induction records generalizing made with
  | nil => exact pure ⟨fun _ hc => absurd hc List.not_mem_nil, rfl⟩
  | cons record rest ih =>
    refine bind (freshExact _ _) fun made₁ _ v v' hv => ?_
    refine bind ih fun made₂ hgrows l l' ⟨hl, hl'⟩ => ?_
    refine pure ⟨?_, ?_⟩
    · intro c hc
      rcases List.mem_cons.1 hc with rfl | hc
      · exact hv.issued.mono hgrows
      · exact hl c hc
    · rw [hl', hv.eq]
      rfl

/-- The columns of a table, when both runs see alike what goes by its name. -/
theorem tableColumns (schema : Schema) (name : String) (aliasName : Option String)
    (hname : T (lastSegment name)) :
    Parallel F T made (fun made l l' => Level.Issued made l ∧ l' = F.ρ.level l)
      (QuerySignature.tableColumns schema name aliasName)
      (QuerySignature.tableColumns schema name aliasName) := by
  intro r r' hr hsees
  have hcte := hsees _ hname
  unfold QuerySignature.tableColumns
  rw [Analyze.outcome_bind, Analyze.outcome_bind]
  have hget : ∀ run : Run, (MonadState.get : Analyze Run).outcome run = .ok (run, run) :=
    fun _ => rfl
  rw [hget, hget, ok_bind, ok_bind]
  unfold Run.SeesAlike at hcte
  revert hcte
  cases r.cte? (lastSegment name) <;> cases r'.cte? (lastSegment name) <;> intro hcte
  · cases schema.columnsOf? (lastSegment name) with
    | none => exact rfl
    | some records => exact freshColumns _ records r r' hr hsees
  · nomatch hcte
  · nomatch hcte
  · cases hcte with
    | some hl =>
      rcases hl with ⟨hissued, rfl⟩
      refine ⟨made, ⟨List.prefix_rfl, hr, rfl, rfl⟩, ?_, ?_⟩
      · intro c hc
        rcases List.mem_map.1 hc with ⟨d, hd, rfl⟩
        exact hissued d hd
      · simp [Renaming.level, Renaming.column, Function.comp_def]

theorem starColumn {c : SourceColumn} (hc : c.var.Issued made) :
    Parallel F T made (OutputColumn.Matches F.ρ) (inferStarColumn c)
      (inferStarColumn (F.ρ.column c)) := by
  refine bind (reference hc) fun made₁ hgrows v v' hv => ?_
  refine pure (.ofInferred c.name ⟨hv, rfl, rfl, ?_, rfl⟩)
  rintro _ ⟨⟩
  exact hc.mono hgrows

theorem star {l : Level} (hl : l.Issued made) :
    Parallel F T made (fun made => List.Forall₂ (OutputColumn.Matches F.ρ made)) (inferStar l)
      (inferStar (F.ρ.level l)) := by
  induction l generalizing made with
  | nil => exact pure .nil
  | cons c rest ih =>
    refine bind (starColumn (hl c List.mem_cons_self)) fun made₁ hgrows₁ o o' ho => ?_
    refine bind (ih fun d hd => (hl d (List.mem_cons_of_mem _ hd)).mono hgrows₁)
      fun made₂ hgrows₂ os os' hos => ?_
    exact pure (.cons (ho.mono hgrows₂) hos)

theorem outcome_keepingCtes (step : Analyze α) (run : Run) :
    (QuerySignature.keepingCtes step).outcome run =
      (step.outcome run).map fun p => (p.1, { p.2 with ctes := run.ctes }) := by
  have hstep : (QuerySignature.keepingCtes step).runFrom run =
      ((step.runFrom run).1, { (step.runFrom run).2 with ctes := run.ctes }) := rfl
  unfold Analyze.outcome
  rw [hstep]
  rcases step.runFrom run with ⟨_ | value, after⟩
  · rfl
  · rfl

/-- What goes side by side but for the common tables that it declares, goes side by side when it
forgets them. -/
theorem keepingCtes {step : Analyze α} {step' : Analyze β}
    (h : ∀ r r', r.Matches F made r' → (∀ name, T name → r.SeesAlike F.ρ made r' name) →
      Alike (fun p p' => ∃ made', made <+: made' ∧ Run.Matches F made' p.2 p'.2 ∧ R made' p.1 p'.1)
        (step.outcome r) (step'.outcome r')) :
    Parallel F T made R (QuerySignature.keepingCtes step) (QuerySignature.keepingCtes step') := by
  intro r r' hr hsees
  rw [outcome_keepingCtes, outcome_keepingCtes]
  refine (h r r' hr hsees).bind ?_
  rintro p p' ⟨made', hgrows, hruns, hp⟩
  refine ⟨made', ⟨hgrows, ?_, rfl, rfl⟩, hp⟩
  exact ⟨hruns.issued, hruns.kept, hruns.ahead, hruns.constraints, hruns.placeholders⟩

end Parallel

end QuerySignature
