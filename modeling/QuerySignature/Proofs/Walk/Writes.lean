import QuerySignature.Description.Describe
import QuerySignature.Proofs.Sources.Declared
import QuerySignature.Proofs.Walk.Sound

namespace QuerySignature

/-! # Statements leave sound runs

A query leads from a sound run to a sound run; so does a statement that writes, which analyses its
values, makes variables for the columns they go to, and ties these to each other.

- `Soundly.bind`: steps in a row.
- `Soundly.of_parallel`: what goes side by side with itself leads from sound runs to sound runs.
- `Run.Sound.statement`: the walk over a statement ends in a sound run.
-/

/-- A step that leads from sound runs to sound runs; of what it gives, something holds by the types of
the variables that have been made. -/
def Soundly {α : Type} (made : List TypeInfo) (P : List TypeInfo → α → Prop) (step : Analyze α) :
    Prop :=
  ∀ r a s, r.Sound made → step.outcome r = .ok (a, s) →
    ∃ made', made <+: made' ∧ s.Sound made' ∧ P made' a

/-- A constraint between variables that have been made matches itself. -/
theorem Constraint.Matches.beside {made : List TypeInfo} {c : Constraint}
    (h : ∀ pair ∈ c.equations, pair.1.Issued made ∧ pair.2.Issued made) :
    c.Matches .none made c := by
  refine ⟨rfl, rfl, rfl, List.forall₂_same.2 fun pair hpair => ?_⟩
  obtain ⟨hleft, hright⟩ := h pair hpair
  exact ⟨⟨hleft, (Renaming.none_var _).symm⟩, ⟨hright, (Renaming.none_var _).symm⟩⟩

/-- The variables of the columns that a query gives have been made. -/
def QueryResult.Issued (made : List TypeInfo) (result : QueryResult) : Prop :=
  ∀ c ∈ result.columns, ∀ v ∈ c.var :: c.unionVars, v.Issued made

theorem QueryResult.Matches.issued {made : List TypeInfo} {result : QueryResult}
    (h : result.Matches .none made result) : result.Issued made := by
  intro c hc v hv
  have hcolumn := List.forall₂_same.1 h c hc
  rcases List.mem_cons.1 hv with rfl | hv
  · exact hcolumn.var.issued
  · exact (List.forall₂_same.1 hcolumn.unionVars v hv).issued

namespace Soundly

variable {α β : Type} {made : List TypeInfo} {P : List TypeInfo → α → Prop}
  {Q : List TypeInfo → β → Prop} {step : Analyze α} {next : α → Analyze β} {setting : Setting}

theorem pure {a : α} (h : P made a) : Soundly made P (Pure.pure a) := by
  intro r _ s hr hrun
  cases hrun
  exact ⟨made, List.prefix_rfl, hr, h⟩

theorem throw_bind (e : AnalysisError) :
    Soundly made Q ((MonadExcept.throw e : Analyze α) >>= next) := by
  intro r _ s _ hrun
  cases hrun

theorem bind (h : Soundly made P step)
    (hnext : ∀ made', made <+: made' → ∀ a, P made' a → Soundly made' Q (next a)) :
    Soundly made Q (step >>= next) := by
  intro r b t hr hrun
  rw [Analyze.outcome_bind] at hrun
  rcases bind_eq_ok.1 hrun with ⟨⟨a, s⟩, hfirst, hsecond⟩
  obtain ⟨made₁, hgrows₁, hs, ha⟩ := h r a s hr hfirst
  obtain ⟨made₂, hgrows₂, ht, hb⟩ := hnext made₁ hgrows₁ a ha s b t hs hsecond
  exact ⟨made₂, hgrows₁.trans hgrows₂, ht, hb⟩

/-- Behind a step of which nothing more is asked. -/
theorem after (h : Soundly made P step)
    (hnext : ∀ made', made <+: made' → ∀ a, Soundly made' Q (next a)) :
    Soundly made Q (step >>= next) :=
  h.bind fun made' hgrows a _ => hnext made' hgrows a

theorem mono {P' : List TypeInfo → α → Prop} (h : Soundly made P step)
    (hP : ∀ made' a, P made' a → P' made' a) : Soundly made P' step := by
  intro r a s hr hrun
  obtain ⟨made', hgrows, hs, ha⟩ := h r a s hr hrun
  exact ⟨made', hgrows, hs, hP made' a ha⟩

theorem of_parallel {R : List TypeInfo → α → α → Prop}
    (h : ∀ base, Parallel ⟨.none, base, base⟩ (fun _ => True) made R step step) :
    Soundly made (fun made a => R made a a) step := by
  intro r a s hr hrun
  obtain ⟨made', hgrows, hs, -, -, hR⟩ := hr.advance (h r.constraints) hrun
  exact ⟨made', hgrows, hs, hR⟩

/-! ## Steps -/

theorem demand {c : Constraint} (h : ∀ pair ∈ c.equations, pair.1.Issued made ∧ pair.2.Issued made) :
    Soundly made (fun _ _ => True) (QuerySignature.demand c) :=
  of_parallel (R := Parallel.Done) fun _ => Parallel.demand (.beside h)

theorem matchNull (place : Option Nat) (column : SourceColumn) :
    Soundly made (fun _ _ => True) (QuerySignature.matchNull place column) := by
  unfold QuerySignature.matchNull
  split
  · exact of_parallel (R := Parallel.Done) fun _ => Parallel.setNotNull _ _ _ _
  · exact pure trivial

theorem reference {c : SourceColumn} (hc : c.var.Issued made) :
    Soundly made (fun made v => v.Issued made) (QuerySignature.reference c) := by
  refine (of_parallel (R := TypeVar.Matches .none) fun base => ?_).mono fun _ _ hv => hv.issued
  have hboth := Parallel.reference (F := ⟨.none, base, base⟩) (T := fun _ => True) hc
  rwa [Renaming.none_column] at hboth

theorem tableColumns (schema : Schema) (name : String) :
    Soundly made Level.Issued (QuerySignature.tableColumns schema name none) :=
  (of_parallel (R := fun made l l' => Level.Issued made l ∧ l' = Renaming.none.level l) fun _ =>
    Parallel.tableColumns schema name none trivial).mono fun _ _ hl => hl.1

variable {scope : Scope}

theorem resolve (hs : scope.Matches .none made scope) (c : ColumnRef) :
    Soundly made (fun made d => d.var.Issued made) (QuerySignature.resolve scope c) :=
  (of_parallel (R := fun made d d' => d.var.Issued made ∧ d' = Renaming.none.column d) fun _ =>
    Parallel.resolve hs c).mono fun _ _ hd => hd.1

theorem expr (e : Expr) (hs : scope.Matches .none made scope) :
    Soundly made (fun made a => a.var.Issued made) (inferExpr setting scope e) :=
  (of_parallel (R := Inferred.Matches .none) fun _ =>
    Parallel.expr setting e (Parallel.reads_all _) hs).mono fun _ _ ha => ha.var.issued

theorem all (es : List Expr) (hs : scope.Matches .none made scope) :
    Soundly made (fun made as => ∀ a ∈ as, a.var.Issued made) (inferAll setting scope es) :=
  (of_parallel (R := fun made => List.Forall₂ (Inferred.Matches .none made)) fun _ =>
    Parallel.all setting es (Parallel.reads_all _) hs).mono fun _ _ has a ha =>
      (List.forall₂_same.1 has a ha).var.issued

theorem option (o : Option Expr) (hs : scope.Matches .none made scope) :
    Soundly made (fun _ _ => True) (inferSome setting scope o) :=
  (of_parallel (R := fun made => Option.Rel (Inferred.Matches .none made)) fun _ =>
    Parallel.some setting o (Parallel.reads_all _) hs).mono fun _ _ _ => trivial

theorem query (q : Select) :
    Soundly made (fun made result => result.Issued made) (inferQuery setting [] q) :=
  (of_parallel (R := QueryResult.Matches .none) fun _ =>
    Parallel.query setting q (Parallel.reads_all _) (.beside nothing_outer)).mono
      fun _ _ hresult => hresult.issued

theorem nothing_scope : Scope.Matches .none made .empty .empty :=
  .beside (fun _ hc => absurd hc List.not_mem_nil) nothing_outer

/-! ## Writing -/

theorem bindTargets {targets : Level} (ht : targets.Issued made) (values : List Written) :
    Soundly made (fun made vars => ∀ v ∈ vars, v.Issued made)
      (QuerySignature.bindTargets targets values) := by
  induction targets generalizing made values with
  | nil => exact pure fun v hv => absurd hv List.not_mem_nil
  | cons target targets ih =>
    cases values with
    | nil => exact pure fun v hv => absurd hv List.not_mem_nil
    | cons value values =>
      refine (reference (ht target List.mem_cons_self)).bind fun made₁ hgrows₁ v hv => ?_
      refine (matchNull _ _).after fun made₂ hgrows₂ _ => ?_
      have hrest : Level.Issued made₂ targets := fun c hc =>
        ((ht c (List.mem_cons_of_mem _ hc)).mono hgrows₁).mono hgrows₂
      refine (ih hrest values).bind fun made₃ hgrows₃ vars hvars => pure ?_
      exact List.forall_mem_cons.2 ⟨(hv.mono hgrows₂).mono hgrows₃, hvars⟩

theorem bindRow (label : String) {targets : Level} (ht : targets.Issued made)
    {values : List Written} (hvalues : ∀ v ∈ values, v.var.Issued made) :
    Soundly made (fun _ _ => True) (QuerySignature.bindRow label targets values) := by
  refine (bindTargets ht values).bind fun made₁ hgrows vars hvars => demand fun pair hpair => ?_
  have hpair : pair ∈ (TypeTerm.ofVars vars).equations (.ofVars (values.map (·.var))) := hpair
  rw [TypeTerm.equations_ofVars_ofVars] at hpair
  obtain ⟨hleft, hright⟩ := List.of_mem_zip hpair
  obtain ⟨value, hvalue, heq⟩ := List.mem_map.1 hright
  exact ⟨hvars _ hleft, heq ▸ (hvalues value hvalue).mono hgrows⟩

theorem rows (rows : List (List Expr)) {targets : Level} (ht : targets.Issued made) :
    Soundly made (fun _ _ => True) (inferRows setting targets rows) := by
  induction rows generalizing made with
  | nil => exact pure trivial
  | cons row rest ih =>
    unfold inferRows
    split
    · exact throw_bind _
    · refine (all row nothing_scope).bind fun made₁ hgrows₁ as has => ?_
      have hvalues : ∀ v ∈ as.map fun a => (⟨a.var, a.placeholder⟩ : Written),
          v.var.Issued made₁ := by
        intro v hv
        obtain ⟨a, ha, rfl⟩ := List.mem_map.1 hv
        exact has a ha
      refine (bindRow _ (ht.mono hgrows₁) hvalues).after fun made₂ hgrows₂ _ => ?_
      exact ih ((ht.mono hgrows₁).mono hgrows₂)

theorem assignments (as : List Assignment) (hs : scope.Matches .none made scope) :
    Soundly made (fun _ _ => True) (inferAssignments setting scope as) := by
  induction as generalizing made with
  | nil => exact pure trivial
  | cons a rest ih =>
    refine (resolve hs _).bind fun made₁ hgrows₁ target htarget => ?_
    refine (expr a.value (hs.mono hgrows₁)).bind fun made₂ hgrows₂ value hvalue => ?_
    refine (reference (htarget.mono hgrows₂)).bind fun made₃ hgrows₃ v hv => ?_
    refine (demand fun pair hpair => ?_).after fun made₄ hgrows₄ _ => ?_
    · rw [List.mem_singleton.1 hpair]
      exact ⟨hv, hvalue.mono hgrows₃⟩
    · refine (matchNull _ _).after fun made₅ hgrows₅ _ => ih ?_
      exact ((((hs.mono hgrows₁).mono hgrows₂).mono hgrows₃).mono hgrows₄).mono hgrows₅

/-- The columns that an INSERT writes are columns of its table. -/
theorem targets {all : Level} (h : all.Issued made) (names : List String) :
    Soundly made Level.Issued (lift (targetColumns all names)) := by
  cases htargets : targetColumns all names with
  | error e =>
    intro r _ _ _ hrun
    cases hrun
  | ok targets => exact pure fun c hc => h c (mem_of_targetColumns htargets c hc)

theorem insert (table : String) (columns : List String) (values : InsertRows) :
    Soundly made (fun _ _ => True) (inferInsert setting table columns values) := by
  refine (tableColumns setting.schema table).bind fun made₁ _ all hall => ?_
  refine (targets hall columns).bind fun made₂ _ found hfound => ?_
  cases values with
  | values rows => exact Soundly.rows rows hfound
  | query q =>
    refine (query q).bind fun made₃ hgrows result hresult => ?_
    split
    · exact throw_bind _
    · refine bindRow _ (hfound.mono hgrows) fun v hv => ?_
      obtain ⟨c, hc, rfl⟩ := List.mem_map.1 hv
      exact hresult c hc c.var List.mem_cons_self

theorem update (table : String) (as : List Assignment) (criteria : Option Expr) :
    Soundly made (fun _ _ => True) (inferUpdate setting table as criteria) := by
  refine (tableColumns setting.schema table).bind fun made₁ _ columns hcolumns => ?_
  have hs : Scope.Matches .none made₁ ⟨columns, []⟩ ⟨columns, []⟩ := .beside hcolumns nothing_outer
  refine (assignments as hs).after fun made₂ hgrows₂ _ => ?_
  refine (of_parallel fun _ => Parallel.get).after fun made₃ hgrows₃ _ => ?_
  exact (option criteria ((hs.mono hgrows₂).mono hgrows₃)).after fun _ _ _ => pure trivial

theorem delete (table : String) (criteria : Option Expr) :
    Soundly made (fun _ _ => True) (inferDelete setting table criteria) := by
  refine (tableColumns setting.schema table).bind fun made₁ _ columns hcolumns => ?_
  exact (option criteria (.beside hcolumns nothing_outer)).after fun _ _ _ => pure trivial

end Soundly

/-- The walk over a statement ends in a sound run, which has made the variables of its columns. -/
theorem Run.Sound.statement {setting : Setting} {s : Statement} {analysis : Analysis} {run : Run}
    (h : (inferStatement setting s).outcome .start = .ok (analysis, run)) :
    ∃ made, run.Sound made ∧ analysis.query.Issued made := by
  have hnone : ∀ (made : List TypeInfo) (written : Nat), (Analysis.ofWrite written).query.Issued made :=
    fun _ _ _ hc => absurd hc List.not_mem_nil
  have hsoundly : Soundly [] (fun made analysis => analysis.query.Issued made)
      (inferStatement setting s) := by
    cases s with
    | select q => exact (Soundly.query q).bind fun _ _ _ hresult => .pure hresult
    | insert table columns rows =>
      exact (Soundly.insert table columns rows).after fun _ _ _ => .pure (hnone _ 0)
    | update table as criteria =>
      exact (Soundly.update table as criteria).after fun _ _ written => .pure (hnone _ written)
    | delete table criteria =>
      exact (Soundly.delete table criteria).after fun _ _ _ => .pure (hnone _ 0)
  obtain ⟨made, -, hsound, hissued⟩ := hsoundly .start analysis run Run.Sound.start h
  exact ⟨made, hsound, hissued⟩

end QuerySignature
