import QuerySignature.Proofs.Spelling.Clauses
import QuerySignature.Proofs.Walk.Clauses

namespace QuerySignature

/-! # Steps by their plain forms

Two walks go in step over a statement and over its plain form. They make the same variables at the same
time, demand the same of them for texts that may differ, collect the same placeholders, and know the
same common tables under names of one plain form. Where one is refused, so is the other, for a reason of
the same kind.

- `Spelling.InStep.bind`: steps in a row.
- `Spelling.comparison`: the steps of which the forms of expressions are made.
- `Spelling.InStep.tableColumns`: the columns of a table, by a name or by its plain form.
- `Spelling.InStep.of_kept`: walks that keep all parentheses are walks in step.
-/

/-- A placeholder, under variables that differ in their labels only. -/
structure Placeholder.Relabelled (p p' : Placeholder) : Prop where
  var : p.var.Relabelled p'.var
  name : p'.name = p.name
  notNull : p'.notNull = p.notNull

/-- Runs that two walks have come to in step. -/
structure Run.Respelled (s : Spelling) (r r' : Run) : Prop where
  issued : r'.issued = r.issued
  constraints : List.Forall₂ (Constraint.Compared s.likeness) r.constraints r'.constraints
  placeholders : List.Forall₂ Placeholder.Relabelled r.placeholders r'.placeholders
  ctes : List.Forall₂ (fun cte cte' => s.Same cte.1 cte'.1 ∧ Level.Respelled s cte.2 cte'.2)
    r.ctes r'.ctes

/-- Two steps go in step: both fail, for reasons of one kind, or both give values in a relation. -/
def Spelling.InStep {α β : Type} (s : Spelling) (R : α → β → Prop) (step : Analyze α)
    (step' : Analyze β) : Prop :=
  ∀ r r', r.Respelled s r' →
    AlikeInKind (fun p p' => R p.1 p'.1 ∧ p.2.Respelled s p'.2) (step.outcome r) (step'.outcome r')

/-- A schema has one table for a name and its plain form. -/
def Spelling.FindsTables (s : Spelling) (schema : Schema) : Prop :=
  ∀ table, schema.columnsOf? (s.name table) = schema.columnsOf? table

namespace Run.Respelled

variable {s : Spelling} {r r' : Run}

theorem start (s : Spelling) : Run.Respelled s .start .start := ⟨rfl, .nil, .nil, .nil⟩

/-- A variable that is made now. -/
theorem made (h : r.Respelled s r') (label label' : String) (info : TypeInfo) (list : Bool) :
    TypeVar.Relabelled ⟨r.issued + 1, label, info, list, false⟩
      ⟨r'.issued + 1, label', info, list, false⟩ :=
  ⟨congrArg (· + 1) h.issued, rfl, rfl, rfl⟩

theorem issue (h : r.Respelled s r') :
    Run.Respelled s { r with issued := r.issued + 1 } { r' with issued := r'.issued + 1 } :=
  { h with issued := congrArg (· + 1) h.issued }

theorem withPlaceholders (h : r.Respelled s r') {ps ps' : List Placeholder}
    (hps : List.Forall₂ Placeholder.Relabelled ps ps') :
    Run.Respelled s { r with placeholders := ps } { r' with placeholders := ps' } :=
  { h with placeholders := hps }

/-- A common table hides those of its name that were declared before it, in both runs. -/
theorem cte? (h : r.Respelled s r') {table table' : String} (htable : s.Same table table') :
    Option.Rel (Level.Respelled s) (r.cte? table) (r'.cte? table') :=
  rel_option_map (fun _ _ hcte => hcte.2)
    (rel_find? (fun _ _ hcte => (hcte.1.compared htable).symm) h.ctes)

end Run.Respelled

namespace Spelling

/-! ## Tables of a schema -/

theorem findsTables_of_exact {s : Spelling} (hs : s.caseless = false) (schema : Schema) :
    s.FindsTables schema := fun table => by rw [name_of_exact hs]

/-- Where no two names differ in case only, a table is found by a name in any case. -/
theorem columnsOf?_of_distinct {schema : Schema}
    (hdistinct : schema.tables.Pairwise fun a b => sameName a b = false) (table : String) :
    schema.columnsOf? table =
      (schema.entries.find? fun entry => sameName entry.1 table).map (·.2) := by
  unfold Schema.columnsOf?
  dsimp only
  congr 1
  have hentries : schema.entries.Pairwise fun a b => sameName a.1 b.1 = false :=
    List.pairwise_map.1 hdistinct
  generalize schema.entries = entries at hentries
  induction entries with
  | nil => rfl
  | cons entry rest ih =>
    obtain ⟨hentry, hrest⟩ := List.pairwise_cons.1 hentries
    rw [List.find?_cons, List.find?_cons]
    cases hexact : entry.1 == table with
    | true =>
      rw [show sameName entry.1 table = true from eq_of_beq hexact ▸ sameName_refl entry.1]
      rfl
    | false =>
      cases hsame : sameName entry.1 table with
      | false => exact ih hrest
      | true =>
        -- a table of exactly this name would differ from the entry in case only
        have hnone : rest.find? (fun other => other.1 == table) = none := by
          refine List.find?_eq_none.2 fun other hother hname => ?_
          have hdiffers := hentry other hother
          rw [eq_of_beq hname, hsame] at hdiffers
          cases hdiffers
        rw [hnone]
        rfl

theorem findsTables_of_distinct (s : Spelling) {schema : Schema}
    (hdistinct : schema.tables.Pairwise fun a b => sameName a b = false) :
    s.FindsTables schema := by
  intro table
  rw [columnsOf?_of_distinct hdistinct, columnsOf?_of_distinct hdistinct]
  have hsame : ∀ entry : String × List ColumnRecord,
      sameName entry.1 (s.name table) = sameName entry.1 table :=
    fun entry => (Same.refl s entry.1).compared (s.same_name table)
  simp only [hsame]

namespace InStep

variable {α β γ δ : Type} {s : Spelling} {R : α → β → Prop} {Q : γ → δ → Prop}

/-! ## Steps -/

theorem pure {a : α} {b : β} (h : R a b) : s.InStep R (Pure.pure a) (Pure.pure b) :=
  fun _ _ hr => .ok ⟨h, hr⟩

theorem throw {e e' : AnalysisError} (h : e.kind = e'.kind) :
    s.InStep R (MonadExcept.throw e) (MonadExcept.throw e') :=
  fun _ _ _ => .error h

theorem bind {step : Analyze α} {step' : Analyze β} {next : α → Analyze γ} {next' : β → Analyze δ}
    (h : s.InStep R step step') (hnext : ∀ a b, R a b → s.InStep Q (next a) (next' b)) :
    s.InStep Q (step >>= next) (step' >>= next') := by
  intro r r' hr
  rw [Analyze.outcome_bind, Analyze.outcome_bind]
  exact (h r r' hr).bind fun p p' hp => hnext p.1 p'.1 hp.1 p.2 p'.2 hp.2

/-- A refusal, and whatever would follow it. -/
theorem throw_bind {e e' : AnalysisError} (h : e.kind = e'.kind) (next : γ → Analyze α)
    (next' : δ → Analyze β) :
    s.InStep R (MonadExcept.throw e >>= next) (MonadExcept.throw e' >>= next') :=
  fun _ _ _ => .error h

/-- Steps that do not fail. -/
theorem of_runFrom {step : Analyze α} {step' : Analyze β} {a : Run → α} {b : Run → β}
    {after after' : Run → Run} (h : ∀ r, step.runFrom r = (.ok (a r), after r))
    (h' : ∀ r, step'.runFrom r = (.ok (b r), after' r))
    (hafter : ∀ r r', r.Respelled s r' → R (a r) (b r') ∧ (after r).Respelled s (after' r')) :
    s.InStep R step step' := by
  intro r r' hr
  rw [Analyze.outcome_of_runFrom (h r), Analyze.outcome_of_runFrom (h' r')]
  exact .ok (hafter r r' hr)

theorem get : s.InStep (Run.Respelled s) (MonadState.get : Analyze Run) MonadState.get :=
  fun _ _ hr => .ok ⟨hr, hr⟩

theorem lift {x : Except AnalysisError α} {y : Except AnalysisError β} (h : AlikeInKind R x y) :
    s.InStep R (QuerySignature.lift x) (QuerySignature.lift y) := by
  cases h with
  | ok hab => exact pure hab
  | error hkind => exact throw hkind

theorem fresh (label label' : String) (info : TypeInfo) :
    s.InStep TypeVar.Relabelled (QuerySignature.fresh label info)
      (QuerySignature.fresh label' info) :=
  of_runFrom (runFrom_fresh label info) (runFrom_fresh label' info)
    fun _ _ hr => ⟨hr.made label label' info false, hr.issue⟩

theorem demand {c c' : Constraint} (h : c.Compared s.likeness c') :
    s.InStep Done (QuerySignature.demand c) (QuerySignature.demand c') :=
  of_runFrom (runFrom_demand c) (runFrom_demand c')
    fun _ _ hr => ⟨trivial, { hr with constraints := List.rel_append hr.constraints (.cons h .nil) }⟩

theorem setNotNull (i : Nat) (notNull : Bool) :
    s.InStep Done (QuerySignature.setNotNull i notNull) (QuerySignature.setNotNull i notNull) := by
  refine of_runFrom (runFrom_setNotNull i notNull) (runFrom_setNotNull i notNull)
    fun r r' hr => ⟨trivial, hr.withPlaceholders ?_⟩
  have hps := hr.placeholders
  generalize r.placeholders = ps, r'.placeholders = ps' at hps
  induction hps generalizing i with
  | nil => cases i <;> exact .nil
  | cons hp hrest ih =>
    cases i with
    | zero => exact .cons ⟨hp.var, hp.name, rfl⟩ hrest
    | succ i => exact .cons hp (ih i)

theorem resolve {scope scope' : Scope} (h : scope.Respelled s scope') (c : ColumnRef) :
    s.InStep (SourceColumn.Respelled s) (QuerySignature.resolve scope c)
      (QuerySignature.resolve scope' (c.plain s)) := by
  rw [resolve_eq_lift, resolve_eq_lift]
  exact lift (h.resolve c)

/-! ## Placeholders -/

theorem addPlaceholder (name : Option String) (list : Bool) :
    s.InStep (Inferred.Respelled s) (QuerySignature.addPlaceholder name list)
      (QuerySignature.addPlaceholder name list) := by
  refine of_runFrom (runFrom_addPlaceholder name list) (runFrom_addPlaceholder name list)
    fun r r' hr => ?_
  have hvar := hr.made (parameterText name) (parameterText name) .unknown list
  have hplace : r'.placeholders.length = r.placeholders.length := hr.placeholders.length_eq.symm
  exact ⟨⟨hvar, rfl, .some hplace, .none, rfl⟩,
    hr.issue.withPlaceholders (List.rel_append hr.placeholders (.cons ⟨hvar, rfl, rfl⟩ .nil))⟩

theorem cutPlaceholders (start : Nat) :
    s.InStep (List.Forall₂ Placeholder.Relabelled) (QuerySignature.cutPlaceholders start)
      (QuerySignature.cutPlaceholders start) :=
  of_runFrom (runFrom_cutPlaceholders start) (runFrom_cutPlaceholders start)
    fun _ _ hr => ⟨List.forall₂_drop start hr.placeholders,
      hr.withPlaceholders (List.forall₂_take start hr.placeholders)⟩

theorem appendPlaceholders {ps ps' : List Placeholder}
    (hps : List.Forall₂ Placeholder.Relabelled ps ps') :
    s.InStep Done (QuerySignature.appendPlaceholders ps) (QuerySignature.appendPlaceholders ps') :=
  of_runFrom (fun _ => rfl) (fun _ => rfl)
    fun _ _ hr => ⟨trivial, hr.withPlaceholders (List.rel_append hr.placeholders hps)⟩

/-! ## Common tables -/

theorem declareCte {name name' : String} (hname : s.Same name name') {columns columns' : Level}
    (hcolumns : columns.Respelled s columns') :
    s.InStep Done (QuerySignature.declareCte name columns)
      (QuerySignature.declareCte name' columns') :=
  of_runFrom (fun _ => rfl) (fun _ => rfl)
    fun _ _ hr => ⟨trivial, { hr with ctes := .cons ⟨hname, hcolumns⟩ hr.ctes }⟩

theorem keepingCtes {step : Analyze α} {step' : Analyze β} (h : s.InStep R step step') :
    s.InStep R (QuerySignature.keepingCtes step) (QuerySignature.keepingCtes step') := by
  intro r r' hr
  rw [Parallel.outcome_keepingCtes, Parallel.outcome_keepingCtes]
  exact (h r r' hr).bind fun p p' hp => .ok ⟨hp.1, { hp.2 with ctes := hr.ctes }⟩

/-- The columns of a table of the schema have the names of the schema in both walks. -/
theorem freshColumns {aliasName aliasName' : String} (halias : s.Same aliasName aliasName')
    (records : List ColumnRecord) :
    s.InStep (Level.Respelled s) (QuerySignature.freshColumns aliasName records)
      (QuerySignature.freshColumns aliasName' records) := by
  induction records with
  | nil => exact pure .nil
  | cons record rest ih =>
    refine bind (fresh record.column record.column (.exact record.type)) fun v v' hv => ?_
    refine bind ih fun columns columns' hcolumns => ?_
    exact pure (.cons ⟨rfl, halias, rfl, hv, rfl, rfl⟩ hcolumns)

theorem tableColumns {schema : Schema} (hschema : s.FindsTables schema) (name : String)
    (aliasName : Option String) :
    s.InStep (Level.Respelled s) (QuerySignature.tableColumns schema name aliasName)
      (QuerySignature.tableColumns schema (s.name name) (aliasName.map s.name)) := by
  have halias : s.Same (aliasName.getD "") ((aliasName.map s.name).getD "") := by
    cases aliasName with
    | none => rfl
    | some aliasName => exact s.same_name aliasName
  refine bind get fun r r' hr => ?_
  have hcte := hr.cte? (s.same_name (lastSegment name))
  rw [lastSegment_name]
  generalize r.cte? (lastSegment name) = found, r'.cte? (s.name (lastSegment name)) = found' at hcte
  cases hcte with
  | some hcolumns => exact pure (List.rel_map (fun _ _ hc => hc.withAlias halias) hcolumns)
  | none =>
    dsimp only
    rw [hschema (lastSegment name)]
    cases schema.columnsOf? (lastSegment name) with
    | some records => exact freshColumns halias records
    | none => exact throw rfl

end InStep

/-- Walks in step, as a way to compare the forms of expressions. -/
def comparison (s : Spelling) : Comparison where
  toLikeness := s.likeness
  Refusal e e' := e.kind = e'.kind
  Step := s.InStep
  sameRefusal _ := rfl
  unsupported _ := rfl
  pure := InStep.pure
  throw := InStep.throw
  bind := InStep.bind
  fresh info _ := InStep.fresh _ _ info
  demand := InStep.demand
  setNotNull notNull hi := hi ▸ InStep.setNotNull _ notNull

/-! ## All parentheses kept -/

theorem respelled_kept (s : Spelling) :
    SourceColumn.Respelled s.kept = SourceColumn.Respelled s := by
  funext c c'
  exact propext ⟨fun h => ⟨h.table, h.aliasName, h.name, h.var, h.key, h.notNull⟩,
    fun h => ⟨h.table, h.aliasName, h.name, h.var, h.key, h.notNull⟩⟩

/-- What walks have in common does not depend on which parentheses are kept. -/
theorem likeness_kept (s : Spelling) : s.kept.likeness = s.likeness := by
  unfold likeness
  congr 1
  exact respelled_kept s

theorem run_respelled_kept (s : Spelling) : Run.Respelled s.kept = Run.Respelled s := by
  have hlevels : Level.Respelled s.kept = Level.Respelled s := congrArg List.Forall₂ s.respelled_kept
  funext r r'
  refine propext ⟨fun h => ⟨h.issued, s.likeness_kept ▸ h.constraints, h.placeholders, ?_⟩,
    fun h => ⟨h.issued, s.likeness_kept ▸ h.constraints, h.placeholders, ?_⟩⟩
  · exact h.ctes.imp fun _ _ hcte => ⟨hcte.1, hlevels ▸ hcte.2⟩
  · exact h.ctes.imp fun _ _ hcte => ⟨hcte.1, hlevels ▸ hcte.2⟩

theorem InStep.of_kept {s : Spelling} {step step' : Analyze Inferred}
    (h : s.kept.InStep (Inferred.Respelled s.kept) step step') :
    s.InStep (Inferred.Respelled s) step step' := by
  unfold InStep at h ⊢
  rw [run_respelled_kept, Inferred.Respelled, likeness_kept] at h
  exact h

end Spelling

theorem Scope.Respelled.kept {s : Spelling} {scope scope' : Scope} (h : scope.Respelled s scope') :
    scope.Respelled s.kept scope' := by
  refine ⟨?_, ?_⟩
  · exact s.respelled_kept.symm ▸ h.columns
  · exact s.respelled_kept.symm ▸ h.outer

end QuerySignature
