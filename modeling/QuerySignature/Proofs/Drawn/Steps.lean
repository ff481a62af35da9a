import QuerySignature.Description.Describe
import QuerySignature.Proofs.Drawn.Solver
import QuerySignature.Proofs.Sources.Declared

namespace QuerySignature

/-! # Where the types of a step come from

A walk makes variables without a type, in a type of its profile, in the declared type of a column,
or in the type that another variable has been made in. So whatever these types are drawn from, all
variables are: those that constraints speak of, those of placeholders, and those that are handed on
as parts of expressions and as columns.

- `Draws`: a step that draws on some types only.
- `Draws.bind`: steps in a row.
- `Draws.fresh`, `Draws.demand`, `Draws.reference`, ...: the steps of a walk.
-/

/-- The declared types of all columns of a schema. -/
def Schema.types (schema : Schema) : List SqlType :=
  schema.entries.flatMap fun entry => entry.2.map (·.type)

/-- The types that an analysis has before it. -/
def Setting.types (setting : Setting) : List SqlType :=
  setting.profile.types ++ setting.schema.types

/-! ## Values -/

section

variable (T : SqlType → Prop)

/-- The variables that constraints and columns speak of are made in some types. -/
def TypeVar.DrawnFrom (v : TypeVar) : Prop := v.info.DrawnFrom T

def Inferred.DrawnFrom (e : Inferred) : Prop := e.var.DrawnFrom T

def Level.DrawnFrom (level : Level) : Prop := ∀ column ∈ level, column.var.DrawnFrom T

def Scope.DrawnFrom (scope : Scope) : Prop := ∀ level ∈ scope.levels, Level.DrawnFrom T level

/-- An output column, with the same column of other branches. -/
structure OutputColumn.DrawnFrom (column : OutputColumn) : Prop where
  var : column.var.DrawnFrom T
  unionVars : ∀ v ∈ column.unionVars, v.DrawnFrom T

structure BranchResult.DrawnFrom (branch : BranchResult) : Prop where
  columns : ∀ column ∈ branch.columns, column.DrawnFrom T
  visible : Level.DrawnFrom T branch.visible

def QueryResult.DrawnFrom (query : QueryResult) : Prop :=
  ∀ column ∈ query.columns, column.DrawnFrom T

/-- All that a run holds. -/
structure Run.DrawnFrom (r : Run) : Prop where
  constraints : ∀ c ∈ r.constraints, c.DrawnFrom T
  placeholders : ∀ p ∈ r.placeholders, p.var.DrawnFrom T
  ctes : ∀ entry ∈ r.ctes, Level.DrawnFrom T entry.2

/-- A step that gives a value adds nothing to a run but what is drawn from some types. -/
def Draws {α : Type} (Q : α → Prop) (step : Analyze α) : Prop :=
  ∀ r a s, r.DrawnFrom T → step.outcome r = .ok (a, s) → Q a ∧ s.DrawnFrom T

end

section

variable {T : SqlType → Prop}

/-! ## Constraints and columns -/

namespace Constraint.DrawnFrom

variable {v w : TypeVar}

theorem strict (label : String) (hv : v.DrawnFrom T) (hw : w.DrawnFrom T) :
    (Constraint.strict label (.var v) (.var w)).DrawnFrom T := by
  intro pair hpair
  rw [List.mem_singleton.1 hpair]
  exact ⟨hv, hw⟩

theorem bestEffort (label : String) (hv : v.DrawnFrom T) (hw : w.DrawnFrom T) :
    (Constraint.bestEffort label v w).DrawnFrom T := by
  intro pair hpair
  rw [List.mem_singleton.1 hpair]
  exact ⟨hv, hw⟩

theorem widest (label : String) (coercion : Option Coercion) (hv : v.DrawnFrom T)
    (hw : w.DrawnFrom T) : (Constraint.widest label coercion v w).DrawnFrom T := by
  intro pair hpair
  rw [List.mem_singleton.1 hpair]
  exact ⟨hv, hw⟩

/-- A variable against a row. -/
theorem row (label : String) (list : Bool) {vars : List TypeVar} (hv : v.DrawnFrom T)
    (hvars : ∀ w ∈ vars, w.DrawnFrom T) :
    Constraint.DrawnFrom T { Constraint.strict label (.var v) (.ofVars vars) with list } := by
  intro pair hpair
  have hpair : pair ∈ (TypeTerm.var v).equations (.ofVars vars) := hpair
  rw [TypeTerm.equations_var_ofVars] at hpair
  obtain ⟨w, hw, rfl⟩ := List.mem_map.1 hpair
  exact ⟨hv, hvars w hw⟩

/-- A row against a row. -/
theorem rows (label : String) {vars others : List TypeVar} (hvars : ∀ v ∈ vars, v.DrawnFrom T)
    (hothers : ∀ v ∈ others, v.DrawnFrom T) :
    (Constraint.strict label (.ofVars vars) (.ofVars others)).DrawnFrom T := by
  intro pair hpair
  have hpair : pair ∈ (TypeTerm.ofVars vars).equations (.ofVars others) := hpair
  rw [TypeTerm.equations_ofVars_ofVars] at hpair
  obtain ⟨hleft, hright⟩ := List.of_mem_zip hpair
  exact ⟨hvars _ hleft, hothers _ hright⟩

end Constraint.DrawnFrom

theorem Level.DrawnFrom.append {level other : Level} (h : Level.DrawnFrom T level)
    (hother : Level.DrawnFrom T other) : Level.DrawnFrom T (level ++ other) := by
  intro column hcolumn
  rcases List.mem_append.1 hcolumn with hcolumn | hcolumn
  · exact h column hcolumn
  · exact hother column hcolumn

theorem Level.DrawnFrom.levelOf (name : String) {columns : List OutputColumn}
    (h : ∀ column ∈ columns, column.DrawnFrom T) :
    Level.DrawnFrom T (QuerySignature.levelOf name columns) := by
  intro column hcolumn
  obtain ⟨output, houtput, rfl⟩ := List.mem_map.1 hcolumn
  exact (h output houtput).var

/-- A join hides columns or makes them nullable; their variables stay. -/
theorem Level.DrawnFrom.join {clause : Sources} (h : Level.DrawnFrom T clause.columns)
    {columns : Level} (hcolumns : Level.DrawnFrom T columns) (outer : List Level)
    (previous : String) (kind : JoinKind) (source : Source) (condition : JoinCondition) :
    Level.DrawnFrom T (clause.join outer previous kind source condition columns).columns := by
  have hnullable : ∀ {level : Level}, Level.DrawnFrom T level →
      Level.DrawnFrom T (level.map SourceColumn.nullable) := by
    intro level hlevel column hcolumn
    obtain ⟨found, hfound, rfl⟩ := List.mem_map.1 hcolumn
    exact hlevel found hfound
  have hadded : Level.DrawnFrom T (condition.added columns) := by
    cases condition with
    | shared names => exact fun column hcolumn => hcolumns column (List.mem_of_mem_filter hcolumn)
    | predicate e => exact hcolumns
    | unconditional => exact hcolumns
  cases kind with
  | inner => exact h.append hadded
  | left => exact h.append (hnullable hadded)
  | right => exact (hnullable h).append hadded
  | full => exact (hnullable h).append (hnullable hadded)
  | cross => exact h.append hadded

theorem OutputColumn.DrawnFrom.ofInferred (name : String) {e : Inferred} (h : e.DrawnFrom T) :
    (OutputColumn.ofInferred name e).DrawnFrom T :=
  ⟨h, fun _ hv => absurd hv List.not_mem_nil⟩

theorem OutputColumn.DrawnFrom.union {column other : OutputColumn} (h : column.DrawnFrom T)
    (hother : other.DrawnFrom T) : (column.union other).DrawnFrom T := by
  refine ⟨h.var, fun v hv => ?_⟩
  rcases List.mem_append.1 hv with hv | hv
  · exact h.unionVars v hv
  · rw [List.mem_singleton.1 hv]
    exact hother.var

theorem drawnFrom_of_unionColumns {columns united : List OutputColumn} {others : List BranchResult}
    (h : ∀ column ∈ columns, column.DrawnFrom T) (hothers : ∀ branch ∈ others, branch.DrawnFrom T)
    (hunited : unionColumns columns others = .ok united) :
    ∀ column ∈ united, column.DrawnFrom T := by
  induction others generalizing columns with
  | nil =>
    cases hunited
    exact h
  | cons branch rest ih =>
    unfold unionColumns at hunited
    split at hunited
    · refine ih ?_ (fun b hb => hothers b (.tail _ hb)) hunited
      intro column hcolumn
      rw [List.mem_iff_getElem?] at hcolumn
      obtain ⟨place, hplace⟩ := hcolumn
      obtain ⟨own, other, hown, hother, rfl⟩ := List.getElem?_zipWith_eq_some.1 hplace
      have hbranch := (hothers branch (.head _)).columns
      exact (h own (List.mem_of_getElem? hown)).union (hbranch other (List.mem_of_getElem? hother))
    · cases hunited

/-- An INSERT writes columns of its table. -/
theorem drawnFrom_of_targetColumns {all targets : Level} {names : List String}
    (h : Level.DrawnFrom T all) (htargets : targetColumns all names = .ok targets) :
    Level.DrawnFrom T targets := by
  have hfound := targetColumns_eq_ok htargets
  split at hfound
  · rw [hfound]
    exact h
  · intro column hcolumn
    obtain ⟨name, -, hname⟩ := exists_partner hfound hcolumn
    exact h column (List.mem_of_find?_eq_some hname)

/-- A branch gives the columns that it projects, some of them proven not null. -/
theorem BranchResult.DrawnFrom.of {clause : Sources} {scope : Scope}
    (hscope : Level.DrawnFrom T scope.columns) {projected : List OutputColumn}
    (h : ∀ column ∈ projected, column.DrawnFrom T) (sources : List Source) (joins : List Join)
    (criteria : Option Expr) (group : List Expr) :
    (BranchResult.of clause scope sources joins criteria group projected).DrawnFrom T := by
  refine ⟨fun column hcolumn => ?_, hscope⟩
  obtain ⟨found, hfound, rfl⟩ := List.mem_map.1 hcolumn
  exact ⟨(h found hfound).var, (h found hfound).unionVars⟩

theorem Scope.DrawnFrom.columns {scope : Scope} (h : scope.DrawnFrom T) :
    Level.DrawnFrom T scope.columns := h _ (.head _)

theorem Scope.DrawnFrom.within {columns : Level} (hcolumns : Level.DrawnFrom T columns)
    {outer : List Level} (houter : ∀ level ∈ outer, Level.DrawnFrom T level) :
    Scope.DrawnFrom T ⟨columns, outer⟩ := by
  intro level hlevel
  rcases List.mem_cons.1 hlevel with rfl | hlevel
  · exact hcolumns
  · exact houter level hlevel

namespace Draws

variable {α β : Type} {Q : α → Prop} {R : β → Prop} {step : Analyze α} {next : α → Analyze β}

/-! ## Steps in a row -/

theorem pure {a : α} (h : Q a) : Draws T Q (Pure.pure a : Analyze α) := by
  intro r b s hr hs
  cases hs
  exact ⟨h, hr⟩

theorem throw (e : AnalysisError) : Draws T Q (MonadExcept.throw e : Analyze α) := by
  intro r a s hr hs
  cases hs

theorem throw_bind (e : AnalysisError) (next : α → Analyze β) :
    Draws T R (MonadExcept.throw e >>= next) := throw e

theorem get : Draws T (Run.DrawnFrom T) (MonadState.get : Analyze Run) := by
  intro r a s hr hs
  cases hs
  exact ⟨hr, hr⟩

theorem bind (h : Draws T Q step) (hnext : ∀ a, Q a → Draws T R (next a)) :
    Draws T R (step >>= next) := by
  intro r b s hr hs
  rw [Analyze.outcome_bind] at hs
  obtain ⟨⟨a, t⟩, hfirst, hs⟩ := bind_eq_ok.1 hs
  obtain ⟨ha, ht⟩ := h r a t hr hfirst
  exact hnext a ha t b s ht hs

theorem lift {x : Except AnalysisError α} (h : ∀ a, x = .ok a → Q a) :
    Draws T Q (QuerySignature.lift x) := by
  cases x with
  | error e => exact throw e
  | ok a => exact pure (h a rfl)

/-! ## Steps -/

theorem fresh (label : String) {info : TypeInfo} (hinfo : info.DrawnFrom T) :
    Draws T (TypeVar.DrawnFrom T) (QuerySignature.fresh label info) := by
  intro r v s hr hs
  cases hs
  exact ⟨hinfo, hr.constraints, hr.placeholders, hr.ctes⟩

theorem freshExact (label : String) {type : SqlType} (h : T type) :
    Draws T (TypeVar.DrawnFrom T) (QuerySignature.freshExact label type) :=
  fresh label (.exact h)

theorem demand {c : Constraint} (hc : c.DrawnFrom T) :
    Draws T (fun _ => True) (QuerySignature.demand c) := by
  intro r a s hr hs
  cases hs
  refine ⟨trivial, fun d hd => ?_, hr.placeholders, hr.ctes⟩
  rcases List.mem_append.1 hd with hd | hd
  · exact hr.constraints d hd
  · rw [List.mem_singleton.1 hd]
    exact hc

theorem addPlaceholder (name : Option String) (list : Bool) :
    Draws T (Inferred.DrawnFrom T) (QuerySignature.addPlaceholder name list) := by
  intro r e s hr hs
  cases hs
  refine ⟨.unknown, hr.constraints, fun p hp => ?_, hr.ctes⟩
  rcases List.mem_append.1 hp with hp | hp
  · exact hr.placeholders p hp
  · rw [List.mem_singleton.1 hp]
    exact TypeInfo.DrawnFrom.unknown

theorem setNotNull (index : Nat) (notNull : Bool) :
    Draws T (fun _ => True) (QuerySignature.setNotNull index notNull) := by
  intro r a s hr hs
  cases hs
  refine ⟨trivial, hr.constraints, fun p hp => ?_, hr.ctes⟩
  have hp : p ∈ r.placeholders.modify index fun p => { p with notNull } := hp
  obtain ⟨place, hplace⟩ := List.mem_iff_getElem?.1 hp
  rw [List.getElem?_modify] at hplace
  obtain ⟨found, hfound, rfl⟩ := Option.map_eq_some_iff.1 hplace
  have hvar := hr.placeholders found (List.mem_of_getElem? hfound)
  split
  · exact hvar
  · exact hvar

theorem forceNotNull (e : Inferred) :
    Draws T (fun _ => True) (QuerySignature.forceNotNull e) := by
  unfold QuerySignature.forceNotNull
  split
  · exact setNotNull _ true
  · exact pure trivial

theorem matchNull (place : Option Nat) (column : SourceColumn) :
    Draws T (fun _ => True) (QuerySignature.matchNull place column) := by
  unfold QuerySignature.matchNull
  split
  · exact setNotNull _ _
  · exact pure trivial

theorem cutPlaceholders (start : Nat) :
    Draws T (fun ps => ∀ p ∈ ps, p.var.DrawnFrom T) (QuerySignature.cutPlaceholders start) := by
  intro r ps s hr hs
  cases hs
  refine ⟨fun p hp => hr.placeholders p (List.mem_of_mem_drop hp), hr.constraints, ?_, hr.ctes⟩
  exact fun p hp => hr.placeholders p (List.mem_of_mem_take hp)

theorem appendPlaceholders {ps : List Placeholder} (hps : ∀ p ∈ ps, p.var.DrawnFrom T) :
    Draws T (fun _ => True) (QuerySignature.appendPlaceholders ps) := by
  intro r a s hr hs
  cases hs
  refine ⟨trivial, hr.constraints, fun p hp => ?_, hr.ctes⟩
  rcases List.mem_append.1 hp with hp | hp
  · exact hr.placeholders p hp
  · exact hps p hp

theorem declareCte (name : String) {columns : Level} (hcolumns : Level.DrawnFrom T columns) :
    Draws T (fun _ => True) (QuerySignature.declareCte name columns) := by
  intro r a s hr hs
  cases hs
  refine ⟨trivial, hr.constraints, hr.placeholders, fun entry hentry => ?_⟩
  rcases List.mem_cons.1 hentry with rfl | hentry
  · exact hcolumns
  · exact hr.ctes entry hentry

theorem keepingCtes (h : Draws T Q step) : Draws T Q (QuerySignature.keepingCtes step) := by
  intro r a s hr hs
  rw [Parallel.outcome_keepingCtes] at hs
  obtain ⟨⟨b, t⟩, hstep, hs⟩ := bind_eq_ok.1 hs
  cases hs
  obtain ⟨hb, ht⟩ := h r b t hr hstep
  exact ⟨hb, ht.constraints, ht.placeholders, hr.ctes⟩

/-- A reference has the type of its column, or is tied to it. -/
theorem reference {column : SourceColumn} (h : column.var.DrawnFrom T) :
    Draws T (TypeVar.DrawnFrom T) (QuerySignature.reference column) := by
  unfold QuerySignature.reference
  split
  · refine bind (fresh _ .unknown) fun v hv => ?_
    exact bind (demand (.bestEffort _ hv h)) fun _ _ => pure hv
  · exact fresh _ h

theorem resolve {scope : Scope} (hscope : scope.DrawnFrom T) (c : ColumnRef) :
    Draws T (fun column => column.var.DrawnFrom T) (QuerySignature.resolve scope c) := by
  unfold QuerySignature.resolve
  split
  · next column hcolumn =>
    obtain ⟨level, hlevel, hmem⟩ := mem_of_resolveIn (resolveIn_of_resolve hcolumn)
    exact pure (hscope level hlevel column hmem)
  · exact throw _

theorem freshColumns (aliasName : String) {records : List ColumnRecord}
    (h : ∀ record ∈ records, T record.type) :
    Draws T (Level.DrawnFrom T) (QuerySignature.freshColumns aliasName records) := by
  induction records with
  | nil => exact pure fun _ hcolumn => absurd hcolumn List.not_mem_nil
  | cons record rest ih =>
    refine bind (freshExact _ (h record (.head _))) fun v hv => ?_
    refine bind (ih fun other hother => h other (.tail _ hother)) fun columns hcolumns => ?_
    refine pure fun column hcolumn => ?_
    rcases List.mem_cons.1 hcolumn with rfl | hcolumn
    · exact hv
    · exact hcolumns column hcolumn

/-! ## Stars and targets -/

theorem star {level : Level} (h : Level.DrawnFrom T level) :
    Draws T (fun outputs => ∀ output ∈ outputs, OutputColumn.DrawnFrom T output)
      (inferStar level) := by
  induction level with
  | nil => exact pure fun _ houtput => absurd houtput List.not_mem_nil
  | cons column rest ih =>
    have hcolumn : Draws T (OutputColumn.DrawnFrom T) (inferStarColumn column) :=
      bind (reference (h column (.head _))) fun v hv => pure (.ofInferred _ hv)
    refine bind hcolumn fun output houtput => ?_
    refine bind (ih fun other hother => h other (.tail _ hother)) fun outputs houtputs => ?_
    exact pure (List.forall_mem_cons.2 ⟨houtput, houtputs⟩)

theorem bindTargets {targets : Level} (h : Level.DrawnFrom T targets) (values : List Written) :
    Draws T (fun vars => ∀ v ∈ vars, TypeVar.DrawnFrom T v)
      (QuerySignature.bindTargets targets values) := by
  induction targets generalizing values with
  | nil => exact pure fun _ hv => absurd hv List.not_mem_nil
  | cons target rest ih =>
    cases values with
    | nil => exact pure fun _ hv => absurd hv List.not_mem_nil
    | cons value values =>
      refine bind (reference (h target (.head _))) fun v hv => ?_
      refine bind (matchNull _ _) fun _ _ => ?_
      refine bind (ih (fun other hother => h other (.tail _ hother)) values) fun vars hvars => ?_
      exact pure (List.forall_mem_cons.2 ⟨hv, hvars⟩)

theorem bindRow (label : String) {targets : Level} (h : Level.DrawnFrom T targets)
    {values : List Written} (hvalues : ∀ value ∈ values, value.var.DrawnFrom T) :
    Draws T (fun _ => True) (QuerySignature.bindRow label targets values) := by
  refine bind (bindTargets h values) fun vars hvars => ?_
  refine demand (.rows label hvars fun v hv => ?_)
  obtain ⟨value, hvalue, rfl⟩ := List.mem_map.1 hv
  exact hvalues value hvalue

end Draws

end

end QuerySignature
