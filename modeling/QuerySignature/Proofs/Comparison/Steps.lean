import QuerySignature.Analysis.Output
import QuerySignature.Proofs.Alike

namespace QuerySignature

/-! # Comparing two walks

What a form of expression adds to a run it makes of a few kinds of steps: it makes variables, adds
constraints between them, and makes placeholders not null. However two walks are compared, a form goes
alike in both as soon as these steps do.

- `Likeness`: what of one walk is like what of another.
- `Comparison`: how steps are compared, by rules for steps in a row and for each kind of step.
- `Comparison.reference`, `Comparison.forceNotNull`: steps that are made of these.
-/

/-- What of one walk is like what of another. -/
structure Likeness where
  Label : String → String → Prop
  Name : String → String → Prop
  Var : TypeVar → TypeVar → Prop
  /-- Of places among the placeholders. -/
  Place : Nat → Nat → Prop
  Column : SourceColumn → SourceColumn → Prop
  sameLabel : ∀ label, Label label label
  label : ∀ {v v'}, Var v v' → Label v.label v'.label
  noName : Name "" ""
  name : ∀ {c c'}, Column c c' → Name c.name c'.name
  visibleTable : ∀ {c c'}, Column c c' → Name c.visibleTable c'.visibleTable
  qualifiedName : ∀ {c c'}, Column c c' → Label c.qualifiedName c'.qualifiedName
  notNull : ∀ {c c'}, Column c c' → c'.notNull = c.notNull
  projected : ∀ {c c'}, Column c c' → c'.var.projected = c.var.projected
  info : ∀ {c c'}, Column c c' → c'.var.info = c.var.info
  /-- A walk links to the variable of a column where that is an output column of an inner query. -/
  tied : ∀ {c c'}, Column c c' → c.var.projected = true → Var c.var c'.var

/-- Constraints that say the same of variables that are like each other. -/
structure Constraint.Compared (L : Likeness) (c c' : Constraint) : Prop where
  label : L.Label c.label c'.label
  strength : c'.strength = c.strength
  coercion : c'.coercion = c.coercion
  equations : List.Forall₂ (fun p p' => L.Var p.1 p'.1 ∧ L.Var p.2 p'.2) c.equations c'.equations

/-- Expressions of which the same is found out. -/
structure Inferred.Compared (L : Likeness) (e e' : Inferred) : Prop where
  var : L.Var e.var e'.var
  notNull : e'.notNull = e.notNull
  placeholder : Option.Rel L.Place e.placeholder e'.placeholder
  source : Option.Rel L.Column e.source e'.source
  aggregate : e'.aggregate = e.aggregate

/-- Output columns of which the same is found out. -/
structure OutputColumn.Compared (L : Likeness) (c c' : OutputColumn) : Prop where
  name : L.Name c.name c'.name
  var : L.Var c.var c'.var
  unionVars : List.Forall₂ L.Var c.unionVars c'.unionVars
  notNull : c'.notNull = c.notNull
  table : L.Name c.table c'.table
  source : Option.Rel L.Column c.source c'.source
  placeholder : Option.Rel L.Place c.placeholder c'.placeholder
  aggregate : c'.aggregate = c.aggregate

/-- No values to compare. -/
abbrev Done {α β : Type} : α → β → Prop := fun _ _ => True

/-- A way to compare the steps of two walks: by what they give, and by what they add to their runs. -/
structure Comparison extends Likeness where
  Refusal : AnalysisError → AnalysisError → Prop
  Step : ∀ {α β : Type}, (α → β → Prop) → Analyze α → Analyze β → Prop
  sameRefusal : ∀ e, Refusal e e
  unsupported : ∀ {text text'}, Label text text' → Refusal (.unsupported text) (.unsupported text')
  pure : ∀ {α β : Type} {R : α → β → Prop} {a b}, R a b → Step R (Pure.pure a) (Pure.pure b)
  throw : ∀ {α β : Type} {R : α → β → Prop} {e e'}, Refusal e e' →
    Step R (MonadExcept.throw e) (MonadExcept.throw e')
  bind : ∀ {α β γ δ : Type} {R : α → β → Prop} {Q : γ → δ → Prop} {step : Analyze α}
    {step' : Analyze β} {next : α → Analyze γ} {next' : β → Analyze δ}, Step R step step' →
      (∀ a b, R a b → Step Q (next a) (next' b)) → Step Q (step >>= next) (step' >>= next')
  fresh : ∀ {label label'} (info : TypeInfo), Label label label' →
    Step Var (QuerySignature.fresh label info) (QuerySignature.fresh label' info)
  demand : ∀ {c c'}, c.Compared toLikeness c' →
    Step Done (QuerySignature.demand c) (QuerySignature.demand c')
  setNotNull : ∀ {i i'} (notNull : Bool), Place i i' →
    Step Done (QuerySignature.setNotNull i notNull) (QuerySignature.setNotNull i' notNull)

/-! ## What is like what -/

namespace Inferred.Compared

variable {L : Likeness} {e e' : Inferred} {v v' : TypeVar}

theorem ofVar (hv : L.Var v v') (notNull : Bool) :
    Inferred.Compared L (.ofVar v notNull) (.ofVar v' notNull) :=
  ⟨hv, rfl, .none, .none, rfl⟩

theorem ofColumn (hv : L.Var v v') {c c' : SourceColumn} (hc : L.Column c c') :
    Inferred.Compared L (.ofColumn v c) (.ofColumn v' c') :=
  ⟨hv, L.notNull hc, .none, .some hc, rfl⟩

/-- The table of a column; other expressions have none. -/
theorem table (h : e.Compared L e') : L.Name e.table e'.table := by
  have hsource := h.source
  unfold Inferred.table
  generalize e.source = source, e'.source = source' at hsource
  cases hsource with
  | none => exact L.noName
  | some hc => exact L.visibleTable hc

theorem isNone_placeholder (h : e.Compared L e') :
    e'.placeholder.isNone = e.placeholder.isNone := by
  have hplaceholder := h.placeholder
  generalize e.placeholder = place, e'.placeholder = place' at hplaceholder
  cases hplaceholder <;> rfl

end Inferred.Compared

theorem OutputColumn.Compared.ofInferred {L : Likeness} {name name' : String} {e e' : Inferred}
    (hname : L.Name name name') (h : e.Compared L e') :
    OutputColumn.Compared L (.ofInferred name e) (.ofInferred name' e') :=
  ⟨hname, h.var, .nil, h.notNull, h.table, h.source, h.placeholder, h.aggregate⟩

theorem OutputColumn.Compared.union {L : Likeness} {c c' d d' : OutputColumn} (hc : c.Compared L c')
    (hd : d.Compared L d') : (c.union d).Compared L (c'.union d') where
  name := hc.name
  var := hc.var
  unionVars := List.rel_append hc.unionVars (.cons hd.var .nil)
  notNull := congrArg₂ (· && ·) hc.notNull hd.notNull
  table := hc.table
  source := hc.source
  placeholder := hc.placeholder
  aggregate := hc.aggregate

theorem zipWith_union_compared {L : Likeness} {cs cs' ds ds' : List OutputColumn}
    (hcs : List.Forall₂ (OutputColumn.Compared L) cs cs')
    (hds : List.Forall₂ (OutputColumn.Compared L) ds ds') :
    List.Forall₂ (OutputColumn.Compared L) (List.zipWith OutputColumn.union cs ds)
      (List.zipWith OutputColumn.union cs' ds') := by
  induction hcs generalizing ds ds' with
  | nil => exact .nil
  | cons hc _ ih =>
    cases hds with
    | nil => exact .nil
    | cons hd hds => exact .cons (hc.union hd) (ih hds)

namespace Constraint.Compared

variable {L : Likeness} {v v' w w' : TypeVar} {label label' : String}

theorem strict (hlabel : L.Label label label') (hv : L.Var v v') (hw : L.Var w w') :
    Constraint.Compared L (.strict label (.var v) (.var w)) (.strict label' (.var v') (.var w')) :=
  ⟨hlabel, rfl, rfl, .cons ⟨hv, hw⟩ .nil⟩

theorem bestEffort (hlabel : L.Label label label') (hv : L.Var v v') (hw : L.Var w w') :
    Constraint.Compared L (.bestEffort label v w) (.bestEffort label' v' w') :=
  ⟨hlabel, rfl, rfl, .cons ⟨hv, hw⟩ .nil⟩

theorem widest (hlabel : L.Label label label') (coercion : Option Coercion) (hv : L.Var v v')
    (hw : L.Var w w') :
    Constraint.Compared L (.widest label coercion v w) (.widest label' coercion v' w') :=
  ⟨hlabel, rfl, rfl, .cons ⟨hv, hw⟩ .nil⟩

/-- A variable against a row. -/
theorem row (hlabel : L.Label label label') (list list' : Bool) {vars vars' : List TypeVar}
    (hv : L.Var v v') (hvars : List.Forall₂ L.Var vars vars') :
    Constraint.Compared L { Constraint.strict label (.var v) (.ofVars vars) with list }
      { Constraint.strict label' (.var v') (.ofVars vars') with list := list' } := by
  refine ⟨hlabel, rfl, rfl, ?_⟩
  show List.Forall₂ _ ((TypeTerm.var v).equations (.ofVars vars))
    ((TypeTerm.var v').equations (.ofVars vars'))
  rw [TypeTerm.equations_var_ofVars, TypeTerm.equations_var_ofVars, List.forall₂_map_left_iff,
    List.forall₂_map_right_iff]
  exact hvars.imp fun _ _ hw => ⟨hv, hw⟩

/-- A row against a row, as far as both reach. -/
theorem rows (hlabel : L.Label label label') {vars vars' others others' : List TypeVar}
    (hvars : List.Forall₂ L.Var vars vars') (hothers : List.Forall₂ L.Var others others') :
    Constraint.Compared L (.strict label (.ofVars vars) (.ofVars others))
      (.strict label' (.ofVars vars') (.ofVars others')) := by
  refine ⟨hlabel, rfl, rfl, ?_⟩
  show List.Forall₂ _ ((TypeTerm.ofVars vars).equations (.ofVars others))
    ((TypeTerm.ofVars vars').equations (.ofVars others'))
  rw [TypeTerm.equations_ofVars_ofVars, TypeTerm.equations_ofVars_ofVars]
  induction hvars generalizing others others' with
  | nil => exact .nil
  | cons hv _ ih =>
    cases hothers with
    | nil => exact .nil
    | cons hw hothers => exact .cons ⟨hv, hw⟩ (ih hothers)

end Constraint.Compared

/-! ## Steps that are made of others -/

namespace Comparison

variable (K : Comparison) {e e' : Inferred} {label label' : String}

theorem freshExact (hlabel : K.Label label label') (type : SqlType) :
    K.Step K.Var (QuerySignature.freshExact label type) (QuerySignature.freshExact label' type) :=
  K.fresh (.exact type) hlabel

theorem forceNotNull (h : e.Compared K.toLikeness e') :
    K.Step Done (QuerySignature.forceNotNull e) (QuerySignature.forceNotNull e') := by
  have hplaceholder := h.placeholder
  unfold QuerySignature.forceNotNull
  generalize e.placeholder = place, e'.placeholder = place' at hplaceholder
  cases hplaceholder with
  | none => exact K.pure trivial
  | some hi => exact K.setNotNull true hi

/-- A placeholder that is written is as nullable as its column in both walks. -/
theorem matchNull {i i' : Option Nat} (hi : Option.Rel K.Place i i') {c c' : SourceColumn}
    (hc : K.Column c c') :
    K.Step Done (QuerySignature.matchNull i c) (QuerySignature.matchNull i' c') := by
  unfold QuerySignature.matchNull
  rw [K.notNull hc]
  cases hi with
  | none => exact K.pure trivial
  | some hi => exact K.setNotNull c.notNull hi

/-- A reference to an output column of an inner query is linked to that column in both walks; of any
other column only the type is read. -/
theorem reference {c c' : SourceColumn} (hc : K.Column c c') :
    K.Step K.Var (QuerySignature.reference c) (QuerySignature.reference c') := by
  have hlabel := K.qualifiedName hc
  unfold QuerySignature.reference
  rw [K.projected hc, K.info hc]
  cases htied : c.var.projected with
  | true =>
    refine K.bind (K.fresh .unknown hlabel) fun v v' hv => ?_
    refine K.bind (K.demand (.bestEffort hlabel hv (K.tied hc htied))) fun _ _ _ => ?_
    exact K.pure hv
  | false => exact K.fresh c.var.info hlabel

end Comparison

end QuerySignature
