import QuerySignature.Analysis.Write
import QuerySignature.Proofs.Walk.Rules

namespace QuerySignature

/-! # Properties of steps that forms keep

Beside going into the parts of a text, the walk makes variables, asks for constraints, reads columns
and says which placeholders are not null. A property that each of these steps has, and two steps in a
row if each of them has it, the forms have that are made of them.

- `KeptByForms.reference`, `KeptByForms.star`, ...: forms that say nothing of a placeholder.
- `KeptByForcing.compare`, `KeptByForcing.bound`, ...: forms that say that a placeholder is not null.
- `KeptByForcing.call`: calls, if widenings have the property as well.
-/

/-- A property that steps in a row have if each of them has it, and that making a variable has, and
asking for a constraint that is no plain widening. -/
structure KeptByForms (P : ∀ {α : Type}, Analyze α → Prop) : Prop where
  pure : ∀ {α : Type} (a : α), P (Pure.pure a : Analyze α)
  throw : ∀ {α : Type} (e : AnalysisError), P (MonadExcept.throw e : Analyze α)
  get : P (MonadState.get : Analyze Run)
  bind : ∀ {α β : Type} {step : Analyze α} {next : α → Analyze β}, P step → (∀ a, P (next a)) →
    P (step >>= next)
  fresh : ∀ (label : String) (info : TypeInfo), P (QuerySignature.fresh label info)
  demand : ∀ c : Constraint, (c.strength = .widest → c.coercion ≠ none) → P (QuerySignature.demand c)

/-- A property that saying whether a placeholder is null has, too. -/
structure KeptByForcing (P : ∀ {α : Type}, Analyze α → Prop) : Prop extends KeptByForms P where
  setNotNull : ∀ (index : Nat) (notNull : Bool), P (QuerySignature.setNotNull index notNull)

namespace KeptByForms

variable {P : ∀ {α : Type}, Analyze α → Prop} (h : KeptByForms P)

include h

/-! ## Steps -/

theorem freshExact (label : String) (type : SqlType) : P (QuerySignature.freshExact label type) :=
  h.fresh label (.exact type)

theorem strict (label : String) (left right : TypeTerm) :
    P (QuerySignature.demand (.strict label left right)) :=
  h.demand _ (by simp [Constraint.strict])

theorem bestEffort (label : String) (left right : TypeVar) :
    P (QuerySignature.demand (.bestEffort label left right)) :=
  h.demand _ (by simp [Constraint.bestEffort])

theorem coerced (label : String) (coercion : Coercion) (left right : TypeVar) :
    P (QuerySignature.demand (.widest label (some coercion) left right)) :=
  h.demand _ (by simp [Constraint.widest])

theorem lift {α : Type} (x : Except AnalysisError α) : P (QuerySignature.lift x) := by
  cases x with
  | error e => exact h.throw e
  | ok a => exact h.pure a

theorem reference (column : SourceColumn) : P (QuerySignature.reference column) := by
  unfold QuerySignature.reference
  split
  · exact h.bind (h.fresh _ _) fun _ => h.bind (h.bestEffort _ _ _) fun _ => h.pure _
  · exact h.fresh _ _

theorem resolve (scope : Scope) (c : ColumnRef) : P (QuerySignature.resolve scope c) := by
  unfold QuerySignature.resolve
  split
  · exact h.pure _
  · exact h.throw _

theorem freshColumns (aliasName : String) (records : List ColumnRecord) :
    P (QuerySignature.freshColumns aliasName records) := by
  induction records with
  | nil => exact h.pure _
  | cons record rest ih => exact h.bind (h.freshExact _ _) fun _ => h.bind ih fun _ => h.pure _

theorem tableColumns (schema : Schema) (name : String) (aliasName : Option String) :
    P (QuerySignature.tableColumns schema name aliasName) := by
  refine h.bind h.get fun run => ?_
  split
  · exact h.pure _
  · split
    · exact h.freshColumns _ _
    · exact h.throw _

/-! ## Forms -/

theorem predicate (setting : Setting) (label : String) :
    P (QuerySignature.predicate setting label) :=
  h.bind (h.freshExact _ _) fun _ => h.pure _

theorem literal (profile : Profile) (value : Literal) : P (inferLiteral profile value) := by
  cases value <;> exact h.bind (h.fresh _ _) fun _ => h.pure _

theorem column (scope : Scope) (c : ColumnRef) : P (inferColumn scope c) :=
  h.bind (h.resolve scope c) fun _ => h.bind (h.reference _) fun _ => h.pure _

theorem arithmetic (label : String) (left right : Inferred) :
    P (inferArithmetic label left right) :=
  h.bind (h.fresh _ _) fun _ => h.bind (h.coerced _ _ _ _) fun _ =>
    h.bind (h.coerced _ _ _ _) fun _ => h.bind (h.coerced _ _ _ _) fun _ => h.pure _

theorem firstColumn (text : String) (result : QueryResult) :
    P (QuerySignature.firstColumn text result) := by
  unfold QuerySignature.firstColumn
  split
  · exact h.pure _
  · exact h.throw _

theorem inQuery (setting : Setting) (label : String) (value : Inferred) (column : OutputColumn) :
    P (inferInQuery setting label value column) :=
  h.bind (h.strict _ _ _) fun _ => h.predicate _ _

theorem star (level : Level) : P (inferStar level) := by
  induction level with
  | nil => exact h.pure _
  | cons column rest ih =>
    have hcolumn : P (inferStarColumn column) := h.bind (h.reference _) fun _ => h.pure _
    exact h.bind hcolumn fun _ => h.bind ih fun _ => h.pure _

/-! ## Rules of functions -/

theorem texts (label : String) (var : TypeVar) (es : List Inferred) :
    P (demandText label var es) := by
  induction es with
  | nil => exact h.pure _
  | cons e rest ih => exact h.bind (h.bestEffort _ _ _) fun _ => ih

theorem concat (profile : Profile) (label : String) (es : List Inferred) :
    P (inferConcat profile label es) :=
  h.bind (h.freshExact _ _) fun _ => h.bind (h.texts _ _ _) fun _ => h.pure _

/-- The widenings of a choice are plain. -/
theorem choice {label : String}
    (hwidest : ∀ left right, P (QuerySignature.demand (.widest label none left right)))
    (es : List Inferred) (notNull : Bool) : P (inferChoice label es notNull) := by
  have hall : ∀ (var : TypeVar) (es : List Inferred), P (demandWidest label var es) := by
    intro var es
    induction es with
    | nil => exact h.pure _
    | cons e rest ih => exact h.bind (hwidest _ _) fun _ => ih
  exact h.bind (h.fresh _ _) fun _ => h.bind (hall _ _) fun _ => h.pure _

theorem extreme (label : String) (e : Inferred) : P (inferExtreme label e) :=
  h.bind (h.fresh _ _) fun _ => h.bind (h.bestEffort _ _ _) fun _ => h.pure _

theorem sum (label : String) (e : Inferred) : P (inferSum label e) :=
  h.bind (h.fresh _ _) fun _ => h.bind (h.coerced _ _ _ _) fun _ => h.pure _

theorem avg (profile : Profile) (label : String) (e : Inferred) : P (inferAvg profile label e) :=
  h.bind (h.fresh _ _) fun _ => h.bind (h.bestEffort _ _ _) fun _ =>
    h.bind (h.freshExact _ _) fun _ => h.pure _

theorem round (profile : Profile) (label : String) (e : Inferred) (digits : Option Inferred) :
    P (inferRound profile label e digits) := by
  refine h.bind (h.fresh _ _) fun _ => h.bind (h.strict _ _ _) fun _ => ?_
  cases digits with
  | none => exact h.pure _
  | some digits =>
    exact h.bind (h.freshExact _ _) fun _ => h.bind (h.bestEffort _ _ _) fun _ => h.pure _

theorem floor (profile : Profile) (label : String) (e : Inferred) :
    P (inferFloor profile label e) :=
  h.bind (h.freshExact _ _) fun _ => h.bind (h.bestEffort _ _ _) fun _ =>
    h.bind (h.freshExact _ _) fun _ => h.pure _

theorem text (profile : Profile) (label : String) (e : Inferred) : P (inferText profile label e) :=
  h.bind (h.freshExact _ _) fun _ => h.bind (h.bestEffort _ _ _) fun _ => h.pure _

theorem length (profile : Profile) (label : String) (e : Inferred) :
    P (inferLength profile label e) :=
  h.bind (h.freshExact _ _) fun _ => h.bind (h.bestEffort _ _ _) fun _ =>
    h.bind (h.freshExact _ _) fun _ => h.pure _

/-- A rule has the property if the widenings have it in case it is a choice, and if rules on dates have
it in case it is one. -/
theorem ofRule {profile : Profile} {label : String} {es : List Inferred} {f : SqlFunction}
    {rule : Analyze Inferred} (hrule : RuleForm profile label es f rule)
    (hwidest : f = .coalesce ∨ f = .ifNull →
      ∀ left right, P (QuerySignature.demand (.widest label none left right)))
    (hdate : f = .date ∨ f = .time ∨ f = .dateTime ∨ f = .strftime →
      ∀ e, P (inferDate profile label e)) : P rule := by
  cases hrule with
  | count => exact h.bind (h.freshExact _ _) fun _ => h.pure _
  | concat => exact h.concat _ _ _
  | choice isChoice => exact h.choice (hwidest isChoice) _ _
  | date isDate => exact hdate isDate _
  | sum => exact h.sum _ _
  | avg => exact h.avg _ _ _
  | extreme => exact h.extreme _ _
  | round => exact h.round _ _ _ _
  | floor => exact h.floor _ _ _
  | text => exact h.text _ _ _
  | length => exact h.length _ _ _

end KeptByForms

namespace KeptByForcing

variable {P : ∀ {α : Type}, Analyze α → Prop} (h : KeptByForcing P)

include h

/-! ## Forms that force -/

theorem forceNotNull (e : Inferred) : P (QuerySignature.forceNotNull e) := by
  unfold QuerySignature.forceNotNull
  split
  · exact h.setNotNull _ _
  · exact h.pure _

theorem matchNull (place : Option Nat) (column : SourceColumn) :
    P (QuerySignature.matchNull place column) := by
  unfold QuerySignature.matchNull
  split
  · exact h.setNotNull _ _
  · exact h.pure _

theorem compare (setting : Setting) (label : String) (left right : Inferred) :
    P (inferCompare setting label left right) :=
  h.bind (h.strict _ _ _) fun _ => h.bind (h.forceNotNull _) fun _ =>
    h.bind (h.forceNotNull _) fun _ => h.predicate _ _

theorem between (setting : Setting) (label : String) (value low high : Inferred) :
    P (inferBetween setting label value low high) :=
  h.bind (h.strict _ _ _) fun _ => h.bind (h.strict _ _ _) fun _ =>
    h.bind (h.forceNotNull _) fun _ => h.bind (h.forceNotNull _) fun _ =>
      h.bind (h.forceNotNull _) fun _ => h.predicate _ _

theorem forceAllNotNull (es : List Inferred) : P (QuerySignature.forceAllNotNull es) := by
  induction es with
  | nil => exact h.pure _
  | cons e rest ih => exact h.bind (h.forceNotNull e) fun _ => ih

theorem inList (setting : Setting) (label : String) (value : Inferred) (items : List Inferred) :
    P (inferInList setting label value items) :=
  h.bind (h.demand _ (by simp [Constraint.strict])) fun _ =>
    h.bind (h.forceAllNotNull _) fun _ => h.predicate _ _

theorem like (setting : Setting) (label : String) (value pattern : Inferred) :
    P (inferLike setting label value pattern) :=
  h.bind (h.freshExact _ _) fun _ => h.bind (h.bestEffort _ _ _) fun _ =>
    h.bind (h.bestEffort _ _ _) fun _ => h.bind (h.forceNotNull _) fun _ =>
      h.bind (h.forceNotNull _) fun _ => h.predicate _ _

theorem caseWhen (setting : Setting) (label : String) (operand : Option Inferred)
    (condition : Inferred) : P (inferWhen setting label operand condition) := by
  cases operand with
  | some operand => exact h.bind (h.strict _ _ _) fun _ => h.forceNotNull _
  | none => exact h.bind (h.freshExact _ _) fun _ => h.bestEffort _ _ _

theorem bound (setting : Setting) (label : String) (e : Inferred) :
    P (inferBound setting label e) :=
  h.bind (h.freshExact _ _) fun _ => h.bind (h.strict _ _ _) fun _ => h.forceNotNull _

theorem date (profile : Profile) (label : String) (e : Inferred) :
    P (inferDate profile label e) :=
  h.bind (h.freshExact _ _) fun _ => h.bind (h.bestEffort _ _ _) fun _ =>
    h.bind (h.forceNotNull _) fun _ => h.bind (h.freshExact _ _) fun _ => h.pure _

theorem call {label : String}
    (hwidest : ∀ left right, P (QuerySignature.demand (.widest label none left right)))
    (profile : Profile) (function : String) (es : List Inferred) :
    P (inferCall profile function label es) := by
  obtain ⟨e, heq⟩ | ⟨f, rule, -, -, hrule, heq⟩ := inferCall_cases profile function label es
  · rw [heq]
    exact h.throw e
  · have hforms : P rule := h.ofRule (SqlFunction.ruleForm hrule) (fun _ => hwidest) fun _ e =>
      h.date profile label e
    rw [heq]
    exact h.bind hforms fun _ => h.pure _

/-! ## Rows that are written -/

theorem bindTargets (targets : Level) (values : List Written) :
    P (QuerySignature.bindTargets targets values) := by
  induction targets generalizing values with
  | nil => exact h.pure _
  | cons target targets ih =>
    cases values with
    | nil => exact h.pure _
    | cons value values =>
      exact h.bind (h.reference _) fun _ => h.bind (h.matchNull _ _) fun _ =>
        h.bind (ih values) fun _ => h.pure _

theorem bindRow (label : String) (targets : Level) (values : List Written) :
    P (QuerySignature.bindRow label targets values) :=
  h.bind (h.bindTargets _ _) fun _ => h.strict _ _ _

end KeptByForcing

end QuerySignature
