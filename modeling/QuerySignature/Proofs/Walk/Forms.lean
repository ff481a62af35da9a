import QuerySignature.Proofs.Walk.Parallel
import QuerySignature.Proofs.Walk.Rules

namespace QuerySignature

/-! # Forms of expressions side by side

What each form of an expression adds to a walk, from the parts that have been analysed: matching
parts give matching results.

- `Parallel.call`: calls of a function match when their arguments do.
-/

/-! ## Matching constraints -/

namespace Constraint.Matches

variable {ρ : Renaming} {made : List TypeInfo} {v v' w w' : TypeVar}

theorem strict (label : String) (hv : v.Matches ρ made v') (hw : w.Matches ρ made w') :
    Constraint.Matches ρ made (.strict label (.var v) (.var w))
      (.strict label (.var v') (.var w')) :=
  ⟨rfl, rfl, rfl, .cons ⟨hv, hw⟩ .nil⟩

theorem bestEffort (label : String) (hv : v.Matches ρ made v') (hw : w.Matches ρ made w') :
    Constraint.Matches ρ made (.bestEffort label v w) (.bestEffort label v' w') :=
  ⟨rfl, rfl, rfl, .cons ⟨hv, hw⟩ .nil⟩

theorem widest (label : String) (coercion : Option Coercion) (hv : v.Matches ρ made v')
    (hw : w.Matches ρ made w') :
    Constraint.Matches ρ made (.widest label coercion v w) (.widest label coercion v' w') :=
  ⟨rfl, rfl, rfl, .cons ⟨hv, hw⟩ .nil⟩

/-- A variable against a row. -/
theorem row (label : String) (list list' : Bool) {vars vars' : List TypeVar}
    (hv : v.Matches ρ made v') (hvars : List.Forall₂ (TypeVar.Matches ρ made) vars vars') :
    Constraint.Matches ρ made
      { Constraint.strict label (.var v) (.ofVars vars) with list }
      { Constraint.strict label (.var v') (.ofVars vars') with list := list' } := by
  refine ⟨rfl, rfl, rfl, ?_⟩
  show List.Forall₂ _ ((TypeTerm.var v).equations (.ofVars vars))
    ((TypeTerm.var v').equations (.ofVars vars'))
  rw [TypeTerm.equations_var_ofVars, TypeTerm.equations_var_ofVars, List.forall₂_map_left_iff,
    List.forall₂_map_right_iff]
  exact hvars.imp fun _ _ hw => ⟨hv, hw⟩

end Constraint.Matches

theorem TypeVar.Matches.label {ρ : Renaming} {made : List TypeInfo} {v v' : TypeVar}
    (h : v.Matches ρ made v') : v'.label = v.label := by
  rw [h.eq]
  rfl

theorem Inferred.Matches.ofVar {ρ : Renaming} {made : List TypeInfo} {v v' : TypeVar}
    (h : v.Matches ρ made v') (notNull : Bool) :
    Inferred.Matches ρ made (.ofVar v notNull) (.ofVar v' notNull) :=
  ⟨h, rfl, rfl, fun c hc => absurd hc (Option.some_ne_none c).symm, rfl⟩

namespace Parallel

variable {F : Frame} {T : String → Prop} {made : List TypeInfo}
  {e e' l l' h h' : Inferred}

/-! ## Forms -/

theorem predicate (setting : Setting) (label : String) :
    Parallel F T made (Inferred.Matches F.ρ) (QuerySignature.predicate setting label)
      (QuerySignature.predicate setting label) := by
  refine bind (freshExact _ _) fun made₁ _ v v' hv => ?_
  exact pure (.ofVar hv true)

theorem literal (profile : Profile) (value : Literal) :
    Parallel F T made (Inferred.Matches F.ρ) (inferLiteral profile value)
      (inferLiteral profile value) := by
  unfold inferLiteral
  cases value with
  | string _ => exact bind (freshExact _ _) fun _ _ _ _ hv => pure (.ofVar hv true)
  | int _ => exact bind (freshExact _ _) fun _ _ _ _ hv => pure (.ofVar hv true)
  | float _ => exact bind (freshExact _ _) fun _ _ _ _ hv => pure (.ofVar hv true)
  | bool _ => exact bind (fresh _ _) fun _ _ _ _ hv => pure (.ofVar hv true)
  | null => exact bind (fresh _ _) fun _ _ _ _ hv => pure (.ofVar hv false)

/-- A reference to an output column of an inner query is linked to it in both walks, any other
reference in neither. -/
theorem reference {c : SourceColumn} (hc : c.var.Issued made) :
    Parallel F T made (TypeVar.Matches F.ρ) (QuerySignature.reference c)
      (QuerySignature.reference (F.ρ.column c)) := by
  unfold QuerySignature.reference
  have hprojected : (F.ρ.column c).var.projected = c.var.projected := rfl
  rw [hprojected]
  cases c.var.projected with
  | true =>
    refine bind (fresh _ _) fun made₁ hgrows v v' hv => ?_
    refine bind (demand (.bestEffort _ hv ⟨hc.mono hgrows, rfl⟩)) fun made₂ hgrows₂ _ _ _ => ?_
    exact pure (hv.mono hgrows₂)
  | false => exact fresh _ _

theorem resolve {s s' : Scope} (hs : Scope.Matches F.ρ made s s') (c : ColumnRef) :
    Parallel F T made (fun made d d' => d.var.Issued made ∧ d' = F.ρ.column d)
      (QuerySignature.resolve s c) (QuerySignature.resolve s' c) := by
  unfold QuerySignature.resolve
  rw [hs.resolve]
  cases hmeaning : s.resolve c with
  | error e => exact throw e
  | ok column => exact pure ⟨hs.issued_of_resolve hmeaning, rfl⟩

theorem column {s s' : Scope} (hs : Scope.Matches F.ρ made s s') (c : ColumnRef) :
    Parallel F T made (Inferred.Matches F.ρ) (inferColumn s c) (inferColumn s' c) := by
  refine bind (resolve hs c) fun made₁ _ d d' ⟨hissued, hd⟩ => ?_
  subst hd
  refine bind (reference hissued) fun made₂ hgrows v v' hv => ?_
  refine pure ⟨hv, rfl, rfl, ?_, rfl⟩
  rintro _ ⟨⟩
  exact hissued.mono hgrows

theorem arithmetic (label : String) (hl : l.Matches F.ρ made l') (hh : h.Matches F.ρ made h') :
    Parallel F T made (Inferred.Matches F.ρ) (inferArithmetic label l h)
      (inferArithmetic label l' h') := by
  unfold inferArithmetic
  refine bind (fresh _ _) fun made₁ hgrows₁ v v' hv => ?_
  have hl₁ := (hl.mono hgrows₁).var
  have hh₁ := (hh.mono hgrows₁).var
  refine bind (demand (.widest _ _ hl₁ hh₁)) fun made₂ hgrows₂ _ _ _ => ?_
  refine bind (demand (.widest _ _ (hv.mono hgrows₂) (hl₁.mono hgrows₂)))
    fun made₃ hgrows₃ _ _ _ => ?_
  refine bind (demand (.widest _ _ ((hv.mono hgrows₂).mono hgrows₃)
    ((hh₁.mono hgrows₂).mono hgrows₃))) fun made₄ hgrows₄ _ _ _ => ?_
  rw [hl.notNull, hh.notNull]
  exact pure (.ofVar (((hv.mono hgrows₂).mono hgrows₃).mono hgrows₄) _)

theorem compare (setting : Setting) (label : String) (hl : l.Matches F.ρ made l')
    (hh : h.Matches F.ρ made h') :
    Parallel F T made (Inferred.Matches F.ρ) (inferCompare setting label l h)
      (inferCompare setting label l' h') := by
  refine bind (demand (.strict _ hl.var hh.var)) fun _ _ _ _ _ => ?_
  refine bind (forceNotNull hl.placeholder) fun _ _ _ _ _ => ?_
  refine bind (forceNotNull hh.placeholder) fun _ _ _ _ _ => ?_
  exact predicate setting label

theorem between (setting : Setting) (label : String) (he : e.Matches F.ρ made e')
    (hl : l.Matches F.ρ made l') (hh : h.Matches F.ρ made h') :
    Parallel F T made (Inferred.Matches F.ρ) (inferBetween setting label e l h)
      (inferBetween setting label e' l' h') := by
  refine bind (demand (.strict _ he.var hl.var)) fun _ hgrows _ _ _ => ?_
  refine bind (demand (.strict _ (he.mono hgrows).var (hh.mono hgrows).var)) fun _ _ _ _ _ => ?_
  refine bind (forceNotNull he.placeholder) fun _ _ _ _ _ => ?_
  refine bind (forceNotNull hl.placeholder) fun _ _ _ _ _ => ?_
  refine bind (forceNotNull hh.placeholder) fun _ _ _ _ _ => ?_
  exact predicate setting label

theorem forceAllNotNull {es es' : List Inferred}
    (hes : List.Forall₂ (fun e e' => e'.placeholder.isSome = e.placeholder.isSome) es es') :
    Parallel F T made Done (QuerySignature.forceAllNotNull es)
      (QuerySignature.forceAllNotNull es') := by
  induction hes generalizing made with
  | nil => exact pure trivial
  | cons hhead _ ih => exact bind (forceNotNull hhead) fun _ _ _ _ _ => ih

theorem inList (setting : Setting) (label : String) {es es' : List Inferred}
    (he : e.Matches F.ρ made e') (hes : List.Forall₂ (Inferred.Matches F.ρ made) es es') :
    Parallel F T made (Inferred.Matches F.ρ) (inferInList setting label e es)
      (inferInList setting label e' es') := by
  have hvars : List.Forall₂ (TypeVar.Matches F.ρ made) (es.map (·.var)) (es'.map (·.var)) := by
    rw [List.forall₂_map_left_iff, List.forall₂_map_right_iff]
    exact hes.imp fun _ _ h => h.var
  refine bind (demand (.row _ _ _ he.var hvars)) fun _ _ _ _ _ => ?_
  refine bind (forceAllNotNull (hes.imp fun _ _ h => h.placeholder)) fun _ _ _ _ _ => ?_
  exact predicate setting label

theorem firstColumn (text : String) {q q' : QueryResult}
    (hq : List.Forall₂ (OutputColumn.Matches F.ρ made) q.columns q'.columns) :
    Parallel F T made (OutputColumn.Matches F.ρ) (QuerySignature.firstColumn text q)
      (QuerySignature.firstColumn text q') := by
  unfold QuerySignature.firstColumn
  revert hq
  cases q.columns <;> cases q'.columns <;> intro hq
  · exact throw _
  · nomatch hq
  · nomatch hq
  · cases hq with
    | cons hhead _ => exact pure hhead

theorem inQuery (setting : Setting) (label : String) {c c' : OutputColumn}
    (he : e.Matches F.ρ made e') (hc : c.Matches F.ρ made c') :
    Parallel F T made (Inferred.Matches F.ρ) (inferInQuery setting label e c)
      (inferInQuery setting label e' c') := by
  refine bind (demand (.row _ _ _ he.var (.cons hc.var .nil))) fun _ _ _ _ _ => ?_
  exact predicate setting label

theorem like (setting : Setting) (label : String) (he : e.Matches F.ρ made e')
    (hl : l.Matches F.ρ made l') :
    Parallel F T made (Inferred.Matches F.ρ) (inferLike setting label e l)
      (inferLike setting label e' l') := by
  unfold inferLike
  rw [hl.var.label]
  refine bind (freshExact _ _) fun _ hgrows₁ v v' hv => ?_
  have he₁ := he.mono hgrows₁
  have hl₁ := hl.mono hgrows₁
  refine bind (demand (.bestEffort _ hv hl₁.var)) fun _ hgrows₂ _ _ _ => ?_
  refine bind (demand (.bestEffort _ (he₁.mono hgrows₂).var (hl₁.mono hgrows₂).var))
    fun _ _ _ _ _ => ?_
  refine bind (forceNotNull he.placeholder) fun _ _ _ _ _ => ?_
  refine bind (forceNotNull hl.placeholder) fun _ _ _ _ _ => ?_
  exact predicate setting label

theorem when (setting : Setting) (label : String) {operand operand' : Option Inferred}
    (ho : Option.Rel (Inferred.Matches F.ρ made) operand operand') (he : e.Matches F.ρ made e') :
    Parallel F T made Done (inferWhen setting label operand e)
      (inferWhen setting label operand' e') := by
  unfold inferWhen
  cases ho with
  | some ho =>
    refine bind (demand (.strict _ ho.var he.var)) fun _ _ _ _ _ => ?_
    exact forceNotNull he.placeholder
  | none =>
    refine bind (freshExact _ _) fun _ hgrows v v' hv => ?_
    exact demand (.bestEffort _ (he.mono hgrows).var hv)

theorem bound (setting : Setting) (label : String) (he : e.Matches F.ρ made e') :
    Parallel F T made Done (inferBound setting label e) (inferBound setting label e') := by
  refine bind (freshExact _ _) fun _ hgrows v v' hv => ?_
  refine bind (demand (.strict _ hv (he.mono hgrows).var)) fun _ _ _ _ _ => ?_
  exact forceNotNull he.placeholder

/-! ## Calls -/

section Calls

variable {es es' : List Inferred}

theorem demandText (label : String) {v v' : TypeVar} (hv : v.Matches F.ρ made v')
    (hes : List.Forall₂ (Inferred.Matches F.ρ made) es es') :
    Parallel F T made Done (QuerySignature.demandText label v es)
      (QuerySignature.demandText label v' es') := by
  induction es generalizing made es' with
  | nil =>
    cases hes
    exact pure trivial
  | cons first rest ih =>
    cases hes with
    | cons hhead htail =>
      refine bind (demand (.bestEffort _ hv hhead.var)) fun _ hgrows _ _ _ => ?_
      exact ih (hv.mono hgrows) (htail.imp fun _ _ h => h.mono hgrows)

theorem demandWidest (label : String) {v v' : TypeVar} (hv : v.Matches F.ρ made v')
    (hes : List.Forall₂ (Inferred.Matches F.ρ made) es es') :
    Parallel F T made Done (QuerySignature.demandWidest label v es)
      (QuerySignature.demandWidest label v' es') := by
  induction es generalizing made es' with
  | nil =>
    cases hes
    exact pure trivial
  | cons first rest ih =>
    cases hes with
    | cons hhead htail =>
      refine bind (demand (.widest _ _ hv hhead.var)) fun _ hgrows _ _ _ => ?_
      exact ih (hv.mono hgrows) (htail.imp fun _ _ h => h.mono hgrows)

theorem allNotNull_eq (hes : List.Forall₂ (Inferred.Matches F.ρ made) es es') :
    allNotNull es' = allNotNull es :=
  all_eq_of_rel hes fun _ _ he => he.notNull

theorem concat (profile : Profile) (label : String)
    (hes : List.Forall₂ (Inferred.Matches F.ρ made) es es') :
    Parallel F T made (Inferred.Matches F.ρ) (inferConcat profile label es)
      (inferConcat profile label es') := by
  unfold inferConcat
  rw [allNotNull_eq hes]
  refine bind (freshExact _ _) fun _ hgrows₁ v v' hv => ?_
  refine bind (demandText label hv (hes.imp fun _ _ h => h.mono hgrows₁))
    fun _ hgrows₂ _ _ _ => ?_
  exact pure (.ofVar (hv.mono hgrows₂) _)

theorem choice (label : String) (notNull : Bool)
    (hes : List.Forall₂ (Inferred.Matches F.ρ made) es es') :
    Parallel F T made (Inferred.Matches F.ρ) (inferChoice label es notNull)
      (inferChoice label es' notNull) := by
  refine bind (fresh _ _) fun _ hgrows₁ v v' hv => ?_
  refine bind (demandWidest label hv (hes.imp fun _ _ h => h.mono hgrows₁))
    fun _ hgrows₂ _ _ _ => ?_
  exact pure (.ofVar (hv.mono hgrows₂) _)

theorem date (profile : Profile) (label : String) (he : e.Matches F.ρ made e') :
    Parallel F T made (Inferred.Matches F.ρ) (inferDate profile label e)
      (inferDate profile label e') := by
  unfold inferDate
  rw [he.var.label]
  refine bind (freshExact _ _) fun _ hgrows v v' hv => ?_
  refine bind (demand (.bestEffort _ hv (he.mono hgrows).var)) fun _ _ _ _ _ => ?_
  refine bind (forceNotNull he.placeholder) fun _ _ _ _ _ => ?_
  exact bind (freshExact _ _) fun _ _ _ _ hresult => pure (.ofVar hresult false)

theorem sum (label : String) (he : e.Matches F.ρ made e') :
    Parallel F T made (Inferred.Matches F.ρ) (inferSum label e) (inferSum label e') := by
  refine bind (fresh _ _) fun _ hgrows₁ v v' hv => ?_
  refine bind (demand (.widest _ _ hv (he.mono hgrows₁).var)) fun _ hgrows₂ _ _ _ => ?_
  exact pure (.ofVar (hv.mono hgrows₂) false)

theorem avg (profile : Profile) (label : String) (he : e.Matches F.ρ made e') :
    Parallel F T made (Inferred.Matches F.ρ) (inferAvg profile label e)
      (inferAvg profile label e') := by
  refine bind (fresh _ _) fun _ hgrows v v' hv => ?_
  refine bind (demand (.bestEffort _ (he.mono hgrows).var hv)) fun _ _ _ _ _ => ?_
  exact bind (freshExact _ _) fun _ _ _ _ hresult => pure (.ofVar hresult false)

theorem extreme (label : String) (he : e.Matches F.ρ made e') :
    Parallel F T made (Inferred.Matches F.ρ) (inferExtreme label e) (inferExtreme label e') := by
  unfold inferExtreme
  rw [he.notNull]
  refine bind (fresh _ _) fun _ hgrows₁ v v' hv => ?_
  refine bind (demand (.bestEffort _ hv (he.mono hgrows₁).var)) fun _ hgrows₂ _ _ _ => ?_
  exact pure (.ofVar (hv.mono hgrows₂) _)

theorem round (profile : Profile) (label : String) {digits digits' : Option Inferred}
    (he : e.Matches F.ρ made e')
    (hd : Option.Rel (Inferred.Matches F.ρ made) digits digits') :
    Parallel F T made (Inferred.Matches F.ρ) (inferRound profile label e digits)
      (inferRound profile label e' digits') := by
  unfold inferRound
  refine bind (fresh _ _) fun _ hgrows₁ v v' hv => ?_
  refine bind (demand (.strict _ hv (he.mono hgrows₁).var)) fun _ hgrows₂ _ _ _ => ?_
  have hv₂ := hv.mono hgrows₂
  rw [he.notNull]
  cases hd with
  | none => exact pure (.ofVar hv₂ _)
  | some hd =>
    simp only [hd.notNull, hd.var.label]
    refine bind (freshExact _ _) fun _ hgrows₃ w w' hw => ?_
    have hd₃ := ((hd.mono hgrows₁).mono hgrows₂).mono hgrows₃
    refine bind (demand (.bestEffort _ hd₃.var hw)) fun _ hgrows₄ _ _ _ => ?_
    exact pure (.ofVar ((hv₂.mono hgrows₃).mono hgrows₄) _)

theorem floor (profile : Profile) (label : String) (he : e.Matches F.ρ made e') :
    Parallel F T made (Inferred.Matches F.ρ) (inferFloor profile label e)
      (inferFloor profile label e') := by
  unfold inferFloor
  rw [he.notNull]
  refine bind (freshExact _ _) fun _ hgrows v v' hv => ?_
  refine bind (demand (.bestEffort _ (he.mono hgrows).var hv)) fun _ _ _ _ _ => ?_
  exact bind (freshExact _ _) fun _ _ _ _ hresult => pure (.ofVar hresult _)

theorem text (profile : Profile) (label : String) (he : e.Matches F.ρ made e') :
    Parallel F T made (Inferred.Matches F.ρ) (inferText profile label e)
      (inferText profile label e') := by
  unfold inferText
  rw [he.notNull]
  refine bind (freshExact _ _) fun _ hgrows₁ v v' hv => ?_
  refine bind (demand (.bestEffort _ hv (he.mono hgrows₁).var)) fun _ hgrows₂ _ _ _ => ?_
  exact pure (.ofVar (hv.mono hgrows₂) _)

theorem length (profile : Profile) (label : String) (he : e.Matches F.ρ made e') :
    Parallel F T made (Inferred.Matches F.ρ) (inferLength profile label e)
      (inferLength profile label e') := by
  unfold inferLength
  rw [he.notNull]
  refine bind (freshExact _ _) fun _ hgrows v v' hv => ?_
  refine bind (demand (.bestEffort _ hv (he.mono hgrows).var)) fun _ _ _ _ _ => ?_
  exact bind (freshExact _ _) fun _ _ _ _ hresult => pure (.ofVar hresult _)

/-- The rules of a function for matching arguments. -/
theorem rules (profile : Profile) (label : String) (f : SqlFunction)
    (hes : List.Forall₂ (Inferred.Matches F.ρ made) es es') :
    RulesAgree profile label label f (Inferred.Matches F.ρ made) es es'
      (Parallel F T made (Inferred.Matches F.ρ)) where
  arguments := hes
  notNull he := he.notNull
  placeholder he := by rw [← Option.not_isSome, ← Option.not_isSome, he.placeholder]
  count := bind (freshExact _ _) fun _ _ _ _ hv => pure (.ofVar hv true)
  concat := concat profile label hes
  choice _ notNull := choice label notNull hes
  date _ _ _ he := date profile label he
  sum he := sum label he
  avg he := avg profile label he
  extreme he := extreme label he
  round he hdigits := round profile label he hdigits
  floor he := floor profile label he
  text he := text profile label he
  length he := length profile label he

/-- A call of a function of matching arguments. -/
theorem call (profile : Profile) (function label : String)
    (hes : List.Forall₂ (Inferred.Matches F.ρ made) es es') :
    Parallel F T made (Inferred.Matches F.ρ) (inferCall profile function label es)
      (inferCall profile function label es') := by
  unfold inferCall
  cases SqlFunction.ofName? function with
  | none => exact throw _
  | some f =>
    have hlength : es'.length = es.length := hes.length_eq.symm
    simp only [hlength]
    split
    · -- with as many arguments, both calls have a rule or neither has one
      have hrules := (rules (T := T) profile label f hes).rule?
      generalize f.rule? profile label es = rule, f.rule? profile label es' = rule' at hrules
      cases hrules with
      | none => exact throw _
      | some hstep =>
        refine bind hstep fun made₁ _ result result' hresult => ?_
        exact pure ⟨hresult.var, hresult.notNull, hresult.placeholder, hresult.sourceIssued,
          hresult.source⟩
    · exact throw _

end Calls

end Parallel

end QuerySignature
