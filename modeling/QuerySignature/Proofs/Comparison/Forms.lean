import QuerySignature.Analysis.Write
import QuerySignature.Proofs.Comparison.Steps
import QuerySignature.Proofs.Walk.Rules

namespace QuerySignature

/-! # Forms, compared

The forms of expressions and queries go alike in two walks, from parts of which the same is found out,
and so does the writing of values into columns.

- `Comparison.compare`, `Comparison.inList`, `Comparison.bound`, ...: one form each.
- `Comparison.call`: a call of a function.
- `Comparison.star`: what a star stands for.
- `Comparison.bindRow`: a row of values on its way into columns.
-/

/-- Values on their way into a column of which the same is found out. -/
structure Written.Compared (L : Likeness) (w w' : Written) : Prop where
  var : L.Var w.var w'.var
  placeholder : Option.Rel L.Place w.placeholder w'.placeholder

namespace Comparison

variable (K : Comparison) {e e' l l' h h' : Inferred} {es es' : List Inferred}
  {label label' : String}

/-! ## Forms -/

theorem predicate (setting : Setting) (hlabel : K.Label label label') :
    K.Step (Inferred.Compared K.toLikeness) (QuerySignature.predicate setting label)
      (QuerySignature.predicate setting label') :=
  K.bind (K.freshExact hlabel _) fun _ _ hv => K.pure (.ofVar hv true)

theorem literal (profile : Profile) (value : Literal) :
    K.Step (Inferred.Compared K.toLikeness) (inferLiteral profile value)
      (inferLiteral profile value) := by
  have hlabel := K.sameLabel value.text
  cases value with
  | string _ => exact K.bind (K.freshExact hlabel _) fun _ _ hv => K.pure (.ofVar hv true)
  | int _ => exact K.bind (K.freshExact hlabel _) fun _ _ hv => K.pure (.ofVar hv true)
  | float _ => exact K.bind (K.freshExact hlabel _) fun _ _ hv => K.pure (.ofVar hv true)
  | bool _ => exact K.bind (K.fresh _ hlabel) fun _ _ hv => K.pure (.ofVar hv true)
  | null => exact K.bind (K.fresh _ hlabel) fun _ _ hv => K.pure (.ofVar hv false)

theorem arithmetic (hlabel : K.Label label label') (hl : l.Compared K.toLikeness l')
    (hh : h.Compared K.toLikeness h') :
    K.Step (Inferred.Compared K.toLikeness) (inferArithmetic label l h)
      (inferArithmetic label' l' h') := by
  refine K.bind (K.fresh _ hlabel) fun v v' hv => ?_
  refine K.bind (K.demand (.widest hlabel _ hl.var hh.var)) fun _ _ _ => ?_
  refine K.bind (K.demand (.widest hlabel _ hv hl.var)) fun _ _ _ => ?_
  refine K.bind (K.demand (.widest hlabel _ hv hh.var)) fun _ _ _ => ?_
  rw [hl.notNull, hh.notNull]
  exact K.pure (.ofVar hv _)

theorem compare (setting : Setting) (hlabel : K.Label label label')
    (hl : l.Compared K.toLikeness l') (hh : h.Compared K.toLikeness h') :
    K.Step (Inferred.Compared K.toLikeness) (inferCompare setting label l h)
      (inferCompare setting label' l' h') := by
  refine K.bind (K.demand (.strict hlabel hl.var hh.var)) fun _ _ _ => ?_
  refine K.bind (K.forceNotNull hl) fun _ _ _ => ?_
  refine K.bind (K.forceNotNull hh) fun _ _ _ => ?_
  exact K.predicate setting hlabel

theorem between (setting : Setting) (hlabel : K.Label label label')
    (he : e.Compared K.toLikeness e') (hl : l.Compared K.toLikeness l')
    (hh : h.Compared K.toLikeness h') :
    K.Step (Inferred.Compared K.toLikeness) (inferBetween setting label e l h)
      (inferBetween setting label' e' l' h') := by
  refine K.bind (K.demand (.strict hlabel he.var hl.var)) fun _ _ _ => ?_
  refine K.bind (K.demand (.strict hlabel he.var hh.var)) fun _ _ _ => ?_
  refine K.bind (K.forceNotNull he) fun _ _ _ => ?_
  refine K.bind (K.forceNotNull hl) fun _ _ _ => ?_
  refine K.bind (K.forceNotNull hh) fun _ _ _ => ?_
  exact K.predicate setting hlabel

theorem forceAllNotNull (hes : List.Forall₂ (Inferred.Compared K.toLikeness) es es') :
    K.Step Done (QuerySignature.forceAllNotNull es) (QuerySignature.forceAllNotNull es') := by
  induction hes with
  | nil => exact K.pure trivial
  | cons hhead _ ih => exact K.bind (K.forceNotNull hhead) fun _ _ _ => ih

theorem inList (setting : Setting) (hlabel : K.Label label label')
    (he : e.Compared K.toLikeness e')
    (hes : List.Forall₂ (Inferred.Compared K.toLikeness) es es') :
    K.Step (Inferred.Compared K.toLikeness) (inferInList setting label e es)
      (inferInList setting label' e' es') := by
  have hvars : List.Forall₂ K.Var (es.map (·.var)) (es'.map (·.var)) :=
    List.rel_map (fun _ _ h => h.var) hes
  refine K.bind (K.demand (.row hlabel _ _ he.var hvars)) fun _ _ _ => ?_
  refine K.bind (K.forceAllNotNull hes) fun _ _ _ => ?_
  exact K.predicate setting hlabel

/-- A query without columns has no value in both walks. -/
theorem firstColumn (hlabel : K.Label label label') {q q' : QueryResult}
    (hq : List.Forall₂ (OutputColumn.Compared K.toLikeness) q.columns q'.columns) :
    K.Step (OutputColumn.Compared K.toLikeness) (QuerySignature.firstColumn label q)
      (QuerySignature.firstColumn label' q') := by
  unfold QuerySignature.firstColumn
  generalize q.columns = cs, q'.columns = cs' at hq
  cases hq with
  | nil => exact K.throw (K.unsupported hlabel)
  | cons hhead _ => exact K.pure hhead

theorem inQuery (setting : Setting) (hlabel : K.Label label label') {c c' : OutputColumn}
    (he : e.Compared K.toLikeness e') (hc : c.Compared K.toLikeness c') :
    K.Step (Inferred.Compared K.toLikeness) (inferInQuery setting label e c)
      (inferInQuery setting label' e' c') := by
  refine K.bind (K.demand (.row hlabel _ _ he.var (.cons hc.var .nil))) fun _ _ _ => ?_
  exact K.predicate setting hlabel

theorem like (setting : Setting) (hlabel : K.Label label label')
    (he : e.Compared K.toLikeness e') (hl : l.Compared K.toLikeness l') :
    K.Step (Inferred.Compared K.toLikeness) (inferLike setting label e l)
      (inferLike setting label' e' l') := by
  refine K.bind (K.freshExact (K.label hl.var) _) fun v v' hv => ?_
  refine K.bind (K.demand (.bestEffort hlabel hv hl.var)) fun _ _ _ => ?_
  refine K.bind (K.demand (.bestEffort hlabel he.var hl.var)) fun _ _ _ => ?_
  refine K.bind (K.forceNotNull he) fun _ _ _ => ?_
  refine K.bind (K.forceNotNull hl) fun _ _ _ => ?_
  exact K.predicate setting hlabel

theorem when (setting : Setting) (hlabel : K.Label label label') {operand operand' : Option Inferred}
    (ho : Option.Rel (Inferred.Compared K.toLikeness) operand operand')
    (he : e.Compared K.toLikeness e') :
    K.Step Done (inferWhen setting label operand e) (inferWhen setting label' operand' e') := by
  unfold inferWhen
  cases ho with
  | some ho =>
    exact K.bind (K.demand (.strict hlabel ho.var he.var)) fun _ _ _ => K.forceNotNull he
  | none =>
    refine K.bind (K.freshExact hlabel _) fun v v' hv => ?_
    exact K.demand (.bestEffort hlabel he.var hv)

theorem bound (setting : Setting) (hlabel : K.Label label label') (he : e.Compared K.toLikeness e') :
    K.Step Done (inferBound setting label e) (inferBound setting label' e') := by
  refine K.bind (K.freshExact hlabel _) fun v v' hv => ?_
  exact K.bind (K.demand (.strict hlabel hv he.var)) fun _ _ _ => K.forceNotNull he

/-! ## Stars -/

theorem starColumn {c c' : SourceColumn} (hc : K.Column c c') :
    K.Step (OutputColumn.Compared K.toLikeness) (inferStarColumn c) (inferStarColumn c') := by
  refine K.bind (K.reference hc) fun v v' hv => ?_
  exact K.pure (.ofInferred (K.name hc) (.ofColumn hv hc))

theorem star {level level' : Level} (hlevel : List.Forall₂ K.Column level level') :
    K.Step (List.Forall₂ (OutputColumn.Compared K.toLikeness)) (inferStar level)
      (inferStar level') := by
  induction hlevel with
  | nil => exact K.pure .nil
  | cons hc _ ih =>
    refine K.bind (K.starColumn hc) fun o o' ho => ?_
    exact K.bind ih fun os os' hos => K.pure (.cons ho hos)

/-! ## Calls -/

theorem demandText (hlabel : K.Label label label') {v v' : TypeVar} (hv : K.Var v v')
    (hes : List.Forall₂ (Inferred.Compared K.toLikeness) es es') :
    K.Step Done (QuerySignature.demandText label v es)
      (QuerySignature.demandText label' v' es') := by
  induction hes with
  | nil => exact K.pure trivial
  | cons hhead _ ih =>
    exact K.bind (K.demand (.bestEffort hlabel hv hhead.var)) fun _ _ _ => ih

theorem demandWidest (hlabel : K.Label label label') {v v' : TypeVar} (hv : K.Var v v')
    (hes : List.Forall₂ (Inferred.Compared K.toLikeness) es es') :
    K.Step Done (QuerySignature.demandWidest label v es)
      (QuerySignature.demandWidest label' v' es') := by
  induction hes with
  | nil => exact K.pure trivial
  | cons hhead _ ih =>
    exact K.bind (K.demand (.widest hlabel _ hv hhead.var)) fun _ _ _ => ih

omit K in
theorem allNotNull_eq {L : Likeness} (hes : List.Forall₂ (Inferred.Compared L) es es') :
    allNotNull es' = allNotNull es :=
  all_eq_of_rel hes fun _ _ he => he.notNull

theorem concat (profile : Profile) (hlabel : K.Label label label')
    (hes : List.Forall₂ (Inferred.Compared K.toLikeness) es es') :
    K.Step (Inferred.Compared K.toLikeness) (inferConcat profile label es)
      (inferConcat profile label' es') := by
  unfold inferConcat
  rw [allNotNull_eq hes]
  refine K.bind (K.freshExact hlabel _) fun v v' hv => ?_
  exact K.bind (K.demandText hlabel hv hes) fun _ _ _ => K.pure (.ofVar hv _)

theorem choice (hlabel : K.Label label label') (notNull : Bool)
    (hes : List.Forall₂ (Inferred.Compared K.toLikeness) es es') :
    K.Step (Inferred.Compared K.toLikeness) (inferChoice label es notNull)
      (inferChoice label' es' notNull) := by
  refine K.bind (K.fresh _ hlabel) fun v v' hv => ?_
  exact K.bind (K.demandWidest hlabel hv hes) fun _ _ _ => K.pure (.ofVar hv _)

theorem date (profile : Profile) (hlabel : K.Label label label')
    (he : e.Compared K.toLikeness e') :
    K.Step (Inferred.Compared K.toLikeness) (inferDate profile label e)
      (inferDate profile label' e') := by
  have hargument := K.label he.var
  refine K.bind (K.freshExact hargument _) fun v v' hv => ?_
  refine K.bind (K.demand (.bestEffort hargument hv he.var)) fun _ _ _ => ?_
  refine K.bind (K.forceNotNull he) fun _ _ _ => ?_
  exact K.bind (K.freshExact hlabel _) fun _ _ hresult => K.pure (.ofVar hresult false)

theorem sum (hlabel : K.Label label label') (he : e.Compared K.toLikeness e') :
    K.Step (Inferred.Compared K.toLikeness) (inferSum label e) (inferSum label' e') := by
  refine K.bind (K.fresh _ hlabel) fun v v' hv => ?_
  exact K.bind (K.demand (.widest hlabel _ hv he.var)) fun _ _ _ => K.pure (.ofVar hv false)

theorem avg (profile : Profile) (hlabel : K.Label label label')
    (he : e.Compared K.toLikeness e') :
    K.Step (Inferred.Compared K.toLikeness) (inferAvg profile label e)
      (inferAvg profile label' e') := by
  refine K.bind (K.fresh _ hlabel) fun v v' hv => ?_
  refine K.bind (K.demand (.bestEffort hlabel he.var hv)) fun _ _ _ => ?_
  exact K.bind (K.freshExact hlabel _) fun _ _ hresult => K.pure (.ofVar hresult false)

theorem extreme (hlabel : K.Label label label') (he : e.Compared K.toLikeness e') :
    K.Step (Inferred.Compared K.toLikeness) (inferExtreme label e) (inferExtreme label' e') := by
  unfold inferExtreme
  rw [he.notNull]
  refine K.bind (K.fresh _ hlabel) fun v v' hv => ?_
  exact K.bind (K.demand (.bestEffort hlabel hv he.var)) fun _ _ _ => K.pure (.ofVar hv _)

theorem round (profile : Profile) (hlabel : K.Label label label') {digits digits' : Option Inferred}
    (he : e.Compared K.toLikeness e')
    (hd : Option.Rel (Inferred.Compared K.toLikeness) digits digits') :
    K.Step (Inferred.Compared K.toLikeness) (inferRound profile label e digits)
      (inferRound profile label' e' digits') := by
  unfold inferRound
  rw [he.notNull]
  refine K.bind (K.fresh _ hlabel) fun v v' hv => ?_
  refine K.bind (K.demand (.strict hlabel hv he.var)) fun _ _ _ => ?_
  cases hd with
  | none => exact K.pure (.ofVar hv _)
  | some hd =>
    have hdigits := K.label hd.var
    simp only [hd.notNull]
    refine K.bind (K.freshExact hlabel _) fun w w' hw => ?_
    exact K.bind (K.demand (.bestEffort hdigits hd.var hw)) fun _ _ _ => K.pure (.ofVar hv _)

theorem floor (profile : Profile) (hlabel : K.Label label label')
    (he : e.Compared K.toLikeness e') :
    K.Step (Inferred.Compared K.toLikeness) (inferFloor profile label e)
      (inferFloor profile label' e') := by
  unfold inferFloor
  rw [he.notNull]
  refine K.bind (K.freshExact hlabel _) fun v v' hv => ?_
  refine K.bind (K.demand (.bestEffort hlabel he.var hv)) fun _ _ _ => ?_
  exact K.bind (K.freshExact hlabel _) fun _ _ hresult => K.pure (.ofVar hresult _)

theorem text (profile : Profile) (hlabel : K.Label label label')
    (he : e.Compared K.toLikeness e') :
    K.Step (Inferred.Compared K.toLikeness) (inferText profile label e)
      (inferText profile label' e') := by
  unfold inferText
  rw [he.notNull]
  refine K.bind (K.freshExact hlabel _) fun v v' hv => ?_
  exact K.bind (K.demand (.bestEffort hlabel hv he.var)) fun _ _ _ => K.pure (.ofVar hv _)

theorem length (profile : Profile) (hlabel : K.Label label label')
    (he : e.Compared K.toLikeness e') :
    K.Step (Inferred.Compared K.toLikeness) (inferLength profile label e)
      (inferLength profile label' e') := by
  unfold inferLength
  rw [he.notNull]
  refine K.bind (K.freshExact hlabel _) fun v v' hv => ?_
  refine K.bind (K.demand (.bestEffort hlabel hv he.var)) fun _ _ _ => ?_
  exact K.bind (K.freshExact hlabel _) fun _ _ hresult => K.pure (.ofVar hresult _)

/-- The rules of a function for arguments of which the same is found out. -/
theorem rules (profile : Profile) (hlabel : K.Label label label') (f : SqlFunction)
    (hes : List.Forall₂ (Inferred.Compared K.toLikeness) es es') :
    RulesAgree profile label label' f (Inferred.Compared K.toLikeness) es es'
      (K.Step (Inferred.Compared K.toLikeness)) where
  arguments := hes
  notNull he := he.notNull
  placeholder he := he.isNone_placeholder
  count := K.bind (K.freshExact hlabel _) fun _ _ hv => K.pure (.ofVar hv true)
  concat := K.concat profile hlabel hes
  choice _ notNull := K.choice hlabel notNull hes
  date _ _ _ he := K.date profile hlabel he
  sum he := K.sum hlabel he
  avg he := K.avg profile hlabel he
  extreme he := K.extreme hlabel he
  round he hdigits := K.round profile hlabel he hdigits
  floor he := K.floor profile hlabel he
  text he := K.text profile hlabel he
  length he := K.length profile hlabel he

/-- A call of one function, by names that mean the same. -/
theorem call (profile : Profile) {function function' : String} (hlabel : K.Label label label')
    (hfunction : SqlFunction.ofName? function' = SqlFunction.ofName? function)
    (hunknown : K.Refusal (.unknownFunction function) (.unknownFunction function'))
    (hes : List.Forall₂ (Inferred.Compared K.toLikeness) es es') :
    K.Step (Inferred.Compared K.toLikeness) (inferCall profile function label es)
      (inferCall profile function' label' es') := by
  unfold inferCall
  rw [hfunction]
  cases SqlFunction.ofName? function with
  | none => exact K.throw hunknown
  | some f =>
    have hlength : es'.length = es.length := hes.length_eq.symm
    simp only [hlength]
    split
    · -- with as many arguments, both calls have a rule or neither has one
      have hrules := (K.rules profile hlabel f hes).rule?
      generalize f.rule? profile label es = rule, f.rule? profile label' es' = rule' at hrules
      cases hrules with
      | none => exact K.throw (K.sameRefusal _)
      | some hstep =>
        refine K.bind hstep fun result result' hresult => ?_
        refine K.pure ⟨hresult.var, hresult.notNull, hresult.placeholder, hresult.source, ?_⟩
        show (_ || _) = _
        rw [hresult.aggregate]
    · exact K.throw (K.sameRefusal _)

/-! ## Values that are written -/

theorem bindTargets {targets targets' : Level} (htargets : List.Forall₂ K.Column targets targets')
    {values values' : List Written}
    (hvalues : List.Forall₂ (Written.Compared K.toLikeness) values values') :
    K.Step (List.Forall₂ K.Var) (QuerySignature.bindTargets targets values)
      (QuerySignature.bindTargets targets' values') := by
  induction htargets generalizing values values' with
  | nil => exact K.pure .nil
  | cons htarget _ ih =>
    cases hvalues with
    | nil => exact K.pure .nil
    | cons hvalue hvalues =>
      refine K.bind (K.reference htarget) fun v v' hv => ?_
      refine K.bind (K.matchNull hvalue.placeholder htarget) fun _ _ _ => ?_
      exact K.bind (ih hvalues) fun vs vs' hvs => K.pure (.cons hv hvs)

theorem bindRow (hlabel : K.Label label label') {targets targets' : Level}
    (htargets : List.Forall₂ K.Column targets targets') {values values' : List Written}
    (hvalues : List.Forall₂ (Written.Compared K.toLikeness) values values') :
    K.Step Done (QuerySignature.bindRow label targets values)
      (QuerySignature.bindRow label' targets' values') := by
  refine K.bind (K.bindTargets htargets hvalues) fun vs vs' hvs => ?_
  have hvars : List.Forall₂ K.Var (values.map (·.var)) (values'.map (·.var)) :=
    List.rel_map (fun _ _ hw => hw.var) hvalues
  exact K.demand (.rows hlabel hvs hvars)

end Comparison

end QuerySignature
