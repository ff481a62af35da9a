import QuerySignature.Proofs.Mirrored.Leads
import QuerySignature.Proofs.Onward.Rest
import QuerySignature.Proofs.Walk.Lists

namespace QuerySignature

/-! # Comparisons inside expressions

A walk over an expression with a comparison somewhere inside leads past the comparison when the walk over
the part of the expression does that has the comparison inside: what stands before that part comes before
the comparison, and what stands behind it comes behind.

- `Counterparts.Lead`: what a walk over two texts leads to.
- `Lead.left`, `Lead.right`, `Lead.between`, ...: one for each place in an expression.
-/

/-- From all runs before the comparison, walks over two texts lead past it. -/
def Counterparts.Lead {setting : Setting} (p : Passing setting) (N : Naming) :
    Counterparts → Run → Prop
  | .expr scope e e', r => ∀ made r' scope', Before N made r r' →
      SharedLevels N made scope.levels scope'.levels → e.Spelled N →
      p.Leads N (Inferred.Stands (p.outlook N)) r r' (inferExpr setting scope e)
        (inferExpr setting scope' e')
  | .query outer q q', r => ∀ made r' outer', Before N made r r' →
      SharedLevels N made outer outer' → q.Spelled N →
      p.Leads N (QueryResult.Stands (p.outlook N)) r r' (inferQuery setting outer q)
        (inferQuery setting outer' q')
  | .branch outer b b', r => ∀ made r' outer', Before N made r r' →
      SharedLevels N made outer outer' → b.Spelled N →
      p.Leads N (BranchResult.Stands (p.outlook N)) r r' (inferBranch setting outer b)
        (inferBranch setting outer' b')

theorem optionMatches_mono {made made' : List TypeInfo} (hgrows : made <+: made')
    {o o' : Option Inferred} (h : Option.Rel (Inferred.Matches .none made) o o') :
    Option.Rel (Inferred.Matches .none made') o o' := by
  cases h with
  | none => exact .none
  | some he => exact .some (he.mono hgrows)

theorem BinaryForm.onward {O : Outlook} {setting : Setting} (f : BinaryForm) (label label' : String)
    {l l' r r' : Inferred} (hl : l.Stands O l') (hr : r.Stands O r') :
    Onward O (Inferred.Stands O) (f.combine setting label l r) (f.combine setting label' l' r') := by
  cases f with
  | arithmetic op => exact O.comparison.arithmetic trivial hl hr
  | compare op => exact O.comparison.compare setting trivial hl hr
  | like negated => exact O.comparison.like setting trivial hl hr
  | and | or => exact O.comparison.predicate setting trivial

theorem QueryForm.onward {O : Outlook} {setting : Setting} (f : QueryForm) (q q' : Select)
    {result result' : QueryResult} (hresult : result.Stands O result') :
    Onward O (Inferred.Stands O) (f.combine setting q result) (f.combine setting q' result') := by
  cases f with
  | scalar =>
    refine .bind (O.comparison.firstColumn trivial hresult) fun c c' hc => ?_
    rw [hc.notNull]
    exact .pure (.ofVar hc.var _)
  | hasRows => exact O.comparison.predicate setting trivial

namespace Lead

variable {setting : Setting} {p : Passing setting} {N : Naming} {scope : Scope} {e e' : Expr}
  {r s t u : Run}

open Passing.Leads

theorem unary (f : UnaryForm) (ih : (Counterparts.expr scope e e').Lead p N r) :
    (Counterparts.expr scope (f.expr e) (f.expr e')).Lead p N r := by
  intro made r' scope' hbefore hs he
  rw [f.inferExpr_eq, f.inferExpr_eq]
  exact (ih made r' scope' hbefore hs ((f.spelled_iff N e).1 he)).bind hbefore fun _ _ _ _ =>
    (p.outlook N).comparison.predicate setting trivial

theorem left (f : BinaryForm) (right : Expr) (ih : (Counterparts.expr scope e e').Lead p N r) :
    (Counterparts.expr scope (f.expr e right) (f.expr e' right)).Lead p N r := by
  intro made r' scope' hbefore hs he
  obtain ⟨hleft, hright⟩ := (f.spelled_iff N e right).1 he
  rw [f.inferExpr_eq, f.inferExpr_eq]
  refine (ih made r' scope' hbefore hs hleft).bind hbefore fun hmade l l' hl => ?_
  exact .bind (.expr setting right hright (hs.narrowScope hmade)) fun _ _ hr => f.onward _ _ hl hr

theorem right (f : BinaryForm) {left : Expr} {l : Inferred}
    (hrun : (inferExpr setting scope left).outcome r = .ok (l, s))
    (ih : (Counterparts.expr scope e e').Lead p N s) :
    (Counterparts.expr scope (f.expr left e) (f.expr left e')).Lead p N r := by
  intro made r' scope' hbefore hs he
  obtain ⟨hleft, hright⟩ := (f.spelled_iff N left e).1 he
  rw [f.inferExpr_eq, f.inferExpr_eq]
  refine .after hbefore (.expr hs hleft) hrun fun made₁ l' s' hgrows hbefore₁ hl hll' => ?_
  refine (ih made₁ s' scope' hbefore₁ (hs.mono hgrows) hright).bind hbefore₁ fun hmade v v' hv => ?_
  exact f.onward _ _ (hll'.narrow hmade hl) hv

/-! ## BETWEEN -/

theorem between (negated : Bool) (low high : Expr) (ih : (Counterparts.expr scope e e').Lead p N r) :
    (Counterparts.expr scope (.between negated e low high) (.between negated e' low high)).Lead p N
      r := by
  intro made r' scope' hbefore hs he
  refine (ih made r' scope' hbefore hs he.1).bind hbefore fun hmade v v' hv => ?_
  have hs₁ := hs.narrowScope hmade
  refine .bind (.expr setting low he.2.1 hs₁) fun l l' hl => ?_
  refine .bind (.expr setting high he.2.2 hs₁) fun h h' hh => ?_
  exact (p.outlook N).comparison.between setting trivial hv hl hh

theorem low (negated : Bool) (high : Expr) {value : Expr} {v : Inferred}
    (hrun : (inferExpr setting scope value).outcome r = .ok (v, s))
    (ih : (Counterparts.expr scope e e').Lead p N s) :
    (Counterparts.expr scope (.between negated value e high)
      (.between negated value e' high)).Lead p N r := by
  intro made r' scope' hbefore hs he
  refine .after hbefore (.expr hs he.1) hrun fun made₁ v' s' hgrows hbefore₁ hv hvv' => ?_
  have hs₁ := hs.mono hgrows
  refine (ih made₁ s' scope' hbefore₁ hs₁ he.2.1).bind hbefore₁ fun hmade l l' hl => ?_
  refine .bind (.expr setting high he.2.2 (hs₁.narrowScope hmade)) fun h h' hh => ?_
  exact (p.outlook N).comparison.between setting trivial (hvv'.narrow hmade hv) hl hh

theorem high (negated : Bool) {value low : Expr} {v l : Inferred}
    (hvalue : (inferExpr setting scope value).outcome r = .ok (v, s))
    (hlow : (inferExpr setting scope low).outcome s = .ok (l, t))
    (ih : (Counterparts.expr scope e e').Lead p N t) :
    (Counterparts.expr scope (.between negated value low e)
      (.between negated value low e')).Lead p N r := by
  intro made r' scope' hbefore hs he
  refine .after hbefore (.expr hs he.1) hvalue fun made₁ v' s' hgrows₁ hbefore₁ hv hvv' => ?_
  have hs₁ := hs.mono hgrows₁
  refine .after hbefore₁ (.expr hs₁ he.2.1) hlow fun made₂ l' t' hgrows₂ hbefore₂ hl hll' => ?_
  refine (ih made₂ t' scope' hbefore₂ (hs₁.mono hgrows₂) he.2.2).bind hbefore₂
    fun hmade h h' hh => ?_
  exact (p.outlook N).comparison.between setting trivial
    (hvv'.narrow hmade (hv.mono hgrows₂)) (hll'.narrow hmade hl) hh

/-! ## IN -/

theorem inList (negated : Bool) (items : List Expr) (ih : (Counterparts.expr scope e e').Lead p N r) :
    (Counterparts.expr scope (.inList negated e items) (.inList negated e' items)).Lead p N r := by
  intro made r' scope' hbefore hs he
  refine (ih made r' scope' hbefore hs he.1).bind hbefore fun hmade v v' hv => ?_
  exact .listed (hs.narrowScope hmade) he.2 hv _ _

/-- A list of expressions with a comparison in one of them. -/
theorem all {xs ys : List Expr} {is : List Inferred}
    (hrun : (inferAll setting scope xs).outcome r = .ok (is, s))
    (ih : (Counterparts.expr scope e e').Lead p N s) {made : List TypeInfo} {r' : Run}
    {scope' : Scope} (hbefore : Before N made r r')
    (hs : SharedLevels N made scope.levels scope'.levels) (hspelled : SpelledAll N (xs ++ e :: ys)) :
    p.Leads N (List.Forall₂ (Inferred.Stands (p.outlook N))) r r'
      (inferAll setting scope (xs ++ e :: ys)) (inferAll setting scope' (xs ++ e' :: ys)) := by
  obtain ⟨hxs, he, hys⟩ := spelledAll_middle.1 hspelled
  rw [inferAll_append, inferAll_append]
  refine .after hbefore (.all hs hxs) hrun fun made₁ is' s' hgrows hbefore₁ his hiis' => ?_
  have hs₁ := hs.mono hgrows
  refine .bind (R := List.Forall₂ (Inferred.Stands (p.outlook N))) hbefore₁
    ((ih made₁ s' scope' hbefore₁ hs₁ he).bind hbefore₁ fun hmade i i' hi => ?_)
    fun hmade js js' hjs => .pure (List.rel_append (narrow_inferred hmade hiis' his) hjs)
  exact .bind (.all setting ys hys (hs₁.narrowScope hmade)) fun ks ks' hks => .pure (.cons hi hks)

theorem listed (negated : Bool) {value : Expr} {xs : List Expr} (ys : List Expr) {v : Inferred}
    {is : List Inferred} (hcompound : e.Compound) (hcompound' : e'.Compound)
    (hvalue : (inferExpr setting scope value).outcome r = .ok (v, s))
    (hforce : (forceNotNull v).outcome s = .ok ((), t))
    (hxs : (inferAll setting scope xs).outcome t = .ok (is, u))
    (ih : (Counterparts.expr scope e e').Lead p N u) :
    (Counterparts.expr scope (.inList negated value (xs ++ e :: ys))
      (.inList negated value (xs ++ e' :: ys))).Lead p N r := by
  intro made r' scope' hbefore hs he
  refine .after hbefore (.expr hs he.1) hvalue fun made₁ v' s' hgrows₁ hbefore₁ hv hvv' => ?_
  refine .after hbefore₁ (.forceNotNull hv hvv') hforce fun made₂ _ t' hgrows₂ hbefore₂ _ _ => ?_
  -- the list is not a placeholder alone, in neither walk
  dsimp only
  rw [hcompound.soleParameter?, hcompound'.soleParameter?]
  refine (all hxs ih hbefore₂ ((hs.mono hgrows₁).mono hgrows₂) he.2).bind hbefore₂
    fun hmade es es' hes => ?_
  exact (p.outlook N).comparison.inList setting trivial (hvv'.narrow hmade (hv.mono hgrows₂)) hes

theorem inQuery (negated : Bool) (q : Select) (ih : (Counterparts.expr scope e e').Lead p N r) :
    (Counterparts.expr scope (.inQuery negated e q) (.inQuery negated e' q)).Lead p N r := by
  intro made r' scope' hbefore hs he
  refine (ih made r' scope' hbefore hs he.1).bind hbefore fun hmade v v' hv => ?_
  refine .bind ((p.outlook N).comparison.forceNotNull hv) fun _ _ _ => ?_
  refine .bind (.query setting q he.2 (hs.narrowScope hmade).levels) fun result result' hresult => ?_
  refine .bind ((p.outlook N).comparison.firstColumn trivial hresult) fun c c' hc => ?_
  exact (p.outlook N).comparison.inQuery setting trivial hv hc

theorem queried (negated : Bool) {value : Expr} {v : Inferred} {q q' : Select}
    (hvalue : (inferExpr setting scope value).outcome r = .ok (v, s))
    (hforce : (forceNotNull v).outcome s = .ok ((), t))
    (ih : (Counterparts.query scope.levels q q').Lead p N t) :
    (Counterparts.expr scope (.inQuery negated value q) (.inQuery negated value q')).Lead p N r := by
  intro made r' scope' hbefore hs he
  refine .after hbefore (.expr hs he.1) hvalue fun made₁ v' s' hgrows₁ hbefore₁ hv hvv' => ?_
  refine .after hbefore₁ (.forceNotNull hv hvv') hforce fun made₂ _ t' hgrows₂ hbefore₂ _ _ => ?_
  refine (ih made₂ t' scope'.levels hbefore₂ ((hs.mono hgrows₁).mono hgrows₂) he.2).bind hbefore₂
    fun hmade result result' hresult => ?_
  refine .bind ((p.outlook N).comparison.firstColumn trivial hresult) fun c c' hc => ?_
  exact (p.outlook N).comparison.inQuery setting trivial (hvv'.narrow hmade (hv.mono hgrows₂)) hc

/-! ## Calls -/

theorem argument (function : String) (distinct : Bool) {xs : List Expr} (ys : List Expr)
    {is : List Inferred} (hcompound : e.Compound) (hcompound' : e'.Compound)
    (hrun : (inferArguments setting scope xs).outcome r = .ok (is, s))
    (ih : (Counterparts.expr scope e e').Lead p N s) :
    (Counterparts.expr scope (.call function distinct (xs ++ e :: ys))
      (.call function distinct (xs ++ e' :: ys))).Lead p N r := by
  intro made r' scope' hbefore hs hspelled
  obtain ⟨hxs, he, hys⟩ := spelledAll_middle.1 hspelled.2
  show p.Leads N _ r r' (inferArguments setting scope (xs ++ e :: ys) >>= fun as =>
      inferCall setting.profile function _ as)
    (inferArguments setting scope' (xs ++ e' :: ys) >>= fun as =>
      inferCall setting.profile function _ as)
  rw [inferArguments_append, inferArguments_append, bind_assoc, bind_assoc]
  refine .after hbefore (.arguments hs hxs) hrun fun made₁ is' s' hgrows hbefore₁ his hiis' => ?_
  have hs₁ := hs.mono hgrows
  unfold inferArguments
  rw [hcompound.star, hcompound'.star]
  simp only [bind_assoc, pure_bind, Bool.false_eq_true, if_false]
  refine (ih made₁ s' scope' hbefore₁ hs₁ he).bind hbefore₁ fun hmade i i' hi => ?_
  refine .bind (.arguments setting ys hys (hs₁.narrowScope hmade)) fun ks ks' hks => ?_
  exact (p.outlook N).comparison.call setting.profile trivial rfl trivial
    (List.rel_append (narrow_inferred hmade hiis' his) (.cons hi hks))

/-! ## CASE -/

theorem operand (branches : List WhenThen) (otherwise : Option Expr)
    (ih : (Counterparts.expr scope e e').Lead p N r) :
    (Counterparts.expr scope (.case (some e) branches otherwise)
      (.case (some e') branches otherwise)).Lead p N r := by
  intro made r' scope' hbefore hs he
  refine .bind (R := Option.Rel (Inferred.Stands (p.outlook N))) hbefore
    ((ih made r' scope' hbefore hs he.1).bind hbefore fun _ _ _ hi => .pure (.some hi))
    fun hmade o o' ho => ?_
  exact .caseRest (hs.narrowScope hmade) he.2.1 he.2.2 ho _ _

/-- A CASE with a comparison in one of its branches. -/
theorem caseAt {operand otherwise : Option Expr} {xs ys : List WhenThen} {x x' : WhenThen}
    {o : Option Inferred} {v : TypeVar} {notNull : Bool}
    (hoperand : (inferSome setting scope operand).outcome r = .ok (o, s))
    (hfresh : (fresh (Expr.case operand (xs ++ x :: ys) otherwise).text .unknown).outcome s =
      .ok (v, t))
    (hbranches : (inferBranches setting scope o v xs).outcome t = .ok (notNull, u))
    {made : List TypeInfo} {r' : Run} {scope' : Scope} (hbefore : Before N made r r')
    (hs : SharedLevels N made scope.levels scope'.levels) (hospelled : SpelledSome N operand)
    (hxs : SpelledBranches N xs) (hotherwise : SpelledSome N otherwise)
    (hhere : ∀ made₁ u' o' v', Before N made₁ u u' →
      SharedLevels N made₁ scope.levels scope'.levels →
      Option.Rel (Inferred.Matches .none made₁) o o → Option.Rel (Inferred.Stands (.all N)) o o' →
      v.Issued made₁ → v.Stands (.all N) v' →
      p.Leads N (fun b b' => b' = b) u u' (inferBranches setting scope o v (x :: ys))
        (inferBranches setting scope' o' v' (x' :: ys))) :
    p.Leads N (Inferred.Stands (p.outlook N)) r r'
      (inferExpr setting scope (.case operand (xs ++ x :: ys) otherwise))
      (inferExpr setting scope' (.case operand (xs ++ x' :: ys) otherwise)) := by
  refine .after hbefore (.some hs hospelled) hoperand
    fun made₁ o' s' hgrows₁ hbefore₁ hoMade hoo' => ?_
  refine .after hbefore₁ (.fresh _ _ _) hfresh fun made₂ v' t' hgrows₂ hbefore₂ hvMade hvv' => ?_
  have hs₂ := (hs.mono hgrows₁).mono hgrows₂
  have hoMade₂ := optionMatches_mono hgrows₂ hoMade
  rw [inferBranches_append, inferBranches_append, bind_assoc, bind_assoc]
  refine .after hbefore₂ (.caseBranches hs₂ hxs hoMade₂ hoo' hvMade hvv') hbranches
    fun made₃ b' u' hgrows₃ hbefore₃ _ hbb' => ?_
  have hs₃ := hs₂.mono hgrows₃
  simp only [bind_assoc, pure_bind]
  have hoMade₃ := optionMatches_mono hgrows₃ hoMade₂
  have hvMade₃ := hvMade.mono hgrows₃
  refine (hhere made₃ u' o' v' hbefore₃ hs₃ hoMade₃ hoo' hvMade₃ hvv').bind hbefore₃
    fun hmade c c' hc => ?_
  exact .afterBranches (hs₃.narrowScope hmade) hotherwise
    (hvv'.narrow hmade (hvMade.mono hgrows₃)) (by rw [hbb', hc])

theorem condition {operand : Option Expr} {xs : List WhenThen} (result : Expr) (ys : List WhenThen)
    (otherwise : Option Expr) {o : Option Inferred} {v : TypeVar} {notNull : Bool}
    (hoperand : (inferSome setting scope operand).outcome r = .ok (o, s))
    (hfresh : (fresh (Expr.case operand (xs ++ ⟨e, result⟩ :: ys) otherwise).text .unknown).outcome
      s = .ok (v, t))
    (hbranches : (inferBranches setting scope o v xs).outcome t = .ok (notNull, u))
    (ih : (Counterparts.expr scope e e').Lead p N u) :
    (Counterparts.expr scope (.case operand (xs ++ ⟨e, result⟩ :: ys) otherwise)
      (.case operand (xs ++ ⟨e', result⟩ :: ys) otherwise)).Lead p N r := by
  intro made r' scope' hbefore hs hspelled
  obtain ⟨hospelled, hbranchesSpelled, hotherwise⟩ := hspelled
  obtain ⟨hxs, ⟨he, hresult⟩, hys⟩ := spelledBranches_middle.1 hbranchesSpelled
  refine caseAt hoperand hfresh hbranches hbefore hs hospelled hxs hotherwise
    fun made₁ u' o' v' hbefore₁ hs₁ hoMade hoo' hvMade hvv' => ?_
  refine (ih made₁ u' scope' hbefore₁ hs₁ he).bind hbefore₁ fun hmade c c' hc => ?_
  exact .afterCondition (hs₁.narrowScope hmade) hresult hys (narrow_option hmade hoo' hoMade)
    (hvv'.narrow hmade hvMade) hc _ _

theorem result {operand : Option Expr} {xs : List WhenThen} {condition : Expr} (ys : List WhenThen)
    (otherwise : Option Expr) {o : Option Inferred} {v : TypeVar} {notNull : Bool} {c : Inferred}
    {w x : Run} (hoperand : (inferSome setting scope operand).outcome r = .ok (o, s))
    (hfresh : (fresh (Expr.case operand (xs ++ ⟨condition, e⟩ :: ys) otherwise).text
      .unknown).outcome s = .ok (v, t))
    (hbranches : (inferBranches setting scope o v xs).outcome t = .ok (notNull, u))
    (hcondition : (inferExpr setting scope condition).outcome u = .ok (c, w))
    (hwhen : (inferWhen setting condition.text o c).outcome w = .ok ((), x))
    (ih : (Counterparts.expr scope e e').Lead p N x) :
    (Counterparts.expr scope (.case operand (xs ++ ⟨condition, e⟩ :: ys) otherwise)
      (.case operand (xs ++ ⟨condition, e'⟩ :: ys) otherwise)).Lead p N r := by
  intro made r' scope' hbefore hs hspelled
  obtain ⟨hospelled, hbranchesSpelled, hotherwise⟩ := hspelled
  obtain ⟨hxs, ⟨hconditionSpelled, he⟩, hys⟩ := spelledBranches_middle.1 hbranchesSpelled
  refine caseAt hoperand hfresh hbranches hbefore hs hospelled hxs hotherwise
    fun made₁ u' o' v' hbefore₁ hs₁ hoMade hoo' hvMade hvv' => ?_
  refine .after hbefore₁ (.expr hs₁ hconditionSpelled) hcondition
    fun made₂ c' w' hgrows₂ hbefore₂ hcMade hcc' => ?_
  have hoMade₂ := optionMatches_mono hgrows₂ hoMade
  refine .after hbefore₂ (.when hcMade hcc' _ _ hoMade₂ hoo') hwhen
    fun made₃ _ x' hgrows₃ hbefore₃ _ _ => ?_
  have hs₃ := (hs₁.mono hgrows₂).mono hgrows₃
  refine (ih made₃ x' scope' hbefore₃ hs₃ he).bind hbefore₃ fun hmade i i' hi => ?_
  exact .afterResult (hs₃.narrowScope hmade) hys
    (narrow_option hmade hoo' (optionMatches_mono hgrows₃ hoMade₂))
    (hvv'.narrow hmade ((hvMade.mono hgrows₂).mono hgrows₃)) hi _ _

theorem otherwise {operand : Option Expr} {branches : List WhenThen} {o : Option Inferred}
    {v : TypeVar} {notNull : Bool}
    (hoperand : (inferSome setting scope operand).outcome r = .ok (o, s))
    (hfresh : (fresh (Expr.case operand branches (some e)).text .unknown).outcome s = .ok (v, t))
    (hbranches : (inferBranches setting scope o v branches).outcome t = .ok (notNull, u))
    (ih : (Counterparts.expr scope e e').Lead p N u) :
    (Counterparts.expr scope (.case operand branches (some e))
      (.case operand branches (some e'))).Lead p N r := by
  intro made r' scope' hbefore hs hspelled
  obtain ⟨hospelled, hbranchesSpelled, he⟩ := hspelled
  refine .after hbefore (.some hs hospelled) hoperand
    fun made₁ o' s' hgrows₁ hbefore₁ hoMade hoo' => ?_
  refine .after hbefore₁ (.fresh _ _ _) hfresh fun made₂ v' t' hgrows₂ hbefore₂ hvMade hvv' => ?_
  have hs₂ := (hs.mono hgrows₁).mono hgrows₂
  have hoMade₂ := optionMatches_mono hgrows₂ hoMade
  refine .after hbefore₂ (.caseBranches hs₂ hbranchesSpelled hoMade₂ hoo' hvMade hvv') hbranches
    fun made₃ b' u' hgrows₃ hbefore₃ _ hbb' => ?_
  refine .bind (R := fun c c' => c' = c) hbefore₃
    ((ih made₃ u' scope' hbefore₃ (hs₂.mono hgrows₃) he).bind hbefore₃ fun hmade i i' hi => ?_)
    fun hmade c c' hc => ?_
  · refine .bind (.demand (Constraint.Compared.widest trivial none
      (hvv'.narrow hmade (hvMade.mono hgrows₃)) hi.var)) fun _ _ _ => ?_
    exact .pure hi.notNull
  · rw [hbb', hc]
    exact .pure (.ofVar (hvv'.narrow hmade (hvMade.mono hgrows₃)) _)

/-! ## Queries as expressions -/

theorem query (f : QueryForm) {q q' : Select}
    (ih : (Counterparts.query scope.levels q q').Lead p N r) :
    (Counterparts.expr scope (f.expr q) (f.expr q')).Lead p N r := by
  intro made r' scope' hbefore hs he
  rw [f.inferExpr_eq, f.inferExpr_eq]
  exact (ih made r' scope'.levels hbefore hs ((f.spelled_iff N q).1 he)).bind hbefore
    fun _ result result' hresult => f.onward q q' hresult

end Lead

end QuerySignature
