import QuerySignature.Analysis.Write
import QuerySignature.Proofs.Onward.Walk
import QuerySignature.Proofs.Sources.Declared

namespace QuerySignature

/-! # What follows a place

Two walks that have come to one place in a text, over texts that differ before it, go on alike over the
rest: the rest of a list, of a CASE, of a query, of a statement that writes. The columns that are still
to be set are found among the columns of the table, which are the same in both walks.

- `Onward.listed`: an IN, behind its operand.
- `Onward.caseRest`, `Onward.afterCondition`, `Onward.afterResult`: a CASE, behind a place in it.
- `Onward.ordered`, `Onward.body`: a query, behind its branches and behind its common tables.
- `Onward.rows`, `Onward.assignments`: rows of an INSERT and assignments of an UPDATE.
-/

/-! ## Queries in steps -/

/-- What follows the branches of a query. -/
def inferOrdered (setting : Setting) (outer : List Level) (q : Select)
    (head : BranchResult × List OutputColumn) : Analyze QueryResult := do
  inferOrder setting (orderScope outer head) q.order
  inferLimit setting ⟨head.1.visible, outer⟩ q.limit
  pure (.of head.1 head.2 q.branches q.order q.limit)

theorem inferBody_eq (setting : Setting) (outer : List Level) (q : Select) :
    inferBody setting outer q =
      inferUnion setting outer q.branches >>= fun found =>
        lift (unionOf q.text found) >>= inferOrdered setting outer q := by
  unfold inferBody
  congr 1
  funext found
  cases found with
  | nil => rfl
  | cons first others =>
    unfold unionOf
    dsimp only
    cases unionColumns first.columns others <;> rfl

/-- The first branch, and the columns of all branches, in two walks. -/
structure HeadStands (O : Outlook) (head head' : BranchResult × List OutputColumn) : Prop where
  first : head.1.Stands O head'.1
  columns : List.Forall₂ (OutputColumn.Stands O) head.2 head'.2

theorem unionOf_stands {O : Outlook} (text text' : String) {bs bs' : List BranchResult}
    (h : List.Forall₂ (BranchResult.Stands O) bs bs') :
    AlikeInKind (HeadStands O) (unionOf text bs) (unionOf text' bs') := by
  unfold unionOf
  cases h with
  | nil => exact .error rfl
  | @cons b b' rest rest' hb hrest =>
    show AlikeInKind _ ((unionColumns b.columns rest).map fun columns => (b, columns))
      ((unionColumns b'.columns rest').map fun columns => (b', columns))
    have hunion := unionColumns_stands hrest hb.columns
    generalize unionColumns b.columns rest = columns,
      unionColumns b'.columns rest' = columns' at hunion
    cases hunion with
    | error hkind => exact .error hkind
    | ok hcs => exact .ok ⟨hb, hcs⟩

namespace Onward

variable {O : Outlook} {setting : Setting} {scope scope' : Scope} {outer outer' : List Level}

/-! ## Expressions -/

/-- An IN with a list of items, behind its operand. -/
theorem listed (hs : scope.Stands O scope') {items : List Expr} (hitems : SpelledAll O.naming items)
    {e e' : Inferred} (he : e.Stands O e') (label label' : String) :
    Onward O (Inferred.Stands O)
      (do
        QuerySignature.forceNotNull e
        let inferred ← match soleParameter? items with
          | .some name => do
            let list ← QuerySignature.addPlaceholder name true
            Pure.pure [list]
          | .none => inferAll setting scope items
        inferInList setting label e inferred)
      (do
        QuerySignature.forceNotNull e'
        let inferred ← match soleParameter? items with
          | .some name => do
            let list ← QuerySignature.addPlaceholder name true
            Pure.pure [list]
          | .none => inferAll setting scope' items
        inferInList setting label' e' inferred) := by
  refine bind (O.comparison.forceNotNull he) fun _ _ _ => ?_
  dsimp only
  cases soleParameter? items with
  | some name =>
    refine bind (addPlaceholder name true) fun i i' hi => ?_
    have hsole : Onward O (List.Forall₂ (Inferred.Stands O)) (Pure.pure [i]) (Pure.pure [i']) :=
      pure (.cons hi .nil)
    exact bind hsole fun es es' hes => O.comparison.inList setting trivial he hes
  | none =>
    exact bind (all setting items hitems hs) fun es es' hes =>
      O.comparison.inList setting trivial he hes

/-- The branches of a CASE behind a result. -/
theorem afterResult (hs : scope.Stands O scope') {rest : List WhenThen}
    (hrest : SpelledBranches O.naming rest) {o o' : Option Inferred}
    (ho : Option.Rel (Inferred.Stands O) o o') {v v' : TypeVar} (hv : v.Stands O v')
    {e e' : Inferred} (he : e.Stands O e') (label label' : String) :
    Onward O (fun b b' => b' = b)
      (QuerySignature.demand (.widest label Option.none v e.var) >>= fun _ =>
        inferBranches setting scope o v rest >>= fun others => Pure.pure (e.notNull && others))
      (QuerySignature.demand (.widest label' Option.none v' e'.var) >>= fun _ =>
        inferBranches setting scope' o' v' rest >>= fun others =>
          Pure.pure (e'.notNull && others)) := by
  refine bind (demand (Constraint.Compared.widest trivial Option.none hv he.var)) fun _ _ _ => ?_
  refine bind (caseBranches setting rest hrest hs ho hv) fun b b' hb => ?_
  rw [he.notNull, hb]
  exact pure rfl

/-- A branch of a CASE behind its condition. -/
theorem afterCondition (hs : scope.Stands O scope') {value : Expr} (hvalue : value.Spelled O.naming)
    {rest : List WhenThen} (hrest : SpelledBranches O.naming rest) {o o' : Option Inferred}
    (ho : Option.Rel (Inferred.Stands O) o o') {v v' : TypeVar} (hv : v.Stands O v')
    {c c' : Inferred} (hc : c.Stands O c') (label label' : String) :
    Onward O (fun b b' => b' = b)
      (inferWhen setting label o c >>= fun _ => inferExpr setting scope value >>= fun e =>
        QuerySignature.demand (.widest value.text Option.none v e.var) >>= fun _ =>
        inferBranches setting scope o v rest >>= fun others => Pure.pure (e.notNull && others))
      (inferWhen setting label' o' c' >>= fun _ => inferExpr setting scope' value >>= fun e' =>
        QuerySignature.demand (.widest value.text Option.none v' e'.var) >>= fun _ =>
        inferBranches setting scope' o' v' rest >>= fun others =>
          Pure.pure (e'.notNull && others)) := by
  refine bind (O.comparison.when setting trivial ho hc) fun _ _ _ => ?_
  refine bind (expr setting value hvalue hs) fun e e' he => ?_
  exact afterResult hs hrest ho hv he _ _

/-- A CASE behind its branches. -/
theorem afterBranches (hs : scope.Stands O scope') {otherwise : Option Expr}
    (hotherwise : SpelledSome O.naming otherwise) {v v' : TypeVar} (hv : v.Stands O v')
    {b b' : Bool} (hb : b' = b) :
    Onward O (Inferred.Stands O)
      (inferElse setting scope v otherwise >>= fun c => Pure.pure (.ofVar v (b && c)))
      (inferElse setting scope' v' otherwise >>= fun c => Pure.pure (.ofVar v' (b' && c))) := by
  refine bind (caseElse setting otherwise hotherwise hs hv) fun c c' hc => ?_
  rw [hb, hc]
  exact pure (.ofVar hv _)

/-- A CASE behind its operand. -/
theorem caseRest (hs : scope.Stands O scope') {branches : List WhenThen}
    (hbranches : SpelledBranches O.naming branches) {otherwise : Option Expr}
    (hotherwise : SpelledSome O.naming otherwise) {o o' : Option Inferred}
    (ho : Option.Rel (Inferred.Stands O) o o') (label label' : String) :
    Onward O (Inferred.Stands O)
      (QuerySignature.fresh label .unknown >>= fun v =>
        inferBranches setting scope o v branches >>= fun b =>
        inferElse setting scope v otherwise >>= fun c => Pure.pure (.ofVar v (b && c)))
      (QuerySignature.fresh label' .unknown >>= fun v =>
        inferBranches setting scope' o' v branches >>= fun b =>
        inferElse setting scope' v otherwise >>= fun c => Pure.pure (.ofVar v (b && c))) := by
  refine bind (fresh label label' .unknown) fun v v' hv => ?_
  refine bind (caseBranches setting branches hbranches hs ho hv) fun b b' hb => ?_
  exact afterBranches hs hotherwise hv hb

/-! ## Queries -/

section

variable (ho : List.Forall₂ (Level.Stands O) outer outer')

include ho

theorem orderScope {head head' : BranchResult × List OutputColumn} (hhead : HeadStands O head head') :
    Scope.Stands O (QuerySignature.orderScope outer head)
      (QuerySignature.orderScope outer' head') :=
  ⟨levelOf_stands "" hhead.columns, .cons hhead.first.visible ho⟩

section

variable {ctes ctes' : List Cte} {order : List OrderTerm} {limit : Option Limit}
  (horder : SpelledOrder O.naming order) (hlimit : SpelledLimit O.naming limit)

include horder hlimit

/-- A query behind its branches, whatever these are. -/
theorem ordered {branches branches' : List Branch} {head head' : BranchResult × List OutputColumn}
    (hhead : HeadStands O head head') :
    Onward O (QueryResult.Stands O) (inferOrdered setting outer ⟨ctes, branches, order, limit⟩ head)
      (inferOrdered setting outer' ⟨ctes', branches', order, limit⟩ head') := by
  refine bind (orderBy setting order horder (orderScope ho hhead)) fun _ _ _ => ?_
  exact bind (limitTo setting limit hlimit ⟨hhead.first.visible, ho⟩) fun _ _ _ =>
    pure hhead.columns

/-- A query behind its common tables, whatever these are. -/
theorem body {branches : List Branch} (hbranches : SpelledUnion O.naming branches) :
    Onward O (QueryResult.Stands O) (inferBody setting outer ⟨ctes, branches, order, limit⟩)
      (inferBody setting outer' ⟨ctes', branches, order, limit⟩) := by
  rw [inferBody_eq, inferBody_eq]
  refine bind (union setting branches hbranches ho) fun found found' hfound => ?_
  refine bind (lift (unionOf_stands _ _ hfound)) fun head head' hhead => ?_
  exact ordered ho horder hlimit hhead

end

end

end Onward

/-! ## Statements that write -/

namespace Onward

variable {O : Outlook} {setting : Setting}

theorem rows {rows : List (List Expr)} (hrows : ∀ row ∈ rows, SpelledAll O.naming row)
    {targets targets' : Level} (htargets : targets.Stands O targets') :
    Onward O Done (inferRows setting targets rows) (inferRows setting targets' rows) := by
  induction rows with
  | nil => exact pure trivial
  | cons row rest ih =>
    obtain ⟨hrow, hrest⟩ := List.forall_mem_cons.1 hrows
    unfold inferRows
    rw [← htargets.length_eq]
    split
    · intro _ _ _ _ _ hrun
      cases hrun
    · refine bind (all setting row hrow ⟨.nil, .nil⟩) fun es es' hes => ?_
      refine bind (O.comparison.bindRow trivial htargets ?_) fun _ _ _ => ih hrest
      exact List.rel_map (fun _ _ he => ⟨he.var, he.placeholder⟩) hes

theorem get : Onward O Done (MonadState.get : Analyze Run) MonadState.get :=
  of_runFrom (fun _ => rfl) (fun _ => rfl) fun _ _ hr => ⟨trivial, .refl hr⟩

/-- A reference means one column for both walks when both see the same columns. -/
theorem resolve_self {scope : Scope} (hs : scope.Stands O scope) (c : ColumnRef) :
    Onward O (SourceColumn.Stands O) (QuerySignature.resolve scope c)
      (QuerySignature.resolve scope c) := by
  unfold QuerySignature.resolve
  cases hmeaning : scope.resolve c with
  | error e => exact throw e _
  | ok column =>
    obtain ⟨l, hl, hcolumn⟩ := mem_of_resolveIn (resolveIn_of_resolve hmeaning)
    exact pure (List.forall₂_same.1 (List.forall₂_same.1 hs.levels l hl) column hcolumn)

/-- What follows the value of an assignment. -/
theorem assign {target target' : SourceColumn} (htarget : target.Stands O target')
    {value value' : Inferred} (hvalue : value.Stands O value') (label label' : String)
    {next next' : Analyze Unit} (hnext : Onward O Done next next') :
    Onward O Done
      (reference target >>= fun var =>
        QuerySignature.demand (.strict label (.var var) (.var value.var)) >>= fun _ =>
        matchNull value.placeholder target >>= fun _ => next)
      (reference target' >>= fun var =>
        QuerySignature.demand (.strict label' (.var var) (.var value'.var)) >>= fun _ =>
        matchNull value'.placeholder target' >>= fun _ => next') := by
  refine bind (O.comparison.reference htarget) fun v v' hv => ?_
  refine bind (demand (Constraint.Compared.strict trivial hv hvalue.var)) fun _ _ _ => ?_
  exact bind (O.comparison.matchNull hvalue.placeholder htarget) fun _ _ _ => hnext

theorem assignments {as : List Assignment} (has : ∀ a ∈ as, a.Spelled O.naming) {scope : Scope}
    (hs : scope.Stands O scope) :
    Onward O Done (inferAssignments setting scope as) (inferAssignments setting scope as) := by
  induction as with
  | nil => exact pure trivial
  | cons a rest ih =>
    obtain ⟨ha, hrest⟩ := List.forall_mem_cons.1 has
    refine bind (resolve_self hs _) fun target target' htarget => ?_
    refine bind (expr setting a.value ha.2 hs) fun value value' hvalue => ?_
    exact assign htarget hvalue a.text a.text (ih hrest)

end Onward

end QuerySignature
