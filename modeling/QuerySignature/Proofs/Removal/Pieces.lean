import QuerySignature.Proofs.Walk.Sound

namespace QuerySignature

/-! # A query from one of its branches on

What remains of a query behind one of its branches, behind all of them, and behind its ORDER BY.
These remains go side by side for queries that differ in what stands before them.

- `outcome_query_branch`: a query in pieces around one of its branches.
- `Parallel.beyond`, `Parallel.rest`, `Parallel.last`: the remains of two queries go side by side.
-/

/-! ## The rest of a query -/

/-- What remains of a query behind its ORDER BY. -/
def inferLast (setting : Setting) (q : Select) (head : BranchResult × List OutputColumn) :
    Analyze QueryResult := do
  inferLimit setting ⟨head.1.visible, []⟩ q.limit
  pure (.of head.1 head.2 q.branches q.order q.limit)

/-- What remains of a query behind its branches. -/
def inferRest (setting : Setting) (q : Select) (results : List BranchResult) :
    Analyze QueryResult := do
  let head ← lift (unionOf q.text results)
  inferOrder setting (orderScope [] head) q.order
  inferLast setting q head

/-- What remains of a query behind one of its branches. -/
def inferBeyond (setting : Setting) (q : Select) (earlier : List BranchResult) (result : BranchResult)
    (branches : List Branch) : Analyze QueryResult := do
  let others ← inferUnion setting [] branches
  inferRest setting q (earlier ++ result :: others)

theorem outcome_inferRest (setting : Setting) (q : Select) (results : List BranchResult) (r : Run) :
    (inferRest setting q results).outcome r =
      (unionOf q.text results).bind fun head =>
      ((inferOrder setting (orderScope [] head) q.order).outcome r).bind fun order =>
        (inferLast setting q head).outcome order.2 := by
  unfold inferRest
  rw [Analyze.outcome_bind, Analyze.outcome_lift]
  cases unionOf q.text results with
  | error e => rfl
  | ok head => exact Analyze.outcome_bind _ _ r

theorem outcome_query_rest (setting : Setting) (q : Select) (r : Run) :
    (inferQuery setting [] q).outcome r =
      ((inferCtes setting [] q.ctes).outcome r).bind fun ctes =>
      ((inferUnion setting [] q.branches).outcome ctes.2).bind fun branches =>
      ((inferRest setting q branches.1).outcome branches.2).bind fun p =>
        .ok (p.1, { p.2 with ctes := r.ctes }) := by
  rw [outcome_inferQuery]
  simp only [outcome_inferRest, bind_bind]
  unfold inferLast
  simp only [Analyze.outcome_bind, bind_bind]
  rfl

theorem outcome_inferUnion_append (setting : Setting) (outer : List Level) (xs ys : List Branch)
    (r : Run) :
    (inferUnion setting outer (xs ++ ys)).outcome r =
      ((inferUnion setting outer xs).outcome r).bind fun earlier =>
      ((inferUnion setting outer ys).outcome earlier.2).bind fun later =>
        .ok (earlier.1 ++ later.1, later.2) := by
  induction xs generalizing r with
  | nil =>
    show (inferUnion setting outer ys).outcome r =
      ((inferUnion setting outer ys).outcome r).bind fun later => .ok later
    cases (inferUnion setting outer ys).outcome r <;> rfl
  | cons b rest ih =>
    rw [List.cons_append, outcome_inferUnion_cons, outcome_inferUnion_cons]
    simp only [ih, bind_bind]
    rfl

/-- A query in pieces around one of its branches. -/
theorem outcome_query_branch {setting : Setting} {q : Select} {xs ys : List Branch} {b : Branch}
    (hq : q.branches = xs ++ b :: ys) (r : Run) :
    (inferQuery setting [] q).outcome r =
      ((inferCtes setting [] q.ctes).outcome r).bind fun ctes =>
      ((inferUnion setting [] xs).outcome ctes.2).bind fun earlier =>
      ((inferFront setting [] b).outcome earlier.2).bind fun front =>
      ((inferAll setting (groupedScope [] front.1) b.group).outcome front.2).bind fun group =>
      ((inferSome setting (groupedScope [] front.1) b.having).outcome group.2).bind fun having =>
      ((inferBeyond setting q earlier.1 (b.result [] front.1) ys).outcome having.2).bind fun p =>
        .ok (p.1, { p.2 with ctes := r.ctes }) := by
  rw [outcome_query_rest, hq]
  unfold inferBeyond
  simp only [outcome_inferUnion_append, outcome_inferUnion_cons, outcome_inferBranch,
    Analyze.outcome_bind, bind_bind]
  rfl

/-! ## Side by side -/

theorem unionOf_alike {ρ : Renaming} {made : List TypeInfo} (text text' : String)
    {bs bs' : List BranchResult} (hsome : bs ≠ [])
    (h : List.Forall₂ (BranchResult.Matches ρ made) bs bs') :
    Alike (fun head head' => BranchResult.Matches ρ made head.1 head'.1 ∧
        List.Forall₂ (OutputColumn.Matches ρ made) head.2 head'.2)
      (unionOf text bs) (unionOf text' bs') := by
  cases h with
  | nil => exact absurd rfl hsome
  | @cons b b' bs bs' hb hbs =>
    have hcolumns := unionColumns_alike hb.columns hbs
    simp only [unionOf]
    revert hcolumns
    cases unionColumns b.columns bs <;> cases unionColumns b'.columns bs' <;> intro hcolumns
    · exact hcolumns
    · exact hcolumns
    · exact hcolumns
    · exact ⟨hb, hcolumns⟩

theorem unionOf_text {text : String} (text' : String) {results : List BranchResult}
    {head : BranchResult × List OutputColumn} (h : unionOf text results = .ok head) :
    unionOf text' results = .ok head := by
  cases results with
  | nil => cases h
  | cons b bs => exact h

/-- The head of a query of matching branches matches. -/
theorem unionOf_matches {made : List TypeInfo} {text : String} {results : List BranchResult}
    {head : BranchResult × List OutputColumn}
    (h : List.Forall₂ (BranchResult.Matches .none made) results results)
    (hhead : unionOf text results = .ok head) :
    head.1.Matches .none made head.1 ∧
      List.Forall₂ (OutputColumn.Matches .none made) head.2 head.2 := by
  cases results with
  | nil => cases hhead
  | cons b bs =>
    have halike := unionOf_alike text text (List.cons_ne_nil b bs) h
    rw [hhead] at halike
    exact halike

theorem orderScope_matches {ρ : Renaming} {made : List TypeInfo}
    {head head' : BranchResult × List OutputColumn} (hfirst : head.1.Matches ρ made head'.1)
    (hcolumns : List.Forall₂ (OutputColumn.Matches ρ made) head.2 head'.2) :
    Scope.Matches ρ made (orderScope [] head) (orderScope [] head') := by
  rcases levelOf_matches "" hcolumns with ⟨hissued, hlevel⟩
  refine ⟨hissued, hlevel, ?_⟩
  show LevelsMatch ρ made (head.1.visible :: []) (head'.1.visible :: [])
  rw [hfirst.visible]
  exact .cons hfirst.issued (.nil _ _)

namespace Parallel

variable {F : Frame} {T : String → Prop} {made : List TypeInfo} {setting : Setting} {q q' : Select}
  {head head' : BranchResult × List OutputColumn}

theorem last (ht : Reads T (tablesOfLimit q.limit)) (hlimit : q'.limit = q.limit)
    (hfirst : head.1.Matches F.ρ made head'.1)
    (hcolumns : List.Forall₂ (OutputColumn.Matches F.ρ made) head.2 head'.2) :
    Parallel F T made (QueryResult.Matches F.ρ) (inferLast setting q head)
      (inferLast setting q' head') := by
  have hscope : Scope.Matches F.ρ made ⟨head.1.visible, []⟩ ⟨head'.1.visible, []⟩ :=
    ⟨hfirst.issued, hfirst.visible, .nil _ _⟩
  unfold inferLast
  rw [hlimit]
  refine bind (limitTo setting q.limit ht hscope) fun made' hgrows _ _ _ => ?_
  exact pure (hcolumns.imp fun _ _ hc => hc.mono hgrows)

theorem rest (ht : Reads T (tablesOfOrder q.order ++ tablesOfLimit q.limit))
    (horder : q'.order = q.order) (hlimit : q'.limit = q.limit) {results results' : List BranchResult}
    (hsome : results ≠ [])
    (h : List.Forall₂ (BranchResult.Matches F.ρ made) results results') :
    Parallel F T made (QueryResult.Matches F.ρ) (inferRest setting q results)
      (inferRest setting q' results') := by
  rcases reads_append ht with ⟨hto, htl⟩
  refine bind (lift (R := fun made head head' => BranchResult.Matches F.ρ made head.1 head'.1 ∧
    List.Forall₂ (OutputColumn.Matches F.ρ made) head.2 head'.2) (unionOf_alike _ _ hsome h))
    fun made₁ _ head head' ⟨hfirst, hcolumns⟩ => ?_
  rw [horder]
  refine bind (orderBy setting q.order hto (orderScope_matches hfirst hcolumns))
    fun made₂ hgrows₂ _ _ _ => ?_
  exact last htl hlimit (hfirst.mono hgrows₂) (hcolumns.imp fun _ _ hc => hc.mono hgrows₂)

theorem beyond {ys : List Branch}
    (ht : Reads T (tablesOfUnion ys ++ (tablesOfOrder q.order ++ tablesOfLimit q.limit)))
    (horder : q'.order = q.order) (hlimit : q'.limit = q.limit)
    {earlier earlier' : List BranchResult} {result result' : BranchResult}
    (hearlier : List.Forall₂ (BranchResult.Matches F.ρ made) earlier earlier')
    (hresult : result.Matches F.ρ made result') :
    Parallel F T made (QueryResult.Matches F.ρ) (inferBeyond setting q earlier result ys)
      (inferBeyond setting q' earlier' result' ys) := by
  rcases reads_append ht with ⟨htu, htr⟩
  refine bind (union setting ys htu (.nil _ _)) fun made₁ hgrows₁ others others' hothers => ?_
  refine rest htr horder hlimit (by simp) ?_
  exact List.rel_append (hearlier.imp fun _ _ hb => hb.mono hgrows₁)
    (.cons (hresult.mono hgrows₁) hothers)

end Parallel

end QuerySignature
