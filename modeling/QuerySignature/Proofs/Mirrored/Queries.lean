import QuerySignature.Proofs.Mirrored.Expressions

namespace QuerySignature

/-! # Comparisons inside queries

A walk over a query with a comparison somewhere inside leads past the comparison when the walk over the
part of the query does that has the comparison inside. The placeholders of a FROM clause come behind
those of the projection, also those of a comparison in one of them.

- `Lead.commonTable`, `Lead.union`: common tables and branches.
- `Lead.orderTerm`, `Lead.limit`, `Lead.offset`: what follows the branches.
- `Lead.source`, `Lead.joined`, `Lead.on`: the FROM clause of a branch.
- `Lead.item`, `Lead.criteria`, `Lead.group`, `Lead.having`: the other clauses of a branch.
-/

/-! ## Heads -/

/-- A first branch and the columns of all branches, of variables that have been made. -/
structure HeadMade (made : List TypeInfo) (head : BranchResult × List OutputColumn) : Prop where
  first : head.1.Matches .none made head.1
  columns : List.Forall₂ (OutputColumn.Matches .none made) head.2 head.2

section Heads

variable {N : Naming} {made : List TypeInfo}

/-- Both walks find a first branch and the columns of all branches. -/
theorem exists_unionOf {text : String} {found found' : List BranchResult}
    {head : BranchResult × List OutputColumn}
    (hmade : List.Forall₂ (BranchResult.Matches .none made) found found)
    (h : List.Forall₂ (BranchResult.Stands (.all N)) found found')
    (hhead : unionOf text found = .ok head) :
    ∃ head', (∀ text', unionOf text' found = .ok head ∧ unionOf text' found' = .ok head') ∧
      HeadMade made head ∧ HeadStands (.all N) head head' := by
  -- a text is only shown where there is no branch
  have hsame : ∀ text', unionOf text' found = .ok head := by
    intro text'
    cases found with
    | nil => cases hhead
    | cons first others => exact hhead
  obtain ⟨head', hhead', hstands⟩ := (unionOf_stands text text h).of_ok hhead
  have hsame' : ∀ text', unionOf text' found' = .ok head' := by
    intro text'
    cases found' with
    | nil => cases hhead'
    | cons first others => exact hhead'
  refine ⟨head', fun text' => ⟨hsame text', hsame' text'⟩, ?_, hstands⟩
  cases hmade with
  | nil => cases hhead
  | @cons first _ others _ hfirst hothers =>
    have halike := unionColumns_alike hfirst.columns hothers
    unfold unionOf at hhead
    dsimp only at hhead
    cases hcolumns : unionColumns first.columns others with
    | error e =>
      rw [hcolumns] at hhead
      cases hhead
    | ok columns =>
      rw [hcolumns] at hhead halike
      cases hhead
      exact ⟨hfirst, halike⟩

theorem HeadStands.narrow {setting : Setting} {p : Passing setting}
    (hmade : made.length ≤ p.before.issued) {head head' : BranchResult × List OutputColumn}
    (h : HeadStands (.all N) head head') (hhead : HeadMade made head) :
    HeadStands (p.outlook N) head head' :=
  ⟨h.first.narrow hmade hhead.first, narrow_columns hmade h.columns hhead.columns⟩

/-- What ORDER BY sees, both walks have made. -/
theorem SharedLevels.orderScope {outer outer' : List Level} (ho : SharedLevels N made outer outer')
    {head head' : BranchResult × List OutputColumn} (hhead : HeadMade made head)
    (h : HeadStands (.all N) head head') :
    SharedLevels N made (QuerySignature.orderScope outer head).levels
      (QuerySignature.orderScope outer' head').levels :=
  .cons (levelOf_matches "" hhead.columns).1 (levelOf_stands "" h.columns)
    (.cons hhead.first.issued h.first.visible ho)

end Heads

namespace Lead

variable {setting : Setting} {p : Passing setting} {N : Naming} {outer : List Level}
  {r s t u : Run}

open Passing.Leads

/-! ## Common tables and branches -/

theorem commonTable {xs : List Cte} (name : String) (ys : List Cte) (branches : List Branch)
    (order : List OrderTerm) (limit : Option Limit) {q q' : Select}
    (hrun : (inferCtes setting outer xs).outcome r = .ok ((), s))
    (ih : (Counterparts.query outer q q').Lead p N s) :
    (Counterparts.query outer ⟨xs ++ ⟨name, q⟩ :: ys, branches, order, limit⟩
      ⟨xs ++ ⟨name, q'⟩ :: ys, branches, order, limit⟩).Lead p N r := by
  rintro made r' outer' hbefore ho ⟨hctes, hbranches, horder, hlimit⟩
  obtain ⟨hxs, ⟨-, hq⟩, hys⟩ := spelledCtes_middle.1 hctes
  rw [inferQuery_eq, inferQuery_eq]
  refine .keepingCtes hbefore ?_
  dsimp only
  rw [inferCtes_append, inferCtes_append, bind_assoc, bind_assoc]
  refine .after hbefore (.commonTables ho hxs) hrun fun made₁ _ s' hgrows hbefore₁ _ _ => ?_
  have ho₁ := ho.mono hgrows
  refine .bind (R := Done) hbefore₁ ((ih made₁ s' outer' hbefore₁ ho₁ hq).bind hbefore₁
    fun hmade result result' hresult => ?_) fun hmade _ _ _ => ?_
  · exact .bind (.declareCte name (levelOf_stands name hresult)) fun _ _ _ =>
      .commonTables setting ys hys (ho₁.narrow hmade)
  · exact .body (ho₁.narrow hmade) horder hlimit hbranches

theorem union {ctes : List Cte} {xs : List Branch} (ys : List Branch) (order : List OrderTerm)
    (limit : Option Limit) {b b' : Branch} {found : List BranchResult}
    (hctes : (inferCtes setting outer ctes).outcome r = .ok ((), s))
    (hunion : (inferUnion setting outer xs).outcome s = .ok (found, t))
    (ih : (Counterparts.branch outer b b').Lead p N t) :
    (Counterparts.query outer ⟨ctes, xs ++ b :: ys, order, limit⟩
      ⟨ctes, xs ++ b' :: ys, order, limit⟩).Lead p N r := by
  rintro made r' outer' hbefore ho ⟨hctesSpelled, hbranches, horder, hlimit⟩
  obtain ⟨hxs, hb, hys⟩ := spelledUnion_middle.1 hbranches
  rw [inferQuery_eq, inferQuery_eq]
  refine .keepingCtes hbefore ?_
  refine .after hbefore (.commonTables ho hctesSpelled) hctes
    fun made₁ _ s' hgrows₁ hbefore₁ _ _ => ?_
  rw [inferBody_eq, inferBody_eq]
  dsimp only
  rw [inferUnion_append, inferUnion_append, bind_assoc, bind_assoc]
  refine .after hbefore₁ (.union (ho.mono hgrows₁) hxs) hunion
    fun made₂ found' t' hgrows₂ hbefore₂ hfound hff' => ?_
  have ho₂ := (ho.mono hgrows₁).mono hgrows₂
  simp only [bind_assoc, pure_bind]
  refine .bind (R := List.Forall₂ (BranchResult.Stands (p.outlook N))) hbefore₂
    ((ih made₂ t' outer' hbefore₂ ho₂ hb).bind hbefore₂ fun hmade x x' hx => ?_)
    fun hmade bs bs' hbs => ?_
  · exact .bind (.union setting ys hys (ho₂.narrow hmade)) fun zs zs' hzs => .pure (.cons hx hzs)
  · have hall := List.rel_append (narrow_branches hmade hff' hfound) hbs
    refine .bind (.lift (unionOf_stands _ _ hall)) fun head head' hhead => ?_
    exact .ordered (ho₂.narrow hmade) horder hlimit hhead

/-! ## ORDER BY and LIMIT -/

/-- A query with a comparison behind its branches. -/
theorem behindBranches {ctes : List Cte} {branches : List Branch} {order order' : List OrderTerm}
    {limit limit' : Option Limit} {text : String} {found : List BranchResult}
    {head : BranchResult × List OutputColumn}
    (hctes : (inferCtes setting outer ctes).outcome r = .ok ((), s))
    (hunion : (inferUnion setting outer branches).outcome s = .ok (found, t))
    (hhead : unionOf text found = .ok head) {made : List TypeInfo} {r' : Run} {outer' : List Level}
    (hbefore : Before N made r r') (ho : SharedLevels N made outer outer')
    (hctesSpelled : SpelledCtes N ctes) (hbranches : SpelledUnion N branches)
    (hhere : ∀ made₁ t' head', Before N made₁ t t' → SharedLevels N made₁ outer outer' →
      HeadMade made₁ head → HeadStands (.all N) head head' →
      p.Leads N (QueryResult.Stands (p.outlook N)) t t'
        (inferOrdered setting outer ⟨ctes, branches, order, limit⟩ head)
        (inferOrdered setting outer' ⟨ctes, branches, order', limit'⟩ head')) :
    p.Leads N (QueryResult.Stands (p.outlook N)) r r'
      (inferQuery setting outer ⟨ctes, branches, order, limit⟩)
      (inferQuery setting outer' ⟨ctes, branches, order', limit'⟩) := by
  rw [inferQuery_eq, inferQuery_eq]
  refine .keepingCtes hbefore ?_
  refine .after hbefore (.commonTables ho hctesSpelled) hctes
    fun made₁ _ s' hgrows₁ hbefore₁ _ _ => ?_
  rw [inferBody_eq, inferBody_eq]
  refine .after hbefore₁ (.union (ho.mono hgrows₁) hbranches) hunion
    fun made₂ found' t' hgrows₂ hbefore₂ hfound hff' => ?_
  obtain ⟨head', hheads, hmade, hstands⟩ := exists_unionOf hfound hff' hhead
  rw [(hheads _).1, (hheads _).2]
  exact hhere made₂ t' head' hbefore₂ ((ho.mono hgrows₁).mono hgrows₂) hmade hstands

theorem orderTerm {ctes : List Cte} {branches : List Branch} {xs : List OrderTerm}
    (descending : Bool) (ys : List OrderTerm) (limit : Option Limit) {e e' : Expr} {text : String}
    {found : List BranchResult} {head : BranchResult × List OutputColumn} (hcompound : e.Compound)
    (hcompound' : e'.Compound) (hctes : (inferCtes setting outer ctes).outcome r = .ok ((), s))
    (hunion : (inferUnion setting outer branches).outcome s = .ok (found, t))
    (hhead : unionOf text found = .ok head)
    (hxs : (inferOrder setting (orderScope outer head) xs).outcome t = .ok ((), u))
    (ih : (Counterparts.expr (orderScope outer head) e e').Lead p N u) :
    (Counterparts.query outer ⟨ctes, branches, xs ++ ⟨e, descending⟩ :: ys, limit⟩
      ⟨ctes, branches, xs ++ ⟨e', descending⟩ :: ys, limit⟩).Lead p N r := by
  rintro made r' outer' hbefore ho ⟨hctesSpelled, hbranches, horder, hlimit⟩
  obtain ⟨hxsSpelled, he, hys⟩ := spelledOrder_middle.1 horder
  refine behindBranches hctes hunion hhead hbefore ho hctesSpelled hbranches
    fun made₁ t' head' hbefore₁ ho₁ hmade hstands => ?_
  unfold inferOrdered
  dsimp only
  rw [inferOrder_append, inferOrder_append, bind_assoc, bind_assoc]
  refine .after hbefore₁ (.orderBy (ho₁.orderScope hmade hstands) hxsSpelled) hxs
    fun made₂ _ u' hgrows₂ hbefore₂ _ _ => ?_
  have hs₂ := (ho₁.orderScope hmade hstands).mono hgrows₂
  unfold inferOrder
  rw [hcompound.parameter, hcompound'.parameter]
  simp only [bind_assoc, Bool.false_eq_true, if_false]
  refine (ih made₂ u' _ hbefore₂ hs₂ he).bind hbefore₂ fun hmade' _ _ _ => ?_
  refine .bind (.orderBy setting ys hys (hs₂.narrowScope hmade')) fun _ _ _ => ?_
  have hhead' := hstands.narrow (Nat.le_trans hgrows₂.length_le hmade') hmade
  refine .bind (.limitTo setting limit hlimit ⟨hhead'.first.visible, ?_⟩) fun _ _ _ =>
    .pure hhead'.columns
  exact (ho₁.mono hgrows₂).narrow hmade'

/-- A query with a comparison in its LIMIT. -/
theorem behindOrder {ctes : List Cte} {branches : List Branch} {order : List OrderTerm}
    {limit limit' : Option Limit} {text : String} {found : List BranchResult}
    {head : BranchResult × List OutputColumn}
    (hctes : (inferCtes setting outer ctes).outcome r = .ok ((), s))
    (hunion : (inferUnion setting outer branches).outcome s = .ok (found, t))
    (hhead : unionOf text found = .ok head)
    (horder : (inferOrder setting (orderScope outer head) order).outcome t = .ok ((), u))
    {made : List TypeInfo} {r' : Run} {outer' : List Level} (hbefore : Before N made r r')
    (ho : SharedLevels N made outer outer') (hctesSpelled : SpelledCtes N ctes)
    (hbranches : SpelledUnion N branches) (horderSpelled : SpelledOrder N order)
    (hhere : ∀ made₁ u' (scope' : Scope), Before N made₁ u u' →
      SharedLevels N made₁ (Scope.levels ⟨head.1.visible, outer⟩) scope'.levels →
      p.Leads N Done u u' (inferLimit setting ⟨head.1.visible, outer⟩ limit)
        (inferLimit setting scope' limit')) :
    p.Leads N (QueryResult.Stands (p.outlook N)) r r'
      (inferQuery setting outer ⟨ctes, branches, order, limit⟩)
      (inferQuery setting outer' ⟨ctes, branches, order, limit'⟩) := by
  refine behindBranches hctes hunion hhead hbefore ho hctesSpelled hbranches
    fun made₁ t' head' hbefore₁ ho₁ hmade hstands => ?_
  refine .after hbefore₁ (.orderBy (ho₁.orderScope hmade hstands) horderSpelled) horder
    fun made₂ _ u' hgrows₂ hbefore₂ _ _ => ?_
  have hs₂ : SharedLevels N made₁ (Scope.levels ⟨head.1.visible, outer⟩)
      (Scope.levels ⟨head'.1.visible, outer'⟩) :=
    .cons hmade.first.issued hstands.first.visible ho₁
  refine .bind hbefore₂ (hhere made₂ u' ⟨head'.1.visible, outer'⟩ hbefore₂ (hs₂.mono hgrows₂))
    fun hmade' _ _ _ => .pure ?_
  exact narrow_columns (Nat.le_trans hgrows₂.length_le hmade') hstands.columns hmade.columns

theorem limit {ctes : List Cte} {branches : List Branch} {order : List OrderTerm}
    (offset : Option Expr) {e e' : Expr} {text : String} {found : List BranchResult}
    {head : BranchResult × List OutputColumn}
    (hctes : (inferCtes setting outer ctes).outcome r = .ok ((), s))
    (hunion : (inferUnion setting outer branches).outcome s = .ok (found, t))
    (hhead : unionOf text found = .ok head)
    (horder : (inferOrder setting (orderScope outer head) order).outcome t = .ok ((), u))
    (ih : (Counterparts.expr ⟨head.1.visible, outer⟩ e e').Lead p N u) :
    (Counterparts.query outer ⟨ctes, branches, order, some ⟨e, offset⟩⟩
      ⟨ctes, branches, order, some ⟨e', offset⟩⟩).Lead p N r := by
  rintro made r' outer' hbefore ho ⟨hctesSpelled, hbranches, horderSpelled, he, hoffset⟩
  refine behindOrder hctes hunion hhead horder hbefore ho hctesSpelled hbranches horderSpelled
    fun made₁ u' scope' hbefore₁ hs₁ => ?_
  refine (ih made₁ u' scope' hbefore₁ hs₁ he).bind hbefore₁ fun hmade c c' hc => ?_
  refine .bind ((p.outlook N).comparison.bound setting trivial hc) fun _ _ _ => ?_
  exact .offsetBy setting offset hoffset (hs₁.narrowScope hmade)

theorem offset {ctes : List Cte} {branches : List Branch} {order : List OrderTerm} {count : Expr}
    {e e' : Expr} {text : String} {found : List BranchResult}
    {head : BranchResult × List OutputColumn} {c : Inferred} {w x : Run}
    (hctes : (inferCtes setting outer ctes).outcome r = .ok ((), s))
    (hunion : (inferUnion setting outer branches).outcome s = .ok (found, t))
    (hhead : unionOf text found = .ok head)
    (horder : (inferOrder setting (orderScope outer head) order).outcome t = .ok ((), u))
    (hcount : (inferExpr setting ⟨head.1.visible, outer⟩ count).outcome u = .ok (c, w))
    (hbound : (inferBound setting count.text c).outcome w = .ok ((), x))
    (ih : (Counterparts.expr ⟨head.1.visible, outer⟩ e e').Lead p N x) :
    (Counterparts.query outer ⟨ctes, branches, order, some ⟨count, some e⟩⟩
      ⟨ctes, branches, order, some ⟨count, some e'⟩⟩).Lead p N r := by
  rintro made r' outer' hbefore ho ⟨hctesSpelled, hbranches, horderSpelled, hcountSpelled, he⟩
  refine behindOrder hctes hunion hhead horder hbefore ho hctesSpelled hbranches horderSpelled
    fun made₁ u' scope' hbefore₁ hs₁ => ?_
  refine .after hbefore₁ (.expr hs₁ hcountSpelled) hcount
    fun made₂ c' w' hgrows₂ hbefore₂ hcMade hcc' => ?_
  refine .after hbefore₂ (.bound hcMade hcc' _ _) hbound fun made₃ _ x' hgrows₃ hbefore₃ _ _ => ?_
  refine (ih made₃ x' scope' hbefore₃ ((hs₁.mono hgrows₂).mono hgrows₃) he).bind hbefore₃
    fun _ i i' hi => ?_
  exact (p.outlook N).comparison.bound setting trivial hi

end Lead

/-! ## Branches -/

section Fronts

variable {N : Naming} {made : List TypeInfo} {front front' : Sources × List OutputColumn}

theorem FrontStands.narrow {setting : Setting} {p : Passing setting}
    (hmade : made.length ≤ p.before.issued) (h : FrontStands (.all N) front front')
    (hfront : FrontMade made front) : FrontStands (p.outlook N) front front' :=
  ⟨Level.Stands.narrow hmade h.sources hfront.sources.issued,
    narrow_columns hmade h.columns hfront.columns⟩

/-- What GROUP BY and HAVING see, both walks have made. -/
theorem SharedLevels.groupedScope {outer outer' : List Level} (ho : SharedLevels N made outer outer')
    (hfront : FrontMade made front) (h : FrontStands (.all N) front front') :
    SharedLevels N made (QuerySignature.groupedScope outer front).levels
      (QuerySignature.groupedScope outer' front').levels :=
  .cons hfront.sources.issued h.sources
    (.cons (levelOf_matches "" hfront.columns).1 (levelOf_stands "" h.columns) ho)

end Fronts

namespace Lead

variable {setting : Setting} {p : Passing setting} {N : Naming} {outer : List Level}
  {r s t u : Run}

open Passing.Leads

/-! ## The FROM clause -/

/-- A branch with a comparison in its FROM clause. -/
theorem ofFrom {distinct : Bool} {items : List Item} {sources sources' : List Source}
    {joins joins' : List Join} {criteria : Option Expr} {group : List Expr} {having : Option Expr}
    {made : List TypeInfo} {r' : Run} {outer' : List Level} (hbefore : Before N made r r')
    (ho : SharedLevels N made outer outer') (hitems : SpelledItems N items)
    (hcriteria : SpelledSome N criteria) (hgroup : SpelledAll N group)
    (hhaving : SpelledSome N having)
    (hfrom : p.Leads N (Sources.Stands (p.outlook N)) r r'
      (inferFrom setting outer ⟨distinct, items, sources, joins, criteria, group, having⟩)
      (inferFrom setting outer' ⟨distinct, items, sources', joins', criteria, group, having⟩)) :
    p.Leads N (BranchResult.Stands (p.outlook N)) r r'
      (inferBranch setting outer ⟨distinct, items, sources, joins, criteria, group, having⟩)
      (inferBranch setting outer'
        ⟨distinct, items, sources', joins', criteria, group, having⟩) := by
  refine .congr (.bind (R := FrontStands (p.outlook N)) hbefore (.aside hbefore hfrom
    fun hmade joined joined' hjoined => ?_) fun hmade front front' hfront => ?_)
    (inferBranch_parts _ _ _ _) (inferBranch_parts _ _ _ _)
  · exact .bind (.items setting items hitems ⟨hjoined, ho.narrow hmade⟩) fun _ _ hcs =>
      .pure ⟨hjoined, hcs⟩
  · exact .conditions setting hcriteria hgroup hhaving (ho.narrow hmade) hfront

theorem source (distinct : Bool) (items : List Item) {xs : List Source} (aliasName : String)
    (ys : List Source) (joins : List Join) (criteria : Option Expr) (group : List Expr)
    (having : Option Expr) {q q' : Select} {done : Sources}
    (hrun : (inferSources setting .empty xs).outcome r = .ok (done, s))
    (ih : (Counterparts.query [] q q').Lead p N s) :
    (Counterparts.branch outer
      ⟨distinct, items, xs ++ .derived q aliasName :: ys, joins, criteria, group, having⟩
      ⟨distinct, items, xs ++ .derived q' aliasName :: ys, joins, criteria, group,
        having⟩).Lead p N r := by
  rintro made r' outer' hbefore ho ⟨hitems, hsources, hjoins, hcriteria, hgroup, hhaving⟩
  obtain ⟨hxs, hx, hys⟩ := spelledSources_middle.1 hsources
  refine ofFrom hbefore ho hitems hcriteria hgroup hhaving ?_
  unfold inferFrom
  dsimp only
  rw [inferSources_append, inferSources_append, bind_assoc, bind_assoc]
  refine .after hbefore (.sources hxs) hrun fun made₁ done' s' hgrows hbefore₁ hdone hdd' => ?_
  refine .bind (R := Sources.Stands (p.outlook N)) hbefore₁
    (.bind (R := Level.Stands (p.outlook N)) hbefore₁
      ((ih made₁ s' [] hbefore₁ (.nil N made₁) hx.1).bind hbefore₁ fun _ result result' hresult =>
        .pure (levelOf_stands aliasName hresult)) fun hmade l l' hl => ?_)
    fun hmade listed listed' hlisted => ?_
  · exact .sourceList setting ys hys
      (Sources.Stands.add (Level.Stands.narrow hmade hdd' hdone.issued) _ _ hl)
  · exact .joinList setting joins hjoins ((ho.mono hgrows).narrow hmade) hlisted _ _

/-- The joins of a FROM clause with a comparison in one of them. -/
theorem joinAt {distinct : Bool} {items : List Item} {sources : List Source} {xs ys : List Join}
    {j j' : Join} {criteria : Option Expr} {group : List Expr} {having : Option Expr}
    {listed done : Sources}
    (hsources : (inferSources setting .empty sources).outcome r = .ok (listed, s))
    (hxs : (inferJoins setting outer listed (Sources.lastName sources) xs).outcome s =
      .ok (done, t))
    {made : List TypeInfo} {r' : Run} {outer' : List Level} (hbefore : Before N made r r')
    (ho : SharedLevels N made outer outer') (hsourcesSpelled : SpelledSources N sources)
    (hxsSpelled : SpelledJoins N xs)
    (hhere : ∀ made₁ t' done' previous, Before N made₁ t t' → SharedLevels N made₁ outer outer' →
      done.Matches .none made₁ done → done.Stands (.all N) done' →
      p.Leads N (Sources.Stands (p.outlook N)) t t'
        (inferJoins setting outer done previous (j :: ys))
        (inferJoins setting outer' done' previous (j' :: ys))) :
    p.Leads N (Sources.Stands (p.outlook N)) r r'
      (inferFrom setting outer ⟨distinct, items, sources, xs ++ j :: ys, criteria, group, having⟩)
      (inferFrom setting outer'
        ⟨distinct, items, sources, xs ++ j' :: ys, criteria, group, having⟩) := by
  unfold inferFrom
  dsimp only
  refine .after hbefore (.sources hsourcesSpelled) hsources
    fun made₁ listed' s' hgrows₁ hbefore₁ hlisted hll' => ?_
  have ho₁ := ho.mono hgrows₁
  rw [inferJoins_append, inferJoins_append]
  refine .after hbefore₁ (.joins ho₁ hlisted hll' _ hxsSpelled) hxs
    fun made₂ done' t' hgrows₂ hbefore₂ hdone hdd' => ?_
  exact hhere made₂ t' done' _ hbefore₂ (ho₁.mono hgrows₂) hdone hdd'

theorem joined (distinct : Bool) (items : List Item) {sources : List Source} {xs : List Join}
    (kind : JoinKind) (aliasName : String) (on : JoinCondition) (ys : List Join)
    (criteria : Option Expr) (group : List Expr) (having : Option Expr) {q q' : Select}
    {listed done : Sources}
    (hsources : (inferSources setting .empty sources).outcome r = .ok (listed, s))
    (hxs : (inferJoins setting outer listed (Sources.lastName sources) xs).outcome s =
      .ok (done, t))
    (ih : (Counterparts.query [] q q').Lead p N t) :
    (Counterparts.branch outer
      ⟨distinct, items, sources, xs ++ ⟨kind, .derived q aliasName, on⟩ :: ys, criteria, group,
        having⟩
      ⟨distinct, items, sources, xs ++ ⟨kind, .derived q' aliasName, on⟩ :: ys, criteria, group,
        having⟩).Lead p N r := by
  rintro made r' outer' hbefore ho ⟨hitems, hsourcesSpelled, hjoins, hcriteria, hgroup, hhaving⟩
  obtain ⟨hxsSpelled, ⟨hx, hon⟩, hys⟩ := spelledJoins_middle.1 hjoins
  refine ofFrom hbefore ho hitems hcriteria hgroup hhaving (joinAt hsources hxs hbefore ho
    hsourcesSpelled hxsSpelled fun made₁ t' done' previous hbefore₁ ho₁ hdone hdd' => ?_)
  refine .bind (R := Level.Stands (p.outlook N)) hbefore₁
    ((ih made₁ t' [] hbefore₁ (.nil N made₁) hx.1).bind hbefore₁ fun _ result result' hresult =>
      .pure (levelOf_stands aliasName hresult)) fun hmade l l' hl => ?_
  have hdone' : Sources.Stands (p.outlook N) done done' :=
    Level.Stands.narrow hmade hdd' hdone.issued
  have houter := ho₁.narrow hmade
  refine .bind (.condition setting on hon ⟨List.rel_append hdone' hl, houter⟩) fun _ _ _ => ?_
  exact .joinList setting ys hys houter
    (hdone'.join outer outer' previous previous kind _ _ hon hl) _ _

theorem on (distinct : Bool) (items : List Item) {sources : List Source} {xs : List Join}
    (kind : JoinKind) {x : Source} (ys : List Join) (criteria : Option Expr) (group : List Expr)
    (having : Option Expr) {e e' : Expr} {listed done : Sources} {columns : Level}
    (hsources : (inferSources setting .empty sources).outcome r = .ok (listed, s))
    (hxs : (inferJoins setting outer listed (Sources.lastName sources) xs).outcome s =
      .ok (done, t))
    (hx : (inferSource setting x).outcome t = .ok (columns, u))
    (ih : (Counterparts.expr ⟨done.columns ++ columns, outer⟩ e e').Lead p N u) :
    (Counterparts.branch outer
      ⟨distinct, items, sources, xs ++ ⟨kind, x, .predicate e⟩ :: ys, criteria, group, having⟩
      ⟨distinct, items, sources, xs ++ ⟨kind, x, .predicate e'⟩ :: ys, criteria, group,
        having⟩).Lead p N r := by
  rintro made r' outer' hbefore ho ⟨hitems, hsourcesSpelled, hjoins, hcriteria, hgroup, hhaving⟩
  obtain ⟨hxsSpelled, ⟨hxSpelled, he⟩, hys⟩ := spelledJoins_middle.1 hjoins
  refine ofFrom hbefore ho hitems hcriteria hgroup hhaving (joinAt hsources hxs hbefore ho
    hsourcesSpelled hxsSpelled fun made₁ t' done' previous hbefore₁ ho₁ hdone hdd' => ?_)
  refine .after hbefore₁ (.source hxSpelled) hx
    fun made₂ columns' u' hgrows₂ hbefore₂ hcolumns hcc' => ?_
  have hdone₂ := hdone.mono hgrows₂
  have hs₂ : SharedLevels N made₂ (Scope.levels ⟨done.columns ++ columns, outer⟩)
      (Scope.levels ⟨done'.columns ++ columns', outer'⟩) :=
    .cons (hdone₂.issued.append hcolumns) (List.rel_append hdd' hcc') (ho₁.mono hgrows₂)
  refine .bind (R := Done) hbefore₂ ((ih made₂ u' _ hbefore₂ hs₂ he).bind hbefore₂ fun _ _ _ _ =>
    .pure trivial) fun hmade _ _ _ => ?_
  have hdone' : Sources.Stands (p.outlook N) done done' :=
    Level.Stands.narrow hmade hdd' hdone₂.issued
  -- a predicate adds all columns of the joined source, whatever it says
  have hon : JoinCondition.Spelled N (.predicate e) := he
  have hadded : Sources.Stands (p.outlook N)
      (done.join outer previous kind x (.predicate e) columns)
      (done'.join outer' previous kind x (.predicate e') columns') :=
    hdone'.join outer outer' previous previous kind x x hon (hcc'.narrow hmade hcolumns)
  exact .joinList setting ys hys ((ho₁.mono hgrows₂).narrow hmade) hadded _ _

/-! ## The projection -/

theorem item (distinct : Bool) {xs : List Item} (aliasName : Option String) (ys : List Item)
    {sources : List Source} {joins : List Join} (criteria : Option Expr) (group : List Expr)
    (having : Option Expr) {e e' : Expr} {done : Sources} {columns : List OutputColumn}
    (hcompound : e.Compound) (hcompound' : e'.Compound)
    (hfrom : (inferFrom setting outer ⟨distinct, xs ++ .expr e aliasName :: ys, sources, joins,
      criteria, group, having⟩).outcome r = .ok (done, s))
    (hxs : (inferItems setting ⟨done.columns, outer⟩ xs).outcome
      { s with placeholders := s.placeholders.take r.placeholders.length } = .ok (columns, t))
    (hblurs : aliasName = none → N.Blurs e.text e'.text)
    (ih : (Counterparts.expr ⟨done.columns, outer⟩ e e').Lead p N t) :
    (Counterparts.branch outer
      ⟨distinct, xs ++ .expr e aliasName :: ys, sources, joins, criteria, group, having⟩
      ⟨distinct, xs ++ .expr e' aliasName :: ys, sources, joins, criteria, group,
        having⟩).Lead p N r := by
  rintro made r' outer' hbefore ho ⟨hitems, hsources, hjoins, hcriteria, hgroup, hhaving⟩
  obtain ⟨hxsSpelled, ⟨he, -⟩, hys⟩ := spelledItems_middle.1 hitems
  have hname : N.Blurs (outputName e aliasName) (outputName e' aliasName) := by
    cases aliasName with
    | some name => exact .refl N name
    | none =>
      unfold outputName
      rw [hcompound.column, hcompound'.column]
      exact hblurs rfl
  have hone : ∀ i i' : Inferred, i.Stands (p.outlook N) i' → Onward (p.outlook N)
      (List.Forall₂ (OutputColumn.Stands (p.outlook N)))
      (pure [OutputColumn.ofInferred (outputName e aliasName) i])
      (pure [OutputColumn.ofInferred (outputName e' aliasName) i']) :=
    fun _ _ hi => .pure (.cons (.ofInferred hname hi) .nil)
  refine .congr (.bind (R := FrontStands (p.outlook N)) hbefore ?_ fun hmade front front' hfront =>
    .conditions setting hcriteria hgroup hhaving (ho.narrow hmade) hfront)
    (inferBranch_parts _ _ _ _) (inferBranch_parts _ _ _ _)
  refine .afterAside hbefore
    (.fromClause ho ⟨hitems, hsources, hjoins, hcriteria, hgroup, hhaving⟩) hfrom
    fun made₁ done' s' hgrows₁ hbefore₁ hdone hdd' => ?_
  have hs₁ : SharedLevels N made₁ (Scope.levels ⟨done.columns, outer⟩)
      (Scope.levels ⟨done'.columns, outer'⟩) :=
    .cons hdone.issued hdd' (ho.mono hgrows₁)
  dsimp only
  rw [inferItems_append, inferItems_append, bind_assoc, bind_assoc]
  refine .after hbefore₁ (.items hs₁ hxsSpelled) hxs
    fun made₂ columns' t' hgrows₂ hbefore₂ hcolumns hcc' => ?_
  have hs₂ := hs₁.mono hgrows₂
  have hhere : p.Leads N (List.Forall₂ (OutputColumn.Stands (p.outlook N))) t t'
      (inferItem setting ⟨done.columns, outer⟩ (.expr e aliasName))
      (inferItem setting ⟨done'.columns, outer'⟩ (.expr e' aliasName)) :=
    (ih made₂ t' _ hbefore₂ hs₂ he).bind hbefore₂ fun _ => hone
  unfold inferItems
  simp only [bind_assoc, pure_bind]
  refine hhere.bind hbefore₂ fun hmade cs cs' hcs => ?_
  refine .bind (.items setting ys hys (hs₂.narrowScope hmade)) fun ds ds' hds => ?_
  exact .pure ⟨(hs₂.narrowScope hmade).columns,
    List.rel_append (narrow_columns hmade hcc' hcolumns) (List.rel_append hcs hds)⟩

/-! ## Behind the projection -/

theorem criteria (distinct : Bool) {items : List Item} {sources : List Source} {joins : List Join}
    (group : List Expr) (having : Option Expr) {e e' : Expr} {front : Sources × List OutputColumn}
    (hproves : ∀ scope c, Scope.provesNotNull scope c e' = scope.provesNotNull c e)
    (hrun : (inferProjected setting outer
      ⟨distinct, items, sources, joins, some e, group, having⟩).outcome r = .ok (front, s))
    (ih : (Counterparts.expr ⟨front.1.columns, outer⟩ e e').Lead p N s) :
    (Counterparts.branch outer ⟨distinct, items, sources, joins, some e, group, having⟩
      ⟨distinct, items, sources, joins, some e', group, having⟩).Lead p N r := by
  intro made r' outer' hbefore ho hspelled
  refine .congr (.after hbefore (.projected ho hspelled) hrun
    fun made₁ front' s' hgrows₁ hbefore₁ hfront hff' => ?_)
    (inferBranch_parts _ _ _ _) (inferBranch_parts _ _ _ _)
  obtain ⟨-, -, -, he, hgroup, hhaving⟩ := hspelled
  have ho₁ := ho.mono hgrows₁
  refine .bind (R := Option.Rel (Inferred.Stands (p.outlook N))) hbefore₁
    ((ih made₁ s' ⟨front'.1.columns, outer'⟩ hbefore₁ (.cons hfront.sources.issued hff'.sources ho₁)
      he).bind hbefore₁ fun _ _ _ hi => .pure (.some hi)) fun hmade _ _ _ => ?_
  have hfront' := hff'.narrow hmade hfront
  have houter := ho₁.narrow hmade
  refine .bind (.all setting group hgroup (hfront'.grouped houter)) fun _ _ _ => ?_
  refine .bind (.some setting having hhaving (hfront'.grouped houter)) fun _ _ _ => ?_
  refine .pure ⟨proveColumns_stands (fun c c' hc => ?_) hfront'.columns, hfront'.sources⟩
  have hs : Scope.Stands (p.outlook N) ⟨front.1.columns, outer⟩ ⟨front'.1.columns, outer'⟩ :=
    ⟨hfront'.sources, houter⟩
  exact (hproves _ _).trans (hs.provesNotNull hc he)

/-- A branch with a comparison behind its WHERE. -/
theorem behindCriteria {distinct : Bool} {items : List Item} {sources : List Source}
    {joins : List Join} {criteria : Option Expr} {group group' : List Expr}
    {having having' : Option Expr} {front : Sources × List OutputColumn} {found : Option Inferred}
    (hrun : (inferProjected setting outer
      ⟨distinct, items, sources, joins, criteria, group, having⟩).outcome r = .ok (front, s))
    (hcriteria : (inferSome setting ⟨front.1.columns, outer⟩ criteria).outcome s = .ok (found, t))
    {made : List TypeInfo} {r' : Run} {outer' : List Level} (hbefore : Before N made r r')
    (ho : SharedLevels N made outer outer')
    (hspelled : Branch.Spelled N ⟨distinct, items, sources, joins, criteria, group, having⟩)
    (hhere : ∀ made₁ t' front', Before N made₁ t t' → SharedLevels N made₁
      (groupedScope outer front).levels (groupedScope outer' front').levels →
      p.Leads N Done t t'
        (inferAll setting (groupedScope outer front) group >>= fun _ =>
          inferSome setting (groupedScope outer front) having)
        (inferAll setting (groupedScope outer' front') group' >>= fun _ =>
          inferSome setting (groupedScope outer' front') having')) :
    p.Leads N (BranchResult.Stands (p.outlook N)) r r'
      (inferBranch setting outer ⟨distinct, items, sources, joins, criteria, group, having⟩)
      (inferBranch setting outer'
        ⟨distinct, items, sources, joins, criteria, group', having'⟩) := by
  refine .congr (.after hbefore (.projected ho hspelled) hrun
    fun made₁ front' s' hgrows₁ hbefore₁ hfront hff' => ?_)
    (inferBranch_parts _ _ _ _) (inferBranch_parts _ _ _ _)
  have ho₁ := ho.mono hgrows₁
  obtain ⟨-, -, -, hcriteriaSpelled, -⟩ := hspelled
  have hs₁ : SharedLevels N made₁ (Scope.levels ⟨front.1.columns, outer⟩)
      (Scope.levels ⟨front'.1.columns, outer'⟩) :=
    .cons hfront.sources.issued hff'.sources ho₁
  refine .after hbefore₁ (.some hs₁ hcriteriaSpelled) hcriteria
    fun made₂ found' t' hgrows₂ hbefore₂ _ _ => ?_
  have hs₂ := (ho₁.groupedScope hfront hff').mono hgrows₂
  refine .congr (.bind hbefore₂ (hhere made₂ t' front' hbefore₂ hs₂) fun hmade _ _ _ => ?_)
    (congrArg (Analyze.outcome · t) (bind_assoc _ _ _).symm)
    (congrArg (Analyze.outcome · t') (bind_assoc _ _ _).symm)
  have hfront' := hff'.narrow (Nat.le_trans hgrows₂.length_le hmade) hfront
  have hs : Scope.Stands (p.outlook N) ⟨front.1.columns, outer⟩ ⟨front'.1.columns, outer'⟩ :=
    ⟨hfront'.sources, (ho₁.mono hgrows₂).narrow hmade⟩
  exact .pure ⟨proveColumns_stands (fun _ _ => any_provesNotNull hs hcriteriaSpelled)
    hfront'.columns, hfront'.sources⟩

theorem group (distinct : Bool) {items : List Item} {sources : List Source} {joins : List Join}
    {criteria : Option Expr} {xs : List Expr} (ys : List Expr) (having : Option Expr) {e e' : Expr}
    {front : Sources × List OutputColumn} {found : Option Inferred} {is : List Inferred}
    (hrun : (inferProjected setting outer
      ⟨distinct, items, sources, joins, criteria, xs ++ e :: ys, having⟩).outcome r =
      .ok (front, s))
    (hcriteria : (inferSome setting ⟨front.1.columns, outer⟩ criteria).outcome s = .ok (found, t))
    (hxs : (inferAll setting (groupedScope outer front) xs).outcome t = .ok (is, u))
    (ih : (Counterparts.expr (groupedScope outer front) e e').Lead p N u) :
    (Counterparts.branch outer ⟨distinct, items, sources, joins, criteria, xs ++ e :: ys, having⟩
      ⟨distinct, items, sources, joins, criteria, xs ++ e' :: ys, having⟩).Lead p N r := by
  intro made r' outer' hbefore ho hspelled
  refine behindCriteria hrun hcriteria hbefore ho hspelled fun made₁ t' front' hbefore₁ hs₁ => ?_
  obtain ⟨-, -, -, -, hgroup, hhaving⟩ := hspelled
  refine (all hxs ih hbefore₁ hs₁ hgroup).bind hbefore₁ fun hmade _ _ _ => ?_
  exact (Onward.some setting having hhaving (hs₁.narrowScope hmade)).mono fun _ _ _ => trivial

theorem having (distinct : Bool) {items : List Item} {sources : List Source} {joins : List Join}
    {criteria : Option Expr} {group : List Expr} {e e' : Expr}
    {front : Sources × List OutputColumn} {found : Option Inferred} {is : List Inferred}
    (hrun : (inferProjected setting outer
      ⟨distinct, items, sources, joins, criteria, group, some e⟩).outcome r = .ok (front, s))
    (hcriteria : (inferSome setting ⟨front.1.columns, outer⟩ criteria).outcome s = .ok (found, t))
    (hgroup : (inferAll setting (groupedScope outer front) group).outcome t = .ok (is, u))
    (ih : (Counterparts.expr (groupedScope outer front) e e').Lead p N u) :
    (Counterparts.branch outer ⟨distinct, items, sources, joins, criteria, group, some e⟩
      ⟨distinct, items, sources, joins, criteria, group, some e'⟩).Lead p N r := by
  intro made r' outer' hbefore ho hspelled
  refine behindCriteria hrun hcriteria hbefore ho hspelled fun made₁ t' front' hbefore₁ hs₁ => ?_
  obtain ⟨-, -, -, -, hgroupSpelled, he⟩ := hspelled
  refine .after hbefore₁ (.all hs₁ hgroupSpelled) hgroup
    fun made₂ _ u' hgrows₂ hbefore₂ _ _ => ?_
  exact (ih made₂ u' _ hbefore₂ (hs₁.mono hgrows₂) he).bind hbefore₂ fun _ _ _ _ => .pure trivial

end Lead

end QuerySignature
