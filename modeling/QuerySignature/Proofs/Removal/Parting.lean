import QuerySignature.Proofs.Removal.Pieces

namespace QuerySignature

/-! # Queries without a clause

The walk over a query and the walk over the query without one of its clauses go one way up to that
clause. One then walks over the clause, the other one does not, and both go on with the same parts.

- `Select.without`: a query without a clause.
- `inferUpTo`: the walk up to a clause.
- `exists_parting`: the two walks in pieces.
-/

/-- A clause of a query that does not project. GROUP BY and HAVING are those of a branch. -/
inductive Clause where
  | order
  | limit
  | group (index : Nat)
  | having (index : Nat)
  deriving DecidableEq, Repr

/-- A query without a clause. -/
def Select.without (q : Select) : Clause → Select
  | .order => { q with order := [] }
  | .limit => { q with limit := none }
  | .group i => { q with branches := q.branches.modify i fun b => { b with group := [] } }
  | .having i => { q with branches := q.branches.modify i fun b => { b with having := none } }

/-- Analyses a query up to a clause, and gives the analysis of the clause. -/
def inferUpTo (setting : Setting) (q : Select) : Clause → Analyze (Analyze Unit)
  | .order => do
    inferCtes setting [] q.ctes
    let results ← inferUnion setting [] q.branches
    let head ← lift (unionOf q.text results)
    pure (inferOrder setting (orderScope [] head) q.order)
  | .limit => do
    inferCtes setting [] q.ctes
    let results ← inferUnion setting [] q.branches
    let head ← lift (unionOf q.text results)
    inferOrder setting (orderScope [] head) q.order
    pure (inferLimit setting ⟨head.1.visible, []⟩ q.limit)
  | .group i => do
    inferCtes setting [] q.ctes
    let _ ← inferUnion setting [] (q.branches.take i)
    match q.branches[i]? with
    | none => pure (pure ())
    | some b => do
      let front ← inferFront setting [] b
      pure do
        let _ ← inferAll setting (groupedScope [] front) b.group
  | .having i => do
    inferCtes setting [] q.ctes
    let _ ← inferUnion setting [] (q.branches.take i)
    match q.branches[i]? with
    | none => pure (pure ())
    | some b => do
      let front ← inferFront setting [] b
      let _ ← inferAll setting (groupedScope [] front) b.group
      pure do
        let _ ← inferSome setting (groupedScope [] front) b.having

/-! ## The two walks -/

/-- The walk over a query in two pieces with a clause between them, and the walk without the
clause. -/
structure Parting (setting : Setting) (q : Select) (c : Clause) (result : QueryResult)
    (run : Run) where
  made : List TypeInfo
  before : Run
  clause : Analyze Unit
  behind : Run
  rest : Analyze QueryResult
  restWithout : Analyze QueryResult
  last : Run
  upTo : (inferUpTo setting q c).outcome .start = .ok (clause, before)
  asks : clause.outcome before = .ok ((), behind)
  sound : before.Sound made
  behindSound : ∃ made', made <+: made' ∧ behind.Sound made'
  kept : before.constraints <+: behind.constraints
  ctes : behind.ctes = before.ctes
  walk : rest.outcome behind = .ok (result, last)
  asked : run.constraints = last.constraints
  without : (inferQuery setting [] (q.without c)).outcome .start =
    (restWithout.outcome before).bind fun p => .ok (p.1, { p.2 with ctes := [] })
  parallel : ∀ F : Frame, F.ρ.kept = made.length →
    Parallel F (fun _ => True) made (QueryResult.Matches F.ρ) restWithout rest

section

variable {setting : Setting} {q : Select} {result : QueryResult} {run : Run}

/-! ## ORDER BY and LIMIT -/

/-- The walk over a query up to its ORDER BY, over this, and over the rest. -/
structure HeadWalk (setting : Setting) (q : Select) (result : QueryResult) (run : Run) where
  made : List TypeInfo
  behindCtes : Run
  results : List BranchResult
  behindUnion : Run
  head : BranchResult × List OutputColumn
  behindOrder : Run
  last : Run
  ctes : (inferCtes setting [] q.ctes).outcome .start = .ok ((), behindCtes)
  union : (inferUnion setting [] q.branches).outcome behindCtes = .ok (results, behindUnion)
  ofUnion : unionOf q.text results = .ok head
  order : (inferOrder setting (orderScope [] head) q.order).outcome behindUnion =
    .ok ((), behindOrder)
  rest : (inferLast setting q head).outcome behindOrder = .ok (result, last)
  asked : run.constraints = last.constraints
  collected : run.placeholders = last.placeholders
  sound : behindUnion.Sound made
  first : head.1.Matches .none made head.1
  columns : List.Forall₂ (OutputColumn.Matches .none made) head.2 head.2

theorem exists_headWalk (h : (inferQuery setting [] q).outcome .start = .ok (result, run)) :
    Nonempty (HeadWalk setting q result run) := by
  rw [outcome_query_rest] at h
  rcases bind_eq_ok.1 h with ⟨⟨_, rc⟩, hctes, h⟩
  rcases bind_eq_ok.1 h with ⟨⟨results, rb⟩, hunion, h⟩
  rcases bind_eq_ok.1 h with ⟨⟨result, last⟩, hrest, h⟩
  cases h
  rw [outcome_inferRest] at hrest
  rcases bind_eq_ok.1 hrest with ⟨head, hhead, hrest⟩
  rcases bind_eq_ok.1 hrest with ⟨⟨_, ro⟩, horder, hlast⟩
  dsimp only at *
  rcases Run.Sound.start.commonTables nothing_outer hctes with ⟨made₁, -, hsound₁, -⟩
  rcases hsound₁.union nothing_outer hunion with ⟨made₂, -, hsound₂, -, -, hresults⟩
  rcases unionOf_matches hresults hhead with ⟨hfirst, hcolumns⟩
  exact ⟨⟨made₂, rc, results, rb, head, ro, last, hctes, hunion, hhead, horder, hlast, rfl, rfl,
    hsound₂, hfirst, hcolumns⟩⟩

namespace HeadWalk

theorem behindOrderSound (w : HeadWalk setting q result run) :
    ∃ made, w.made <+: made ∧ w.behindOrder.Sound made ∧
      w.behindUnion.constraints <+: w.behindOrder.constraints ∧
      w.behindOrder.ctes = w.behindUnion.ctes := by
  obtain ⟨made, hgrows, hsound, hkept, hctes, -⟩ := w.sound.advance
    (.orderBy setting q.order (Parallel.reads_all _) (orderScope_matches w.first w.columns)) w.order
  exact ⟨made, hgrows, hsound, hkept, hctes⟩

theorem upTo_order (w : HeadWalk setting q result run) :
    (inferUpTo setting q .order).outcome .start =
      .ok (inferOrder setting (orderScope [] w.head) q.order, w.behindUnion) := by
  unfold inferUpTo
  simp only [Analyze.outcome_bind, w.ctes, Except.bind, w.union, Analyze.outcome_lift, w.ofUnion,
    Except.map, Analyze.outcome_pure]

theorem upTo_limit (w : HeadWalk setting q result run) :
    (inferUpTo setting q .limit).outcome .start =
      .ok (inferLimit setting ⟨w.head.1.visible, []⟩ q.limit, w.behindOrder) := by
  unfold inferUpTo
  simp only [Analyze.outcome_bind, w.ctes, Except.bind, w.union, Analyze.outcome_lift, w.ofUnion,
    Except.map, w.order, Analyze.outcome_pure]

theorem parting_order (w : HeadWalk setting q result run) :
    Nonempty (Parting setting q .order result run) := by
  rcases w.behindOrderSound with ⟨made, hgrows, hsound, hkept, hctes⟩
  exact ⟨{
    made := w.made
    before := w.behindUnion
    clause := inferOrder setting (orderScope [] w.head) q.order
    behind := w.behindOrder
    rest := inferLast setting q w.head
    restWithout := inferLast setting (q.without .order) w.head
    last := w.last
    upTo := w.upTo_order
    asks := w.order
    sound := w.sound
    behindSound := ⟨made, hgrows, hsound⟩
    kept := hkept
    ctes := hctes
    walk := w.rest
    asked := w.asked
    without := by
      have hctes : (inferCtes setting [] (q.without .order).ctes).outcome .start = _ := w.ctes
      have hunion : (inferUnion setting [] (q.without .order).branches).outcome _ = _ := w.union
      rw [outcome_query_rest, hctes]
      simp only [Except.bind, hunion, outcome_inferRest, unionOf_text _ w.ofUnion]
      rfl
    parallel := by
      intro F hF
      exact .last (Parallel.reads_all _) rfl (w.first.kept hF)
        (List.forall₂_same.2 fun c hc => (List.forall₂_same.1 w.columns c hc).kept hF) }⟩

theorem parting_limit (w : HeadWalk setting q result run) :
    Nonempty (Parting setting q .limit result run) := by
  rcases w.behindOrderSound with ⟨made, hgrows, hsound, -, -⟩
  have hrest := w.rest
  unfold inferLast at hrest
  rw [Analyze.outcome_bind] at hrest
  rcases bind_eq_ok.1 hrest with ⟨⟨_, behind⟩, hlimit, hrest⟩
  have hfirst := w.first.mono hgrows
  obtain ⟨made', hgrows', hsound', hkept', hctes', -⟩ := hsound.advance
    (.limitTo setting q.limit (Parallel.reads_all _) (.beside hfirst.issued nothing_outer)) hlimit
  exact ⟨{
    made := made
    before := w.behindOrder
    clause := inferLimit setting ⟨w.head.1.visible, []⟩ q.limit
    behind := behind
    rest := pure (.of w.head.1 w.head.2 q.branches q.order q.limit)
    restWithout := pure (.of w.head.1 w.head.2 q.branches q.order none)
    last := w.last
    upTo := w.upTo_limit
    asks := hlimit
    sound := hsound
    behindSound := ⟨made', hgrows', hsound'⟩
    kept := hkept'
    ctes := hctes'
    walk := hrest
    asked := w.asked
    without := by
      have hctes : (inferCtes setting [] (q.without .limit).ctes).outcome .start = _ := w.ctes
      have hunion : (inferUnion setting [] (q.without .limit).branches).outcome _ = _ := w.union
      have horder : (inferOrder setting (orderScope [] w.head) (q.without .limit).order).outcome _ =
        _ := w.order
      rw [outcome_query_rest, hctes]
      simp only [Except.bind, hunion, outcome_inferRest, unionOf_text _ w.ofUnion, horder]
      rfl
    parallel := by
      intro F hF
      refine .pure (List.forall₂_same.2 fun c hc => ?_)
      exact ((List.forall₂_same.1 w.columns c hc).mono hgrows).kept hF }⟩

end HeadWalk

/-! ## GROUP BY and HAVING -/

/-- The walk over a query up to the GROUP BY of a branch, over this, over the HAVING of the branch,
and over the rest. -/
structure BranchWalk (setting : Setting) (q : Select) (i : Nat) (b : Branch) (result : QueryResult)
    (run : Run) where
  made : List TypeInfo
  behindCtes : Run
  earlier : List BranchResult
  behindEarlier : Run
  front : Sources × List OutputColumn
  behindFront : Run
  grouped : List Inferred
  behindGroup : Run
  having? : Option Inferred
  behindHaving : Run
  last : Run
  at? : q.branches[i]? = some b
  ctes : (inferCtes setting [] q.ctes).outcome .start = .ok ((), behindCtes)
  union : (inferUnion setting [] (q.branches.take i)).outcome behindCtes =
    .ok (earlier, behindEarlier)
  ofFront : (inferFront setting [] b).outcome behindEarlier = .ok (front, behindFront)
  group : (inferAll setting (groupedScope [] front) b.group).outcome behindFront =
    .ok (grouped, behindGroup)
  having : (inferSome setting (groupedScope [] front) b.having).outcome behindGroup =
    .ok (having?, behindHaving)
  rest : (inferBeyond setting q earlier (b.result [] front) (q.branches.drop (i + 1))).outcome
    behindHaving = .ok (result, last)
  asked : run.constraints = last.constraints
  sound : behindFront.Sound made
  earlierMatches : List.Forall₂ (BranchResult.Matches .none made) earlier earlier
  sourcesMatch : front.1.Matches .none made front.1
  columnsMatch : List.Forall₂ (OutputColumn.Matches .none made) front.2 front.2

theorem exists_branchWalk {i : Nat} {b : Branch} (hb : q.branches[i]? = some b)
    (h : (inferQuery setting [] q).outcome .start = .ok (result, run)) :
    Nonempty (BranchWalk setting q i b result run) := by
  rw [outcome_query_branch (split_at hb)] at h
  rcases bind_eq_ok.1 h with ⟨⟨_, rc⟩, hctes, h⟩
  rcases bind_eq_ok.1 h with ⟨⟨earlier, re⟩, hunion, h⟩
  rcases bind_eq_ok.1 h with ⟨⟨front, rf⟩, hfront, h⟩
  rcases bind_eq_ok.1 h with ⟨⟨grouped, rg⟩, hgroup, h⟩
  rcases bind_eq_ok.1 h with ⟨⟨having?, rh⟩, hhaving, h⟩
  rcases bind_eq_ok.1 h with ⟨⟨result, last⟩, hrest, h⟩
  cases h
  dsimp only at *
  rcases Run.Sound.start.commonTables nothing_outer hctes with ⟨made₁, -, hsound₁, -⟩
  rcases hsound₁.union nothing_outer hunion with ⟨made₂, -, hsound₂, -, -, hearlier⟩
  rcases hsound₂.front nothing_outer hfront with ⟨made₃, hgrows₃, hsound₃, -, -, hsources, hcolumns⟩
  exact ⟨⟨made₃, rc, earlier, re, front, rf, grouped, rg, having?, rh, last, hb, hctes,
    hunion, hfront, hgroup, hhaving, hrest, rfl, hsound₃,
    hearlier.imp fun _ _ hb => hb.mono hgrows₃, hsources, hcolumns⟩⟩

/-- Nothing to group by. -/
theorem outcome_inferAll_nil (setting : Setting) (scope : Scope) (r : Run) :
    (inferAll setting scope []).outcome r = .ok ([], r) := rfl

theorem outcome_inferSome_none (setting : Setting) (scope : Scope) (r : Run) :
    (inferSome setting scope none).outcome r = .ok (none, r) := rfl

namespace BranchWalk

variable {i : Nat} {b : Branch}

theorem modify_branches (w : BranchWalk setting q i b result run) (f : Branch → Branch) :
    q.branches.modify i f = q.branches.take i ++ f b :: q.branches.drop (i + 1) := by
  rcases List.getElem?_eq_some_iff.1 w.at? with ⟨hi, hb⟩
  rw [List.modify_eq_take_cons_drop hi, hb]

theorem scope (w : BranchWalk setting q i b result run) :
    Scope.Matches .none w.made (groupedScope [] w.front) (groupedScope [] w.front) := by
  refine .beside w.sourcesMatch.issued fun l hl => ?_
  cases List.mem_singleton.1 hl
  exact (levelOf_matches "" w.columnsMatch).1

theorem behindGroupSound (w : BranchWalk setting q i b result run) :
    ∃ made, w.made <+: made ∧ w.behindGroup.Sound made ∧
      w.behindFront.constraints <+: w.behindGroup.constraints ∧
      w.behindGroup.ctes = w.behindFront.ctes := by
  obtain ⟨made, hgrows, hsound, hkept, hctes, -⟩ := w.sound.advance
    (.all setting b.group (Parallel.reads_all _) w.scope) w.group
  exact ⟨made, hgrows, hsound, hkept, hctes⟩

/-- The results of a branch with another GROUP BY and another HAVING match, when the walks part
behind the branch's projection. -/
theorem result_matches (w : BranchWalk setting q i b result run) {ρ : Renaming}
    {made : List TypeInfo} (hgrows : w.made <+: made) (hkept : ρ.kept = made.length)
    (group group' : List Expr) (having having' : Option Expr) :
    BranchResult.Matches ρ made (Branch.result { b with group, having } [] w.front)
      (Branch.result { b with group := group', having := having' } [] w.front) := by
  have hscope : Scope.Matches ρ made ⟨w.front.1.columns, []⟩ ⟨w.front.1.columns, []⟩ :=
    Scope.Matches.kept hkept (.beside (w.sourcesMatch.issued.mono hgrows) nothing_outer)
  refine .of hscope b.sources b.joins b.criteria group group' ?_
  exact List.forall₂_same.2 fun c hc =>
    ((List.forall₂_same.1 w.columnsMatch c hc).mono hgrows).kept hkept

theorem earlier_matches (w : BranchWalk setting q i b result run) {ρ : Renaming}
    {made : List TypeInfo} (hgrows : w.made <+: made) (hkept : ρ.kept = made.length) :
    List.Forall₂ (BranchResult.Matches ρ made) w.earlier w.earlier :=
  List.forall₂_same.2 fun r hr =>
    ((List.forall₂_same.1 w.earlierMatches r hr).mono hgrows).kept hkept

theorem upTo_group (w : BranchWalk setting q i b result run) :
    (inferUpTo setting q (.group i)).outcome .start =
      .ok (inferAll setting (groupedScope [] w.front) b.group >>= fun _ => pure (),
        w.behindFront) := by
  unfold inferUpTo
  simp only [Analyze.outcome_bind, w.ctes, Except.bind, w.union, w.at?, w.ofFront,
    Analyze.outcome_pure]

theorem upTo_having (w : BranchWalk setting q i b result run) :
    (inferUpTo setting q (.having i)).outcome .start =
      .ok (inferSome setting (groupedScope [] w.front) b.having >>= fun _ => pure (),
        w.behindGroup) := by
  unfold inferUpTo
  simp only [Analyze.outcome_bind, w.ctes, ok_bind, w.union, w.at?, w.ofFront, w.group,
    Analyze.outcome_pure]

theorem parting_group (w : BranchWalk setting q i b result run) :
    Nonempty (Parting setting q (.group i) result run) := by
  rcases w.behindGroupSound with ⟨made, hgrows, hsound, hkept, hctes⟩
  exact ⟨{
    made := w.made
    before := w.behindFront
    clause := do
      let _ ← inferAll setting (groupedScope [] w.front) b.group
    behind := w.behindGroup
    rest := do
      let _ ← inferSome setting (groupedScope [] w.front) b.having
      inferBeyond setting q w.earlier (b.result [] w.front) (q.branches.drop (i + 1))
    restWithout := do
      let _ ← inferSome setting (groupedScope [] w.front) b.having
      inferBeyond setting (q.without (.group i)) w.earlier
        (Branch.result { b with group := [] } [] w.front) (q.branches.drop (i + 1))
    last := w.last
    upTo := w.upTo_group
    asks := by
      rw [Analyze.outcome_bind, w.group]
      rfl
    sound := w.sound
    behindSound := ⟨made, hgrows, hsound⟩
    kept := hkept
    ctes := hctes
    walk := by
      rw [Analyze.outcome_bind, w.having]
      simp only [Except.bind]
      exact w.rest
    asked := w.asked
    without := by
      have hbranches : (q.without (.group i)).branches =
          q.branches.take i ++ { b with group := [] } :: q.branches.drop (i + 1) :=
        w.modify_branches _
      have hctes : (inferCtes setting [] (q.without (.group i)).ctes).outcome .start = _ := w.ctes
      have hfront : (inferFront setting [] { b with group := [] }).outcome w.behindEarlier = _ :=
        w.ofFront
      rw [outcome_query_branch hbranches, hctes]
      simp only [ok_bind, w.union, hfront, outcome_inferAll_nil, Analyze.outcome_bind, bind_bind]
      rfl
    parallel := by
      intro F hF
      refine .bind (.some setting b.having (Parallel.reads_all _) (w.scope.kept hF))
        fun made' hgrows' _ _ _ => ?_
      have horder : q.order = (q.without (.group i)).order := rfl
      have hlimit : q.limit = (q.without (.group i)).limit := rfl
      refine .beyond (Parallel.reads_all _) horder hlimit ?_ ?_
      · exact (w.earlier_matches List.prefix_rfl hF).imp fun _ _ hr => hr.mono hgrows'
      · exact (w.result_matches List.prefix_rfl hF [] b.group b.having b.having).mono hgrows' }⟩

theorem parting_having (w : BranchWalk setting q i b result run) :
    Nonempty (Parting setting q (.having i) result run) := by
  rcases w.behindGroupSound with ⟨made, hgrows, hsound, -, -⟩
  obtain ⟨made', hgrows', hsound', hkept', hctes', -⟩ := hsound.advance
    (.some setting b.having (Parallel.reads_all _) (w.scope.mono hgrows)) w.having
  exact ⟨{
    made := made
    before := w.behindGroup
    clause := do
      let _ ← inferSome setting (groupedScope [] w.front) b.having
    behind := w.behindHaving
    rest := inferBeyond setting q w.earlier (b.result [] w.front) (q.branches.drop (i + 1))
    restWithout := inferBeyond setting (q.without (.having i)) w.earlier
      (Branch.result { b with having := none } [] w.front) (q.branches.drop (i + 1))
    last := w.last
    upTo := w.upTo_having
    asks := by
      rw [Analyze.outcome_bind, w.having]
      rfl
    sound := hsound
    behindSound := ⟨made', hgrows', hsound'⟩
    kept := hkept'
    ctes := hctes'
    walk := w.rest
    asked := w.asked
    without := by
      have hbranches : (q.without (.having i)).branches =
          q.branches.take i ++ { b with having := none } :: q.branches.drop (i + 1) :=
        w.modify_branches _
      have hctes : (inferCtes setting [] (q.without (.having i)).ctes).outcome .start = _ := w.ctes
      have hfront : (inferFront setting [] { b with having := none }).outcome w.behindEarlier = _ :=
        w.ofFront
      rw [outcome_query_branch hbranches, hctes]
      simp only [ok_bind, w.union, hfront, w.group, outcome_inferSome_none]
      rfl
    parallel := by
      intro F hF
      have horder : q.order = (q.without (.having i)).order := rfl
      have hlimit : q.limit = (q.without (.having i)).limit := rfl
      refine .beyond (Parallel.reads_all _) horder hlimit ?_ ?_
      · exact w.earlier_matches hgrows hF
      · exact w.result_matches hgrows hF b.group b.group none b.having }⟩

end BranchWalk

/-- A branch that is not there has no clauses. -/
theorem modify_missing {i : Nat} (hb : q.branches[i]? = none) (f : Branch → Branch) :
    { q with branches := q.branches.modify i f } = q := by
  rcases q with ⟨ctes, branches, order, limit⟩
  rw [List.modify_eq_self (List.getElem?_eq_none_iff.1 hb)]

theorem inferUpTo_missing {i : Nat} (hb : q.branches[i]? = none)
    (h : (inferQuery setting [] q).outcome .start = .ok (result, run)) :
    ∃ r, (inferUpTo setting q (.group i)).outcome .start = .ok (pure (), r) ∧
      (inferUpTo setting q (.having i)).outcome .start = .ok (pure (), r) := by
  rw [outcome_query_rest] at h
  rcases bind_eq_ok.1 h with ⟨⟨_, rc⟩, hctes, h⟩
  rcases bind_eq_ok.1 h with ⟨⟨results, rb⟩, hunion, h⟩
  have htake : q.branches.take i = q.branches :=
    List.take_of_length_le (List.getElem?_eq_none_iff.1 hb)
  refine ⟨rb, ?_, ?_⟩
  · unfold inferUpTo
    simp only [Analyze.outcome_bind, hctes, ok_bind, htake, hunion, hb, Analyze.outcome_pure]
  · unfold inferUpTo
    simp only [Analyze.outcome_bind, hctes, ok_bind, htake, hunion, hb, Analyze.outcome_pure]

/-- The two walks in pieces, unless the clause is one of a branch that is not there. -/
theorem exists_parting (h : (inferQuery setting [] q).outcome .start = .ok (result, run)) (c : Clause) :
    (q.without c = q ∧ ∃ r, (inferUpTo setting q c).outcome .start = .ok (pure (), r)) ∨
      Nonempty (Parting setting q c result run) := by
  cases c with
  | order =>
    rcases exists_headWalk h with ⟨w⟩
    exact .inr w.parting_order
  | limit =>
    rcases exists_headWalk h with ⟨w⟩
    exact .inr w.parting_limit
  | group i =>
    cases hb : q.branches[i]? with
    | none =>
      rcases inferUpTo_missing hb h with ⟨r, hgroup, -⟩
      exact .inl ⟨modify_missing hb _, r, hgroup⟩
    | some b =>
      rcases exists_branchWalk hb h with ⟨w⟩
      exact .inr w.parting_group
  | having i =>
    cases hb : q.branches[i]? with
    | none =>
      rcases inferUpTo_missing hb h with ⟨r, -, hhaving⟩
      exact .inl ⟨modify_missing hb _, r, hhaving⟩
    | some b =>
      rcases exists_branchWalk hb h with ⟨w⟩
      exact .inr w.parting_having

end

end QuerySignature
