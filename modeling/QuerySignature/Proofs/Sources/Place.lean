import QuerySignature.Proofs.Sources.Link
import QuerySignature.Proofs.Walk.Aside
import QuerySignature.Proofs.Walk.Lists

namespace QuerySignature

/-! # Places of inner queries

A query stands in another one as a common table, or as a listed or joined derived table. It is
analysed behind what precedes it in the text of the sources, and what follows only adds to the run
that it leaves.

- `Select.Plain.walk`: the output columns of a query are linked to the inner columns that they refer
  to, by constraints behind those of the sources.
- `PlainWalk.inner`: the walk over a query passes by every inner query of its sources, and from one
  that the query only refers to it goes on aside of it.
-/

/-! ## The walk in two pieces -/

theorem outcome_inferCtes_append (setting : Setting) (outer : List Level) (xs ys : List Cte)
    (r : Run) :
    (inferCtes setting outer (xs ++ ys)).outcome r =
      ((inferCtes setting outer xs).outcome r).bind fun p =>
        (inferCtes setting outer ys).outcome p.2 := by
  rw [inferCtes_append, Analyze.outcome_bind]

theorem outcome_inferSources_cons (setting : Setting) (done : Sources) (x : Source)
    (rest : List Source) (r : Run) :
    (inferSources setting done (x :: rest)).outcome r =
      ((inferSource setting x).outcome r).bind fun p =>
        (inferSources setting (done.add x p.1) rest).outcome p.2 := by
  conv_lhs => unfold inferSources
  rw [Analyze.outcome_bind]

theorem outcome_inferSources_append (setting : Setting) (done : Sources) (xs ys : List Source)
    (r : Run) :
    (inferSources setting done (xs ++ ys)).outcome r =
      ((inferSources setting done xs).outcome r).bind fun p =>
        (inferSources setting p.1 ys).outcome p.2 := by
  rw [inferSources_append, Analyze.outcome_bind]

theorem outcome_inferJoins_cons (setting : Setting) (outer : List Level) (done : Sources)
    (previous : String) (j : Join) (rest : List Join) (r : Run) :
    (inferJoins setting outer done previous (j :: rest)).outcome r =
      ((inferSource setting j.source).outcome r).bind fun p =>
        ((inferCondition setting ⟨done.columns ++ p.1, outer⟩ j.condition).outcome p.2).bind
          fun u => (inferJoins setting outer
            (done.join outer previous j.kind j.source j.condition p.1) j.source.visibleName
            rest).outcome u.2 := by
  rcases j with ⟨kind, source, condition⟩
  conv_lhs => unfold inferJoins
  simp only [Analyze.outcome_bind]

/-- A join succeeds in reading its source and in walking over its condition. -/
theorem join_of_cons {setting : Setting} {outer : List Level} {done joined : Sources}
    {previous : String} {j : Join} {rest : List Join} {r s : Run}
    (h : (inferJoins setting outer done previous (j :: rest)).outcome r = .ok (joined, s)) :
    ∃ level t u, (inferSource setting j.source).outcome r = .ok (level, t) ∧
      (inferCondition setting ⟨done.columns ++ level, outer⟩ j.condition).outcome t = .ok ((), u) ∧
      (inferJoins setting outer (done.join outer previous j.kind j.source j.condition level)
        j.source.visibleName rest).outcome u = .ok (joined, s) := by
  rw [outcome_inferJoins_cons] at h
  obtain ⟨⟨level, t⟩, hsource, h⟩ := bind_eq_ok.1 h
  obtain ⟨⟨_, u⟩, hcondition, h⟩ := bind_eq_ok.1 h
  exact ⟨level, t, u, hsource, hcondition, h⟩

theorem outcome_inferJoins_append (setting : Setting) (outer : List Level) (done : Sources)
    (previous : String) (xs ys : List Join) (r : Run) :
    (inferJoins setting outer done previous (xs ++ ys)).outcome r =
      ((inferJoins setting outer done previous xs).outcome r).bind fun p =>
        (inferJoins setting outer p.1 (lastJoined previous xs) ys).outcome p.2 := by
  rw [inferJoins_append, Analyze.outcome_bind]

/-! ## One source after the other -/

namespace Run.Sound

variable {made : List TypeInfo} {r s : Run} {setting : Setting} {done : Sources}

/-- A walk over listed sources goes over the first one to a sound run, and on from there. -/
theorem listStep (h : r.Sound made) (hdone : done.Matches .none made done) {x : Source}
    {rest : List Source} {listed : Sources}
    (hs : (inferSources setting done (x :: rest)).outcome r = .ok (listed, s)) :
    ∃ level t made', (inferSource setting x).outcome r = .ok (level, t) ∧
      (inferSources setting (done.add x level) rest).outcome t = .ok (listed, s) ∧
      made <+: made' ∧ t.Sound made' ∧ t.ctes = r.ctes ∧
      (done.add x level).Matches .none made' (done.add x level) := by
  rw [outcome_inferSources_cons] at hs
  rcases bind_eq_ok.1 hs with ⟨⟨level, t⟩, hsource, hs⟩
  obtain ⟨made₁, hgrows, hsound, -, hctes, hissued, -⟩ :=
    h.advance (.source setting x (Parallel.reads_all _)) hsource
  have hadded := (hdone.mono hgrows).add x hissued
  rw [Renaming.none_level] at hadded
  exact ⟨level, t, made₁, hsource, hs, hgrows, hsound, hctes, hadded⟩

/-- A walk over joins goes over the first source and its condition to a sound run, and on from
there. -/
theorem joinStep (h : r.Sound made) {outer : List Level} (houter : ∀ l ∈ outer, Level.Issued made l)
    (hdone : done.Matches .none made done) {previous : String} {j : Join} {rest : List Join}
    {joined : Sources}
    (hs : (inferJoins setting outer done previous (j :: rest)).outcome r = .ok (joined, s)) :
    ∃ level t u made', (inferSource setting j.source).outcome r = .ok (level, t) ∧
      (inferCondition setting ⟨done.columns ++ level, outer⟩ j.condition).outcome t = .ok ((), u) ∧
      (inferJoins setting outer (done.join outer previous j.kind j.source j.condition level)
        j.source.visibleName rest).outcome u = .ok (joined, s) ∧
      made <+: made' ∧ u.Sound made' ∧ u.ctes = r.ctes ∧
      (done.join outer previous j.kind j.source j.condition level).Matches .none made'
        (done.join outer previous j.kind j.source j.condition level) := by
  obtain ⟨level, t, u, hsource, hcondition, hs⟩ := join_of_cons hs
  obtain ⟨made₁, hgrows₁, hsound₁, -, hctes₁, hissued, -⟩ :=
    h.advance (.source setting j.source (Parallel.reads_all _)) hsource
  have hdone₁ := hdone.mono hgrows₁
  have hscope : Scope.Matches .none made₁ ⟨done.columns ++ level, outer⟩
      ⟨done.columns ++ level, outer⟩ :=
    .beside (hdone₁.issued.append hissued) fun l hl => (houter l hl).mono hgrows₁
  obtain ⟨made₂, hgrows₂, hsound₂, -, hctes₂, -⟩ := hsound₁.advance
    (.condition setting j.condition (Parallel.reads_all _) hscope) hcondition
  have hjoined := (hdone₁.mono hgrows₂).join outer outer previous j.kind j.source j.condition
    (hissued.mono hgrows₂)
  rw [Renaming.none_level] at hjoined
  exact ⟨level, t, u, made₂, hsource, hcondition, hs, hgrows₁.trans hgrows₂, hsound₂,
    hctes₂.trans hctes₁, hjoined⟩

end Run.Sound

/-! ## Names of common tables -/

theorem ctes_of_query {setting : Setting} {outer : List Level} {q : Select} {r s : Run}
    {result : QueryResult} (h : (inferQuery setting outer q).outcome r = .ok (result, s)) :
    s.ctes = r.ctes := by
  obtain ⟨rc, results, ru, head, ro, rl, -, -, -, -, -, -, rfl⟩ := clauses_of_query h
  rfl

/-- A name that no common table has means the same behind them. -/
theorem cte?_of_commonTables {setting : Setting} {outer : List Level} {ctes : List Cte} {r s : Run}
    {name : String} (h : (inferCtes setting outer ctes).outcome r = .ok ((), s))
    (hname : ∀ cte ∈ ctes, sameName cte.name name = false) : s.cte? name = r.cte? name := by
  induction ctes generalizing r with
  | nil =>
    cases h
    rfl
  | cons cte rest ih =>
    rw [outcome_inferCtes_cons] at h
    rcases bind_eq_ok.1 h with ⟨⟨result, t⟩, hquery, h⟩
    have hother : sameName cte.name name = false := hname _ List.mem_cons_self
    rw [ih h fun cte hcte => hname cte (List.mem_cons_of_mem _ hcte), Run.cte?_declare, hother]
    exact Run.cte?_congr (ctes_of_query hquery) name

theorem hidden_of_commonTables {setting : Setting} {outer : List Level} {ctes : List Cte}
    {behind r : Run} (h : (inferCtes setting outer ctes).outcome .start = .ok ((), behind))
    (hsame : r.ctes = behind.ctes) {name : String}
    (hname : ∀ cte ∈ ctes, sameName cte.name name = false) : r.cte? name = none :=
  (Run.cte?_congr hsame name).trans (cte?_of_commonTables h hname)

/-! ## Plain queries -/

/-- A query of one branch without GROUP BY, HAVING and ORDER BY. -/
structure Select.Plain (s : Select) (b : Branch) : Prop where
  branches : s.branches = [b]
  group : b.group = []
  having : b.having = none
  order : s.order = []

/-- Whether a query does no more with the columns of its sources than to refer to them: its items,
its filter and its limit are simple. -/
def Select.onlyRefers (s : Select) (b : Branch) : Bool :=
  b.items.all Item.isSimple && b.criteria.all Expr.isSimple && s.limit.all Limit.isGiven

/-- The walk over a plain query: its common tables, its listed and its joined sources, and the
rest. -/
structure PlainWalk (setting : Setting) (s : Select) (b : Branch) (result : QueryResult)
    (run : Run) where
  behindCtes : Run
  listed : Sources
  behindListed : Run
  joined : Sources
  behindJoined : Run
  ctes : (inferCtes setting [] s.ctes).outcome .start = .ok ((), behindCtes)
  sources : (inferSources setting .empty b.sources).outcome behindCtes = .ok (listed, behindListed)
  joins : (inferJoins setting [] listed (Sources.lastName b.sources) b.joins).outcome
    behindListed = .ok (joined, behindJoined)
  kept : behindJoined.constraints <+: run.constraints
  linked : run.LinksAll result.columns
  aside : s.onlyRefers b = true → behindJoined.GoesAside run

theorem Select.Plain.outcome {setting : Setting} {s : Select} {b : Branch} (h : s.Plain b) (r : Run) :
    (inferQuery setting [] s).outcome r =
      ((inferCtes setting [] s.ctes).outcome r).bind fun ctes =>
      ((inferFront setting [] b).outcome ctes.2).bind fun front =>
      ((inferLimit setting ⟨front.1.1.columns, []⟩ s.limit).outcome front.2).bind fun limit =>
        .ok (.of (b.result [] front.1) (b.result [] front.1).columns s.branches s.order s.limit,
          { limit.2 with ctes := r.ctes }) := by
  rw [outcome_inferQuery, h.branches, h.order]
  simp only [outcome_inferUnion_cons, outcome_inferBranch, h.group, h.having, bind_bind]
  rfl

theorem Select.Plain.walk {setting : Setting} {s : Select} {b : Branch} {result : QueryResult}
    {run : Run} (h : s.Plain b)
    (hwalk : (inferQuery setting [] s).outcome .start = .ok (result, run)) :
    Nonempty (PlainWalk setting s b result run) := by
  rw [h.outcome] at hwalk
  rcases bind_eq_ok.1 hwalk with ⟨⟨_, rc⟩, hctes, hwalk⟩
  rcases bind_eq_ok.1 hwalk with ⟨⟨front, rf⟩, hfront, hwalk⟩
  rcases bind_eq_ok.1 hwalk with ⟨⟨_, rl⟩, hlimit, hwalk⟩
  cases hwalk
  obtain ⟨joined, columns⟩ := front
  obtain ⟨listed, rs, rj, ri, _, hsources, hjoins, hitems, hcriteria⟩ := clauses_of_front hfront
  dsimp only at *
  -- the projection starts from a sound run, and links what it refers to
  obtain ⟨made₁, -, hsound₁, -⟩ :=
    Run.Sound.start.commonTables (fun _ hl => absurd hl List.not_mem_nil) hctes
  obtain ⟨made₂, hgrows₂, hsound₂, -, -, hlisted⟩ := hsound₁.sources
    (.empty made₁) hsources
  obtain ⟨made₃, hgrows₃, hsound₃, -, -, hjoined⟩ := hsound₂.joins
    (fun _ hl => absurd hl List.not_mem_nil) hlisted hjoins
  have hscope : Scope.Matches .none made₃ ⟨joined.columns, []⟩ ⟨joined.columns, []⟩ :=
    ⟨hjoined.issued, hjoined.columns, .nil _ _⟩
  have hcut := hsound₃.withPlaceholders
    (hsound₃.placeholders.subset (List.take_subset rc.placeholders.length _))
  have hlinks := linked_of_items hcut hscope hitems
  obtain ⟨made₄, hgrows₄, hsound₄, hkept₄, -, -⟩ := hcut.advance
    (.items setting b.items (Parallel.reads_all _) hscope) hitems
  -- the rest only adds constraints
  have hlater := hsound₃.placeholders.subset (List.drop_subset rc.placeholders.length _)
  have happended := hsound₄.withPlaceholders
    (hsound₄.placeholders.append (hlater.mono hgrows₄))
  obtain ⟨made₅, hgrows₅, hsound₅, hkept₅, -, -⟩ := happended.advance
    (.some setting b.criteria (Parallel.reads_all _) (hscope.mono hgrows₄)) hcriteria
  obtain ⟨-, -, -, hkept₆, -, -⟩ := hsound₅.advance
    (.limitTo setting s.limit (Parallel.reads_all _) ((hscope.mono hgrows₄).mono hgrows₅)) hlimit
  refine ⟨⟨rc, listed, rs, joined, rj, hctes, hsources, hjoins,
    hkept₄.trans (hkept₅.trans hkept₆), ?_, ?_⟩⟩
  · intro c hc column hsource hprojected
    rcases List.mem_map.1 hc with ⟨d, hd, rfl⟩
    exact (hlinks d hd column hsource hprojected).mono (hkept₅.trans hkept₆)
  · intro hrefers
    simp only [Select.onlyRefers, Bool.and_eq_true] at hrefers
    rcases hrefers with ⟨⟨hsimple, hfilter⟩, hgiven⟩
    have hamong : Scope.Among rj.issued ⟨joined.columns, []⟩ :=
      hscope.among (Nat.le_of_eq hsound₃.issued.symm)
    have hprojection := StaysAside.items hamong hsimple _ _ _ (by exact Nat.le_refl rj.issued) hitems
    have hfiltered := StaysAside.some hamong hfilter _ _ _ (by exact hprojection.le) hcriteria
    have hlimited := StaysAside.limitTo hgiven _ _ _ (Nat.zero_le _) hlimit
    exact hprojection.trans (hfiltered.trans hlimited)

/-! ## Inner queries -/

/-- A place where a query may stand in the sources of another one. -/
inductive QueryPlace where
  | commonTable (index : Nat)
  | listed (index : Nat)
  | joined (index : Nat)
  deriving DecidableEq, Repr

/-- The query of a derived table. -/
def Source.query? : Source → Option Select
  | .table _ _ => none
  | .derived q _ => some q

/-- The query at a place. -/
def Select.at? (s : Select) (b : Branch) : QueryPlace → Option Select
  | .commonTable k => s.ctes[k]?.map (·.query)
  | .listed k => b.sources[k]?.bind Source.query?
  | .joined k => b.joins[k]?.bind fun j => j.source.query?

/-- The common tables that the query at a place may read. -/
def Select.ctesBefore (s : Select) : QueryPlace → List Cte
  | .commonTable k => s.ctes.take k
  | .listed _ | .joined _ => s.ctes

/-- Whether a query only refers to what the query at a place gives: it reads all other sources by
their names, and has no ON behind that place. -/
def Select.onlyRefersTo (s : Select) (b : Branch) (place : QueryPlace) : Bool :=
  s.onlyRefers b && match place with
    | .commonTable k =>
      (s.ctes.drop (k + 1)).isEmpty && b.sources.all Source.isNamed && b.joins.all Join.isSimple
    | .listed k => (b.sources.drop (k + 1)).all Source.isNamed && b.joins.all Join.isSimple
    | .joined k => (b.joins[k]?.all fun j => j.condition.isSimple) &&
        (b.joins.drop (k + 1)).all Join.isSimple

/-- What is analysed before the query at a place. -/
def inferBefore (setting : Setting) (s : Select) (b : Branch) : QueryPlace → Analyze Unit
  | .commonTable k => inferCtes setting [] (s.ctes.take k)
  | .listed k => do
    inferCtes setting [] s.ctes
    let _ ← inferSources setting .empty (b.sources.take k)
    pure ()
  | .joined k => do
    inferCtes setting [] s.ctes
    let listed ← inferSources setting .empty b.sources
    let _ ← inferJoins setting [] listed (Sources.lastName b.sources) (b.joins.take k)
    pure ()

/-- The walk over a query passes by an inner query: the run before it, what it gives, and the run
behind it, from which it goes aside if it only refers to what the inner query gives. -/
structure Inner (setting : Setting) (s : Select) (b : Branch) (place : QueryPlace) (q : Select)
    (run before : Run) (result : QueryResult) (behind : Run) : Prop where
  walk : (inferBefore setting s b place).outcome .start = .ok ((), before)
  sound : ∃ made, before.Sound made
  hides : ∀ name, (∀ cte ∈ s.ctesBefore place, sameName cte.name name = false) →
    before.cte? name = none
  query : (inferQuery setting [] q).outcome before = .ok (result, behind)
  kept : behind.constraints <+: run.constraints
  aside : s.onlyRefersTo b place = true → behind.GoesAside run

section Passing

variable {setting : Setting} {s : Select} {b : Branch} {q : Select} {result : QueryResult}
  {run : Run}

/-- The query of a derived table gives the columns of the source. -/
theorem outcome_derived {x : Source} (hx : x.query? = some q) {r r₁ : Run} {l : Level}
    (h : (inferSource setting x).outcome r = .ok (l, r₁)) :
    ∃ inner table, (inferQuery setting [] q).outcome r = .ok (inner, r₁) ∧
      l = levelOf table inner.columns := by
  cases x with
  | table name aliasName => cases hx
  | derived query aliasName =>
    cases hx
    obtain ⟨inner, hquery, rfl⟩ := query_of_derived h
    exact ⟨inner, aliasName, hquery, rfl⟩

theorem PlainWalk.inner_commonTable (w : PlainWalk setting s b result run) {k : Nat}
    (hplace : s.at? b (.commonTable k) = some q) :
    ∃ before inner behind, Inner setting s b (.commonTable k) q run before inner behind := by
  rcases Option.map_eq_some_iff.1 hplace with ⟨cte, hcte, rfl⟩
  have hctes := w.ctes
  rw [split_at hcte, outcome_inferCtes_append] at hctes
  rcases bind_eq_ok.1 hctes with ⟨⟨_, r⟩, hbefore, hctes⟩
  rw [outcome_inferCtes_cons] at hctes
  rcases bind_eq_ok.1 hctes with ⟨⟨inner, t⟩, hquery, hctes⟩
  rcases Run.Sound.start.commonTables nothing_outer hbefore with ⟨made₁, -, hsound₁, -⟩
  rcases hsound₁.query nothing_outer hquery with ⟨made₂, -, hsound₂, -, -, hinner⟩
  obtain ⟨made₃, -, hsound₃, hkept₃⟩ := (hsound₂.declare cte.name
    (levelOf_matches cte.name hinner).1).commonTables nothing_outer hctes
  rcases hsound₃.sources (.empty made₃) w.sources with ⟨made₄, -, hsound₄, hkept₄, -, hlisted⟩
  rcases hsound₄.joins nothing_outer hlisted w.joins with ⟨-, -, -, hkept₅, -, -⟩
  refine ⟨r, inner, t, hbefore, ⟨made₁, hsound₁⟩, fun name => cte?_of_commonTables hbefore, hquery,
    hkept₃.trans (hkept₄.trans (hkept₅.trans w.kept)), fun hrefers => ?_⟩
  simp only [Select.onlyRefersTo, Bool.and_eq_true, List.isEmpty_iff] at hrefers
  rcases hrefers with ⟨hrest, ⟨hlast, hlisted⟩, hjoined⟩
  rw [hlast] at hctes
  have hdeclared := StaysAside.pure () _ _ _ (Nat.zero_le _) hctes
  have hsources := StaysAside.sources hlisted _ _ _ _ (Nat.zero_le _) w.sources
  have hjoins := StaysAside.joins hjoined _ _ _ _ _ _ (Nat.zero_le _) w.joins
  exact hdeclared.trans (hsources.trans (hjoins.trans (w.aside hrest)))

theorem PlainWalk.inner_listed (w : PlainWalk setting s b result run) {k : Nat}
    (hplace : s.at? b (.listed k) = some q) :
    ∃ before inner behind, Inner setting s b (.listed k) q run before inner behind := by
  rcases Option.bind_eq_some_iff.1 hplace with ⟨x, hx, hquery?⟩
  have hsources := w.sources
  rw [split_at hx, outcome_inferSources_append] at hsources
  rcases bind_eq_ok.1 hsources with ⟨⟨done, r⟩, hbefore, hsources⟩
  rw [outcome_inferSources_cons] at hsources
  rcases bind_eq_ok.1 hsources with ⟨⟨l, t⟩, hsource, hsources⟩
  rcases outcome_derived hquery? hsource with ⟨inner, table, hquery, rfl⟩
  rcases Run.Sound.start.commonTables nothing_outer w.ctes with ⟨made₁, -, hsound₁, -⟩
  rcases hsound₁.sources (.empty made₁) hbefore with ⟨made₂, -, hsound₂, -, hctes₂, hdone⟩
  rcases hsound₂.query nothing_outer hquery with ⟨made₃, hgrows₃, hsound₃, -, -, hinner⟩
  have hadded := (hdone.mono hgrows₃).add x (levelOf_matches table hinner).1
  rw [Renaming.none_level] at hadded
  rcases hsound₃.sources hadded hsources with ⟨made₄, -, hsound₄, hkept₄, -, hlisted⟩
  rcases hsound₄.joins nothing_outer hlisted w.joins with ⟨-, -, -, hkept₅, -, -⟩
  refine ⟨r, inner, t, ?_, ⟨made₂, hsound₂⟩, ?_, hquery, hkept₄.trans (hkept₅.trans w.kept), ?_⟩
  · unfold inferBefore
    simp only [Analyze.outcome_bind, w.ctes, Except.bind, hbefore, Analyze.outcome_pure]
  · intro name hname
    exact hidden_of_commonTables w.ctes hctes₂ hname
  · intro hrefers
    simp only [Select.onlyRefersTo, Bool.and_eq_true] at hrefers
    rcases hrefers with ⟨hrest, hlater, hjoined⟩
    have hsources := StaysAside.sources hlater _ _ _ _ (Nat.zero_le _) hsources
    have hjoins := StaysAside.joins hjoined _ _ _ _ _ _ (Nat.zero_le _) w.joins
    exact hsources.trans (hjoins.trans (w.aside hrest))

theorem PlainWalk.inner_joined (w : PlainWalk setting s b result run) {k : Nat}
    (hplace : s.at? b (.joined k) = some q) :
    ∃ before inner behind, Inner setting s b (.joined k) q run before inner behind := by
  rcases Option.bind_eq_some_iff.1 hplace with ⟨j, hj, hquery?⟩
  have hjoins := w.joins
  rw [split_at hj, outcome_inferJoins_append] at hjoins
  rcases bind_eq_ok.1 hjoins with ⟨⟨done, r⟩, hbefore, hjoins⟩
  obtain ⟨l, t, t', hsource, hcondition, hjoins⟩ := join_of_cons hjoins
  rcases outcome_derived hquery? hsource with ⟨inner, table, hquery, rfl⟩
  rcases Run.Sound.start.commonTables nothing_outer w.ctes with ⟨made₁, -, hsound₁, -⟩
  rcases hsound₁.sources (.empty made₁) w.sources with ⟨made₂, -, hsound₂, -, hctes₂, hlisted⟩
  rcases hsound₂.joins nothing_outer hlisted hbefore with ⟨made₃, -, hsound₃, -, hctes₃, hdone⟩
  rcases hsound₃.query nothing_outer hquery with ⟨made₄, hgrows₄, hsound₄, -, -, hinner⟩
  have hlevel := (levelOf_matches table hinner).1
  have hdone₄ := hdone.mono hgrows₄
  obtain ⟨made₅, hgrows₅, hsound₅, hkept₅, -, -⟩ := hsound₄.advance
    (.condition setting j.condition (Parallel.reads_all _)
      (.beside (hdone₄.issued.append hlevel) nothing_outer)) hcondition
  have hnext := (hdone₄.mono hgrows₅).join [] [] (lastJoined (Sources.lastName b.sources)
    (b.joins.take k)) j.kind j.source j.condition (hlevel.mono hgrows₅)
  rw [Renaming.none_level] at hnext
  rcases hsound₅.joins nothing_outer hnext hjoins with ⟨-, -, -, hkept₆, -, -⟩
  refine ⟨r, inner, t, ?_, ⟨made₃, hsound₃⟩, ?_, hquery, hkept₅.trans (hkept₆.trans w.kept), ?_⟩
  · unfold inferBefore
    simp only [Analyze.outcome_bind, w.ctes, w.sources, Except.bind, hbefore,
      Analyze.outcome_pure]
  · intro name hname
    exact hidden_of_commonTables w.ctes (hctes₃.trans hctes₂) hname
  · intro hrefers
    simp only [Select.onlyRefersTo, Bool.and_eq_true, hj, Option.all_some] at hrefers
    rcases hrefers with ⟨hrest, hsimple, hlater⟩
    have hcondition := StaysAside.condition hsimple _ _ _ (Nat.zero_le _) hcondition
    have hjoins := StaysAside.joins hlater _ _ _ _ _ _ (Nat.zero_le _) hjoins
    exact hcondition.trans (hjoins.trans (w.aside hrest))

/-- The walk over a plain query passes by every inner query of its sources. -/
theorem PlainWalk.inner (w : PlainWalk setting s b result run) {place : QueryPlace}
    (hplace : s.at? b place = some q) :
    ∃ before inner behind, Inner setting s b place q run before inner behind := by
  cases place with
  | commonTable k => exact w.inner_commonTable hplace
  | listed k => exact w.inner_listed hplace
  | joined k => exact w.inner_joined hplace

end Passing

end QuerySignature
