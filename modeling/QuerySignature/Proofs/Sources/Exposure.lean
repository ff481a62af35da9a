import QuerySignature.Proofs.Sources.Star

namespace QuerySignature

/-! # What a query exposes to a query around it

A query may stand inside another as a derived table, as a common table or as a scalar. The query
around it sees the names of its columns, whether they can be null, and the variables of its first
branch; the types of the other branches of a UNION are taken into account for the columns of the
whole statement only.

- `describe_as_source`: a query inside another shows its columns in the types of its first branch,
  so that it shows them as it describes them exactly when the first branch has the widest types.
- `union_as_source_differs`: a UNION whose second branch is the wider one.
-/

/-- A branch that reads nothing. -/
def Branch.withoutSource (items : List Item) : Branch := ⟨false, items, [], [], none, [], none⟩

namespace Select

/-- `SELECT * FROM (q) alias`. -/
def asDerived (q : Select) (aliasName : String) : Select := .readAll [] (.derived q aliasName)

/-- `WITH name AS (q) SELECT * FROM name`. -/
def asCommonTable (q : Select) (name : String) : Select := .readAll [⟨name, q⟩] (.table name none)

/-- `SELECT (q) AS name`. -/
def asScalar (q : Select) (name : String) : Select :=
  ⟨[], [.withoutSource [.expr (.scalar q) (some name)]], [], none⟩

/-- The types that the columns of a query have in its first branch. -/
def firstTypes (setting : Setting) (q : Select) : List SqlType :=
  let (result, run) := (inferQuery setting [] q).runFrom .start
  match result, solve setting.profile run.constraints with
  | .ok result, .ok solution => result.columns.map fun c => solution.typeOf setting.profile c.var
  | _, _ => []

end Select

/-- What is seen of a column from outside a query. -/
structure ExposedColumn where
  name : String
  type : SqlType
  notNull : Bool
  deriving DecidableEq, Repr

/-- The columns of a description, as they are seen from outside. -/
def Description.exposed (d : Description) : List ExposedColumn :=
  d.columns.map fun c => ⟨c.name, c.type, c.notNull⟩

/-- The same columns in other types. -/
def Description.exposedAs (d : Description) (types : List SqlType) : List ExposedColumn :=
  List.zipWith (fun c type => ⟨c.name, type, c.notNull⟩) d.columns types

/-! ## A described query, and what it exposes inside -/

/-- A query that has been analysed and solved. -/
structure Analysed (setting : Setting) (q : Select) (result : QueryResult) (run : Run)
    (solution : Solution) : Prop where
  walk : (inferQuery setting [] q).outcome .start = .ok (result, run)
  solved : solve setting.profile run.constraints = .ok solution

section Exposure

variable {setting : Setting} {q : Select} {result : QueryResult} {run : Run} {solution : Solution}

theorem Analysed.firstTypes (h : Analysed setting q result run solution) :
    q.firstTypes setting = result.columns.map fun c => solution.typeOf setting.profile c.var := by
  unfold Select.firstTypes
  rw [Analyze.runFrom_of_outcome h.walk]
  simp only [h.solved]

/-- What a description shows in the types of the first branch. -/
theorem Analysed.exposedAs (h : Analysed setting q result run solution) :
    (Description.of setting.profile (.select q) ⟨result, 0⟩ run solution).exposedAs
        (q.firstTypes setting) =
      result.columns.map fun c => ⟨c.name, solution.typeOf setting.profile c.var, c.notNull⟩ := by
  rw [h.firstTypes]
  show List.zipWith _ (result.columns.map _) (result.columns.map _) = _
  rw [List.zipWith_map, List.zipWith_self]
  rfl

theorem levelOf_projected (table : String) (columns : List OutputColumn) :
    ∀ c ∈ levelOf table columns, c.var.projected = true := by
  intro c hc
  rcases List.mem_map.1 hc with ⟨d, -, rfl⟩
  rfl

/-- A query that reads all columns of a level that another query makes shows what that query
exposes. -/
theorem Analysed.readAll (h : Analysed setting q result run solution) (table : String) (r r₁ : Run)
    {ctes : List Cte} {source : Source}
    (hctes : (inferCtes setting [] ctes).outcome .start = .ok ((), r))
    (hsource : (inferSource setting source).outcome r = .ok (levelOf table result.columns, r₁))
    (hissued : r₁.issued = run.issued) (hconstraints : r₁.constraints = run.constraints)
    (hplaceholders : r₁.placeholders = run.placeholders)
    (hknown : ∀ made, run.Sound made → QueryResult.Matches .none made result result →
      ∀ entry ∈ r₁.ctes, Level.Issued made entry.2) :
    ∃ outer, describe setting (.select (.readAll ctes source)) = .ok outer ∧
      outer.exposed = (Description.of setting.profile (.select q) ⟨result, 0⟩ run solution).exposedAs
        (q.firstTypes setting) := by
  obtain ⟨made, -, hsound, -, -, hresult⟩ := Run.Sound.start.query
    (fun _ hl => absurd hl List.not_mem_nil) h.walk
  have hsound₁ : r₁.Sound made := by
    refine ⟨hissued.trans hsound.issued, ?_, hknown made hsound hresult, ?_⟩
    · rw [hconstraints]
      exact hsound.steps
    · rw [hplaceholders]
      exact hsound.placeholders
  have hsolve : solve setting.profile r₁.constraints = .ok solution := by
    rw [hconstraints]
    exact h.solved
  obtain ⟨outer, houter, hcolumns⟩ := describe_readAll hctes hsource (levelOf_projected _ _) hsound₁
    (levelOf_matches table hresult).1 hsolve
  refine ⟨outer, houter, ?_⟩
  unfold Description.exposed
  rw [hcolumns, h.exposedAs]
  unfold levelOf
  rw [List.map_map, List.map_map]
  rfl

theorem Analysed.asDerived (h : Analysed setting q result run solution) (aliasName : String) :
    ∃ outer, describe setting (.select (q.asDerived aliasName)) = .ok outer ∧
      outer.exposed = (Description.of setting.profile (.select q) ⟨result, 0⟩ run solution).exposedAs
        (q.firstTypes setting) := by
  refine h.readAll aliasName .start run rfl ?_ rfl rfl rfl ?_
  · show (inferQuery setting [] q >>= fun result =>
      pure (levelOf aliasName result.columns)).outcome .start = _
    rw [Analyze.outcome_bind, h.walk]
    rfl
  · exact fun made hsound _ => hsound.ctes

theorem Analysed.asCommonTable (h : Analysed setting q result run solution) {name : String}
    (hname : lastSegment name = name) :
    ∃ outer, describe setting (.select (q.asCommonTable name)) = .ok outer ∧
      outer.exposed = (Description.of setting.profile (.select q) ⟨result, 0⟩ run solution).exposedAs
        (q.firstTypes setting) := by
  let known : Run := { run with ctes := (name, levelOf name result.columns) :: run.ctes }
  have hctes : (inferCtes setting [] [⟨name, q⟩]).outcome .start = .ok ((), known) := by
    show (inferQuery setting [] q >>= fun result =>
      declareCte name (levelOf name result.columns) >>= fun _ =>
      inferCtes setting [] []).outcome .start = _
    rw [Analyze.outcome_bind, h.walk]
    rfl
  refine h.readAll name known known hctes ?_ rfl rfl rfl ?_
  · have hcte : known.cte? (lastSegment name) = some (levelOf name result.columns) := by
      rw [Run.cte?_declare, hname, sameName_refl, if_pos rfl]
    show (tableColumns setting.schema name none).outcome _ = _
    unfold tableColumns
    rw [Analyze.outcome_bind, Analyze.outcome_get]
    simp only [Except.bind, hcte, Analyze.outcome_pure]
    unfold levelOf
    rw [List.map_map]
    rfl
  · intro made hsound hresult entry hentry
    rcases List.mem_cons.1 hentry with rfl | hentry
    · exact (levelOf_matches name hresult).1
    · exact hsound.ctes entry hentry

/-! ## As a scalar -/

theorem outcome_asScalar (name : String) {result : QueryResult} {run : Run}
    (hwalk : (inferQuery setting [[]] q).outcome .start = .ok (result, run)) {c : OutputColumn}
    {rest : List OutputColumn} (hcolumns : result.columns = c :: rest) :
    ∃ outer run', (inferQuery setting [] (q.asScalar name)).outcome .start = .ok (outer, run') ∧
      outer.columns = [.ofInferred name (.ofVar c.var c.notNull)] ∧
      run'.constraints = run.constraints := by
  have hexpr : (inferExpr setting ⟨[], []⟩ (.scalar q)).outcome .start =
      .ok (.ofVar c.var c.notNull, run) := by
    show (inferQuery setting [[]] q >>= fun result => firstColumn q.text result >>= fun column =>
      pure (Inferred.ofVar column.var column.notNull)).outcome .start = _
    rw [Analyze.outcome_bind, hwalk]
    simp only [Except.bind, firstColumn, hcolumns]
    rfl
  have hitems : (inferItems setting ⟨[], []⟩ [.expr (.scalar q) (some name)]).outcome .start =
      .ok ([.ofInferred name (.ofVar c.var c.notNull)], run) := by
    show ((inferExpr setting ⟨[], []⟩ (.scalar q) >>= fun inferred =>
      pure [OutputColumn.ofInferred name inferred]) >>= fun first =>
      inferItems setting ⟨[], []⟩ [] >>= fun others => pure (first ++ others)).outcome .start = _
    rw [Analyze.outcome_bind, Analyze.outcome_bind, hexpr]
    rfl
  have hfront : ∃ run', (inferFront setting []
        (.withoutSource [.expr (.scalar q) (some name)])).outcome .start =
        .ok ((.empty, [.ofInferred name (.ofVar c.var c.notNull)]), run') ∧
      run'.constraints = run.constraints := by
    have hsources : (inferSources setting .empty []).outcome .start = .ok (.empty, .start) := rfl
    have hjoins : (inferJoins setting [] .empty (Sources.lastName []) []).outcome .start =
        .ok (.empty, .start) := rfl
    have hcut : (cutPlaceholders Run.start.placeholders.length).outcome .start =
        .ok ([], .start) := rfl
    have hempty : Sources.empty.columns = [] := rfl
    unfold inferFront Branch.withoutSource
    simp only [Analyze.outcome_bind, Analyze.outcome_get, Except.bind, hsources, hjoins, hcut,
      hempty, hitems]
    exact ⟨_, rfl, rfl⟩
  rcases hfront with ⟨run', hfront, hconstraints⟩
  refine ⟨_, _, outcome_plainQuery rfl rfl (r := .start) rfl hfront, ?_, hconstraints⟩
  unfold Branch.result Branch.withoutSource BranchResult.of QueryResult.of proveColumns
  simp

/-- As a scalar, a query is analysed among columns that are not there, which makes no difference. -/
theorem Analysed.asScalar (h : Analysed setting q result run solution) (name : String)
    {c : OutputColumn} {rest : List OutputColumn} (hcolumns : result.columns = c :: rest) :
    ∃ outer, describe setting (.select (q.asScalar name)) = .ok outer ∧
      outer.exposed = [⟨name, solution.typeOf setting.profile c.var, c.notNull⟩] := by
  have hbeside : Run.start.Matches ⟨.none, [], []⟩ [] .start := Run.Sound.start.beside
  have halike := Parallel.query (F := ⟨.none, [], []⟩) setting q (Parallel.reads_all q.tables)
    (LevelsMatch.nil .none []).empty_cons .start .start hbeside
    fun other _ => Run.Sound.start.seesAlike other
  rcases halike.of_ok h.walk with ⟨⟨result', run'⟩, hwalk, made, hreached, hresult⟩
  have hcolumns' : ∃ c' rest', result'.columns = c' :: rest' ∧ c'.var = c.var ∧
      c'.notNull = c.notNull := by
    unfold QueryResult.Matches at hresult
    simp only [hcolumns] at hresult
    revert hresult
    cases result'.columns with
    | nil => exact fun hresult => nomatch hresult
    | cons c' rest' =>
      intro hresult
      cases hresult with
      | cons hc _ => exact ⟨c', rest', rfl, hc.var.eq.trans (Renaming.none_var _), hc.notNull⟩
  rcases hcolumns' with ⟨c', rest', hcolumns', hvar, hnotNull⟩
  rcases outcome_asScalar name hwalk hcolumns' with ⟨outer, last, houter, houterColumns, hlast⟩
  -- the two walks ask for the same
  rcases hreached.runs.constraints with ⟨added, added', hadded, hadded', hmatch⟩
  have hmatch : List.Forall₂ (Equation.Matches .none made) (equationsOf run.constraints)
      (equationsOf last.constraints) := by
    rw [hlast]
    have hsteps := equationsOf_matches hmatch
    simp only [List.nil_append] at hadded hadded'
    rwa [← hadded, ← hadded'] at hsteps
  obtain ⟨made', -, hsound, -, -, hissued⟩ := Run.Sound.start.query
    (fun _ hl => absurd hl List.not_mem_nil) h.walk
  rcases solve_beside hmatch hsound.carries h.solved with ⟨solution', hsolve', hsolution'⟩
  refine ⟨_, describe_select_iff.2 ⟨outer, last, solution', houter, hsolve', rfl⟩, ?_⟩
  have hc : c.var.Issued made' := by
    unfold QueryResult.Matches at hissued
    rw [hcolumns] at hissued
    cases hissued with
    | cons hc _ => exact hc.var.issued
  have htype : solution'.typeOf setting.profile c'.var = solution.typeOf setting.profile c.var := by
    refine typeOf_eq ?_
    rw [hvar]
    exact hsolution' c.var hc.carries
  unfold Description.exposed
  show (outer.columns.map (·.result solution' setting.profile)).map _ = _
  rw [houterColumns, ← htype, ← hnotNull]
  rfl

end Exposure

/-- A described query is described inside another, too, and is seen there with its own names and
nullability, in the types of its first branch. So it shows what it describes exactly when the first
branch has the types that are the widest over all branches, as it has when there is no other. -/
theorem describe_as_source {setting : Setting} {q : Select} {d : Description}
    (h : describe setting (.select q) = .ok d) :
    (∀ aliasName, ∃ outer, describe setting (.select (q.asDerived aliasName)) = .ok outer ∧
      outer.exposed = d.exposedAs (q.firstTypes setting)) ∧
    (∀ name, lastSegment name = name →
      ∃ outer, describe setting (.select (q.asCommonTable name)) = .ok outer ∧
        outer.exposed = d.exposedAs (q.firstTypes setting)) ∧
    (∀ name first rest, d.exposedAs (q.firstTypes setting) = first :: rest →
      ∃ outer, describe setting (.select (q.asScalar name)) = .ok outer ∧
        outer.exposed = [⟨name, first.type, first.notNull⟩]) ∧
    (d.exposedAs (q.firstTypes setting) = d.exposed ↔
      q.firstTypes setting = d.columns.map (·.type)) ∧
    (q.branches.length = 1 → q.firstTypes setting = d.columns.map (·.type)) := by
  rcases describe_select_iff.1 h with ⟨result, run, solution, hwalk, hsolve, rfl⟩
  have hq : Analysed setting q result run solution := ⟨hwalk, hsolve⟩
  have hcolumns : (Description.of setting.profile (.select q) ⟨result, 0⟩ run solution).columns =
      result.columns.map (·.result solution setting.profile) := rfl
  refine ⟨hq.asDerived, fun name hname => hq.asCommonTable hname, ?_, ?_, ?_⟩
  · intro name first rest hexposed
    rw [hq.exposedAs] at hexposed
    cases hresult : result.columns with
    | nil => simp [hresult] at hexposed
    | cons c others =>
      simp only [hresult, List.map_cons, List.cons.injEq] at hexposed
      rw [← hexposed.1]
      exact hq.asScalar name hresult
  · rw [hq.exposedAs, hq.firstTypes, hcolumns, List.map_map]
    unfold Description.exposed
    rw [hcolumns, List.map_map]
    simp only [List.map_inj_left, Function.comp_apply, ExposedColumn.mk.injEq]
    constructor
    · exact fun hall c hc => (hall c hc).2.1
    · exact fun hall c hc => ⟨rfl, hall c hc, rfl⟩
  · intro hbranches
    rw [hq.firstTypes, hcolumns, List.map_map]
    refine List.map_congr_left fun c hc => ?_
    have hunion := unionVars_of_query hbranches hwalk c hc
    show _ = c.type solution setting.profile
    unfold OutputColumn.type
    rw [hunion]
    rfl

/-- `SELECT 1 AS a UNION SELECT 'a'`. -/
def numberOrText : Select :=
  ⟨[], [.withoutSource [.expr (.literal (.int 1)) (some "a")],
    .withoutSource [.expr (.literal (.string "a")) none]], [], none⟩

theorem describe_as_source_numberOrText :
    ∃ d outer, describe ⟨.empty, .mysql⟩ (.select numberOrText) = .ok d ∧
      describe ⟨.empty, .mysql⟩ (.select (numberOrText.asDerived "t")) = .ok outer ∧
      outer.exposed = d.exposedAs [.bigInt] := by
  have h : (describe ⟨.empty, .mysql⟩ (.select numberOrText)).isOk = true := rfl
  cases hd : describe ⟨.empty, .mysql⟩ (.select numberOrText) with
  | error e => simp [hd, Except.isOk, Except.toBool] at h
  | ok d =>
    rcases (describe_as_source hd).1 "t" with ⟨outer, houter, hexposed⟩
    exact ⟨d, outer, rfl, houter, hexposed⟩

/-- Alone, the column of a number and a text is a text; read as a derived table it is the number of
the first branch. -/
theorem union_as_source_differs :
    (describe ⟨.empty, .mysql⟩ (.select numberOrText)).map Description.exposed =
        .ok [⟨"a", .varchar, true⟩] ∧
      (describe ⟨.empty, .mysql⟩ (.select (numberOrText.asDerived "t"))).map
          Description.exposed = .ok [⟨"a", .bigInt, true⟩] := by
  constructor
  · rfl
  · rfl

end QuerySignature
