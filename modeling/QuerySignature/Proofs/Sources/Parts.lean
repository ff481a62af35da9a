import QuerySignature.Proofs.Criteria.Valuation
import QuerySignature.Proofs.Sources.Names

namespace QuerySignature

/-! # What each source makes visible

The columns that a FROM clause makes visible come from its sources, one after the other. The walk
puts them into one level; here it is taken through the clause with the columns of each source kept
apart, so that it can be said which source a reference means.

- `exists_parts`: the walk over a query passes through the parts, and each part has the columns of
  its own source, but for those that a USING list names;
- `first_of_sourceOf?`: a reference means the first source that has a column of its name.
-/

/-- The columns of listed sources, each behind those of the sources before it. -/
def inferListedParts (setting : Setting) (parts : List Level) :
    List Source → Analyze (List Level)
  | [] => pure parts
  | source :: rest => do
    let columns ← inferSource setting source
    inferListedParts setting (parts ++ [columns]) rest

/-- The columns of joined sources, each behind those of the sources before it. -/
def inferJoinedParts (setting : Setting) (outer : List Level) (parts : List Level) :
    List Join → Analyze (List Level)
  | [] => pure parts
  | join :: rest => do
    let columns ← inferSource setting join.source
    inferCondition setting ⟨parts.flatten ++ columns, outer⟩ join.condition
    let earlier := parts.map join.kind.earlier
    inferJoinedParts setting outer
      (earlier ++ [join.kind.joined (join.condition.added columns)]) rest

/-- The columns that the sources of a branch make visible. -/
def inferParts (setting : Setting) (outer : List Level) (branch : Branch) :
    Analyze (List Level) := do
  let listed ← inferListedParts setting [] branch.sources
  inferJoinedParts setting outer listed branch.joins

/-- The columns that the sources of a query's first branch make visible, if they can be found. -/
def Select.parts? (setting : Setting) (q : Select) : Option (List Level) :=
  q.branches.head?.bind fun branch =>
    let walk : Analyze (List Level) := do
      inferCtes setting [] q.ctes
      inferParts setting [] branch
    (walk.outcome .start).toOption.map (·.1)

/-- The sources of a branch in order, each with the condition it is joined on. -/
def Branch.clause (branch : Branch) : List (Source × JoinCondition) :=
  branch.sources.map (fun source => (source, .unconditional)) ++
    branch.joins.map fun join => (join.source, join.condition)

/-- A part has the columns that a source brings, but for those that its join shares, whether a join
makes them nullable or not. -/
def IsPartOf (setting : Setting) (ctes : List (String × Level)) (step : Source × JoinCondition)
    (part : Level) : Prop :=
  ∃ r s level, r.ctes = ctes ∧ (inferSource setting step.1).outcome r = .ok (level, s) ∧
    part.map (·.name) = (step.2.added level).map (·.name)

/-! ## The walk through the parts -/

namespace JoinKind

theorem names_earlier (kind : JoinKind) (level : Level) :
    (kind.earlier level).map (·.name) = level.map (·.name) := by
  cases kind <;> simp [earlier, SourceColumn.nullable, Function.comp_def]

theorem names_joined (kind : JoinKind) (level : Level) :
    (kind.joined level).map (·.name) = level.map (·.name) := by
  cases kind <;> simp [joined, SourceColumn.nullable, Function.comp_def]

theorem earlier_flatten (kind : JoinKind) (parts : List Level) :
    kind.earlier parts.flatten = (parts.map kind.earlier).flatten := by
  cases kind with
  | right | full => exact List.map_flatten
  | inner | left | cross => exact congrArg List.flatten (List.map_id parts).symm

end JoinKind

theorem IsPartOf.earlier {setting : Setting} {ctes : List (String × Level)}
    {steps : List (Source × JoinCondition)} {parts : List Level}
    (h : List.Forall₂ (IsPartOf setting ctes) steps parts) (kind : JoinKind) :
    List.Forall₂ (IsPartOf setting ctes) steps (parts.map kind.earlier) := by
  refine List.forall₂_map_right_iff.2 (h.imp ?_)
  rintro step part ⟨r, s, level, hctes, hsource, hnames⟩
  exact ⟨r, s, level, hctes, hsource, (kind.names_earlier part).trans hnames⟩

namespace Run.Sound

variable {made : List TypeInfo} {r : Run} {setting : Setting} {done : Sources}
  {steps : List (Source × JoinCondition)} {parts : List Level}

/-- Listed sources are gone through with their parts apart. -/
theorem listedParts (h : r.Sound made) (hdone : done.Matches .none made done)
    (hparts : done.columns = parts.flatten)
    (hsteps : List.Forall₂ (IsPartOf setting r.ctes) steps parts) {xs : List Source}
    {listed : Sources} {s : Run}
    (hs : (inferSources setting done xs).outcome r = .ok (listed, s)) :
    ∃ made' parts', made <+: made' ∧ s.Sound made' ∧ s.ctes = r.ctes ∧
      listed.Matches .none made' listed ∧ listed.columns = parts'.flatten ∧
      (inferListedParts setting parts xs).outcome r = .ok (parts', s) ∧
      List.Forall₂ (IsPartOf setting r.ctes)
        (steps ++ xs.map fun source => (source, .unconditional)) parts' := by
  induction xs generalizing made r done steps parts with
  | nil =>
    cases hs
    refine ⟨made, parts, List.prefix_rfl, h, rfl, hdone, hparts, rfl, ?_⟩
    simpa using hsteps
  | cons x rest ih =>
    obtain ⟨level, t, made₁, hsource, hs, hgrows₁, hsound₁, hctes₁, hadded⟩ := h.listStep hdone hs
    have hpart : IsPartOf setting t.ctes (x, .unconditional) level :=
      ⟨r, t, level, hctes₁.symm, hsource, rfl⟩
    have hnext : List.Forall₂ (IsPartOf setting t.ctes) (steps ++ [(x, .unconditional)])
        (parts ++ [level]) := List.rel_append (hctes₁ ▸ hsteps) (.cons hpart .nil)
    have hcolumns : (done.add x level).columns = (parts ++ [level]).flatten := by
      simp [Sources.add, hparts]
    obtain ⟨made₂, parts', hgrows₂, hsound₂, hctes₂, hlisted, hflat, hwalk, hall⟩ :=
      ih hsound₁ hadded hcolumns hnext hs
    refine ⟨made₂, parts', hgrows₁.trans hgrows₂, hsound₂, hctes₂.trans hctes₁, hlisted, hflat, ?_,
      ?_⟩
    · unfold inferListedParts
      rw [Analyze.outcome_bind, hsource]
      exact hwalk
    · rw [hctes₁] at hall
      simpa using hall

/-- Joined sources are gone through with their parts apart. -/
theorem joinedParts (h : r.Sound made) {outer : List Level}
    (houter : ∀ l ∈ outer, Level.Issued made l) (hdone : done.Matches .none made done)
    (hparts : done.columns = parts.flatten)
    (hsteps : List.Forall₂ (IsPartOf setting r.ctes) steps parts) {previous : String}
    {js : List Join} {joined : Sources} {s : Run}
    (hs : (inferJoins setting outer done previous js).outcome r = .ok (joined, s)) :
    ∃ parts', joined.columns = parts'.flatten ∧
      (inferJoinedParts setting outer parts js).outcome r = .ok (parts', s) ∧
      List.Forall₂ (IsPartOf setting r.ctes)
        (steps ++ js.map fun join => (join.source, join.condition)) parts' := by
  induction js generalizing made r done steps parts previous with
  | nil =>
    cases hs
    refine ⟨parts, hparts, rfl, ?_⟩
    simpa using hsteps
  | cons j rest ih =>
    obtain ⟨level, t, u, made₁, hsource, hcondition, hs, hgrows, hsound₁, hsame, hjoined⟩ :=
      h.joinStep houter hdone hs
    have hpart : IsPartOf setting u.ctes (j.source, j.condition)
        (j.kind.joined (j.condition.added level)) :=
      ⟨r, t, level, hsame.symm, hsource, j.kind.names_joined _⟩
    have hnext : List.Forall₂ (IsPartOf setting u.ctes) (steps ++ [(j.source, j.condition)])
        (parts.map j.kind.earlier ++ [j.kind.joined (j.condition.added level)]) :=
      List.rel_append (IsPartOf.earlier (hsame ▸ hsteps) j.kind) (.cons hpart .nil)
    -- a join that makes earlier columns nullable does so in each part
    have hcolumns : (done.join outer previous j.kind j.source j.condition level).columns =
        (parts.map j.kind.earlier ++ [j.kind.joined (j.condition.added level)]).flatten := by
      simp [Sources.join, hparts, JoinKind.earlier_flatten]
    obtain ⟨parts', hflat, hwalk, hall⟩ :=
      ih hsound₁ (fun l hl => (houter l hl).mono hgrows) hjoined hcolumns hnext hs
    refine ⟨parts', hflat, ?_, ?_⟩
    · unfold inferJoinedParts
      simp only [Analyze.outcome_bind, hsource, ok_bind, ← hparts, hcondition]
      exact hwalk
    · rw [hsame] at hall
      simpa using hall

end Run.Sound

/-- The walk over a query passes through the parts of its first branch, and the items and the WHERE
of the branch see just these. -/
theorem exists_parts {setting : Setting} {q : Select} {branch : Branch} {rest : List Branch}
    {result : QueryResult} {run : Run} (hbranch : q.branches = branch :: rest)
    (h : (inferQuery setting [] q).outcome .start = .ok (result, run)) :
    ∃ parts behind front after, q.parts? setting = some parts ∧
      (inferCtes setting [] q.ctes).outcome .start = .ok ((), behind) ∧
      (inferFront setting [] branch).outcome behind = .ok (front, after) ∧
      front.1.columns = parts.flatten ∧
      List.Forall₂ (IsPartOf setting behind.ctes) branch.clause parts := by
  obtain ⟨branch', rest', behind, front, after, -, hbranch', hctes, hwalk, -⟩ := exists_front h
  obtain ⟨rfl, -⟩ := List.cons.inj (hbranch.symm.trans hbranch')
  -- items and WHERE have been read by now, and they add no column
  obtain ⟨listed, rs, rj, -, -, hsources, hjoins, -⟩ := clauses_of_front hwalk
  obtain ⟨made, -, hsound, -⟩ := Run.Sound.start.commonTables nothing_outer hctes
  have hnothing : Sources.empty.columns = ([] : List Level).flatten := rfl
  obtain ⟨made₁, listedParts, -, hsound₁, hsame, hlisted, hflat, hlistedWalk, hlistedParts⟩ :=
    hsound.listedParts (.empty made) hnothing .nil hsources
  obtain ⟨parts, hcolumns, hjoinedWalk, hparts⟩ :=
    hsound₁.joinedParts nothing_outer hlisted hflat (hsame ▸ hlistedParts) hjoins
  refine ⟨parts, behind, _, _, ?_, hctes, hwalk, hcolumns, ?_⟩
  · unfold Select.parts? inferParts
    simp only [hbranch, List.head?_cons, Option.bind_some, Analyze.outcome_bind, hctes, ok_bind,
      hlistedWalk, hjoinedWalk]
    rfl
  · rw [hsame] at hparts
    exact hparts

/-! ## The source of a reference -/

/-- The part in which a place of all columns lies. -/
def partAt : List Level → Nat → Option Nat
  | [], _ => none
  | part :: rest, index =>
    if index < part.length then some 0 else (partAt rest (index - part.length)).map (· + 1)

/-- The source whose column a reference means, in a query without levels around it. -/
def sourceOf? (parts : List Level) (c : ColumnRef) : Option Nat :=
  ((⟨parts.flatten, []⟩ : Scope).placeOf? c).bind fun place => partAt parts place.index

/-- The first place of a property lies in the first part that has it. -/
theorem first_of_partAt {p : SourceColumn → Bool} {parts : List Level} {index k : Nat}
    (hfirst : parts.flatten.findIdx? p = some index) (hpart : partAt parts index = some k) :
    (∃ part, parts[k]? = some part ∧ ∃ column ∈ part, p column = true) ∧
      ∀ j < k, ∀ part, parts[j]? = some part → ∀ column ∈ part, p column = false := by
  induction parts generalizing index k with
  | nil => cases hpart
  | cons part rest ih =>
    rw [List.flatten_cons, List.findIdx?_append] at hfirst
    unfold partAt at hpart
    cases hhere : part.findIdx? p with
    | some i =>
      simp only [hhere, Option.some_or, Option.some.injEq] at hfirst
      subst hfirst
      obtain ⟨hlt, hholds, -⟩ := List.findIdx?_eq_some_iff_getElem.1 hhere
      simp only [hlt, if_true, Option.some.injEq] at hpart
      subst hpart
      refine ⟨⟨part, rfl, part[i], List.getElem_mem hlt, hholds⟩, ?_⟩
      intro j hj
      omega
    | none =>
      simp only [hhere, Option.none_or, Option.map_eq_some_iff] at hfirst
      obtain ⟨later, hlater, rfl⟩ := hfirst
      have hbehind : ¬ later + part.length < part.length := by omega
      have hback : later + part.length - part.length = later := by omega
      simp only [hbehind, if_false, hback, Option.map_eq_some_iff] at hpart
      obtain ⟨k, hk, rfl⟩ := hpart
      obtain ⟨hfound, hbefore⟩ := ih hlater hk
      refine ⟨hfound, ?_⟩
      intro j hj found hat
      cases j with
      | zero =>
        obtain rfl : part = found := by simpa using hat
        exact fun column hcolumn => by simpa using List.findIdx?_eq_none_iff.1 hhere column hcolumn
      | succ j => exact hbefore j (by omega) found hat

/-- A reference means the first source that has a column which answers it. -/
theorem first_of_sourceOf? {parts : List Level} {c : ColumnRef} {k : Nat}
    (h : sourceOf? parts c = some k) :
    (∃ part, parts[k]? = some part ∧ ∃ column ∈ part, column.answers c.qualifier c.name = true) ∧
      ∀ j < k, ∀ part, parts[j]? = some part →
        ∀ column ∈ part, column.answers c.qualifier c.name = false := by
  obtain ⟨place, hplace, hpart⟩ := Option.bind_eq_some_iff.1 h
  have hin := Scope.placeIn_of_placeOf? hplace
  have hfirst : parts.flatten.findIdx? (fun column => column.answers c.qualifier c.name) =
      some place.index := by
    unfold Scope.levels placeIn at hin
    cases hfind : parts.flatten.findIdx? fun column => column.answers c.qualifier c.name with
    | none => simp [hfind, placeIn] at hin
    | some index =>
      simp only [hfind, Option.some.injEq] at hin
      rw [← hin]
  exact first_of_partAt hfirst hpart

end QuerySignature
