import QuerySignature.Proofs.Sources.Exposure
import QuerySignature.Proofs.Sources.Place

namespace QuerySignature

/-! # The types of references

A reference to a column of an inner query is in one class with it. What the rest of the outer query
asks of that class therefore shows in the type of the reference, as it does when the column is put
into arithmetic; if it asks for nothing new, the reference has the type that the column has when the
inner query is described alone.

- `Inner.agree`: behind an inner query, its variables are as when it is analysed alone.
- `spares_of_onlyRefersTo`: a query that only refers to an inner query spares all its columns;
  `type_eq_of_onlyRefersTo`: there a reference has the type that its column has alone.
- `reference_type`: a reference has the type that its column has in the end, and alone the column has
  the type that it has behind the inner query.
- `reference_type_differs`: a column that is also put into arithmetic, and one of a hidden table.
-/

/-- What is found out about a query and about an inner query of its sources. -/
structure Reading where
  inner : QueryResult
  /-- The run behind the inner query. -/
  behind : Run
  outer : QueryResult
  run : Run

/-- Analyses a query, once up to the inner query at a place and once as a whole. -/
def Select.reading (setting : Setting) (s : Select) (b : Branch) (place : QueryPlace) (q : Select) :
    Except AnalysisError Reading := do
  let before ← (inferBefore setting s b place).outcome .start
  let inner ← (inferQuery setting [] q).outcome before.2
  let outer ← (inferQuery setting [] s).outcome .start
  pure ⟨inner.1, inner.2, outer.1, outer.2⟩

namespace Reading

/-- Whether an output column of the outer query is a reference to one of the inner query. -/
def refers (x : Reading) (i j : Nat) : Bool :=
  match x.outer.columns[i]?, x.inner.columns[j]? with
  | some c, some d => c.source.any fun column => column.var == d.var.asProjected
  | _, _ => false

theorem refers_iff {x : Reading} {i j : Nat} : x.refers i j = true ↔
    ∃ c d column, x.outer.columns[i]? = some c ∧ x.inner.columns[j]? = some d ∧
      c.source = some column ∧ column.var = d.var.asProjected := by
  unfold refers
  constructor
  · intro h
    split at h
    · rename_i c d hc hd
      cases hsource : c.source with
      | none => simp [hsource] at h
      | some column => exact ⟨c, d, column, hc, hd, hsource, by simpa [hsource] using h⟩
    · cases h
  · rintro ⟨c, d, column, hc, hd, hsource, hcolumn⟩
    simp [hc, hd, hsource, hcolumn]

/-- The equations that the outer query asks for behind the inner one. -/
def later (x : Reading) : List Equation :=
  equationsOf (x.run.constraints.drop x.behind.constraints.length)

/-- Whether the rest of the outer query spares an output column of the inner one. -/
def spares (x : Reading) (profile : Profile) (j : Nat) : Bool :=
  match x.inner.columns[j]?, Forest.constrainAll profile [] x.behind.constraints with
  | some d, .ok forest => forest.spares profile [d.var.id] x.later
  | _, _ => false

/-- The type of an output column of the inner query, as far as the constraints of a run tell. -/
def typeAfter (x : Reading) (profile : Profile) (r : Run) (j : Nat) : Option SqlType :=
  match x.inner.columns[j]?, solve profile r.constraints with
  | some d, .ok solution => some (solution.typeOf profile d.var)
  | _, _ => none

theorem typeAfter_eq {x : Reading} {profile : Profile} {r : Run} {j : Nat} {d : OutputColumn}
    {solution : Solution} (hd : x.inner.columns[j]? = some d)
    (hsolve : solve profile r.constraints = .ok solution) :
    x.typeAfter profile r j = some (solution.typeOf profile d.var) := by
  unfold typeAfter
  rw [hd, hsolve]

/-- A column that is spared has in the end the type that it has behind the inner query. -/
theorem typeAfter_of_spares {x : Reading} {profile : Profile} {initial : Nat → TypeInfo} {j : Nat}
    {d : OutputColumn} {solution : Solution} (hkept : x.behind.constraints <+: x.run.constraints)
    (hcarries : ∀ step ∈ equationsOf x.run.constraints, step.Carries initial)
    (hsolve : solve profile x.run.constraints = .ok solution)
    (hd : x.inner.columns[j]? = some d) (hcarry : d.var.Carries initial)
    (hspares : x.spares profile j = true) :
    x.typeAfter profile x.run j = x.typeAfter profile x.behind j := by
  rcases exists_classes hcarries hsolve with ⟨last, hlast, hsolution⟩
  rcases hkept with ⟨later, hlater⟩
  rw [← hlater, equationsOf_append] at hcarries hlast
  rw [Classes.run_append] at hlast
  rcases bind_eq_ok.1 hlast with ⟨t, ht, hlast⟩
  have hearly : ∀ step ∈ equationsOf x.behind.constraints, step.Carries initial := fun step hstep =>
    hcarries step (List.mem_append_left _ hstep)
  rcases exists_solution hearly ht with ⟨between, hbetween, hsolutionBetween⟩
  rcases ((Represents.nil _).run profile hearly).to_ok ht with ⟨forest, hforest, hrepresents⟩
  have hrest : Forest.spares profile [d.var.id] forest (equationsOf later) = true := by
    unfold Reading.spares Reading.later at hspares
    simp only [hd, hforest, ← hlater, List.drop_left] at hspares
    exact hspares
  have hspares := (hrepresents.spares_iff fun step hstep => hcarries step
    (List.mem_append_right _ hstep)).1 hrest
  have hspared := (hspares.agree hlast).info d.var.id (List.mem_singleton.2 rfl)
  rw [typeAfter_eq hd hsolve, typeAfter_eq hd hbetween]
  refine congrArg some (typeOf_eq ?_)
  rw [hsolution _ hcarry, hsolutionBetween _ hcarry]
  exact hspared.symm

end Reading

/-- The common tables that the query at a place may read hide none of the tables that it reads. -/
def Select.Unhidden (s : Select) (place : QueryPlace) (q : Select) : Prop :=
  ∀ t ∈ q.tables, ∀ cte ∈ s.ctesBefore place, sameName cte.name (lastSegment t) = false

section Reference

variable {setting : Setting} {s : Select} {b : Branch} {place : QueryPlace} {q : Select}

/-- Behind an inner query, what is known of its variables is what is known of them when it is
analysed alone. -/
theorem Inner.agree {run before : Run} {inner : QueryResult} {behind : Run}
    (h : Inner setting s b place q run before inner behind) (hunhidden : s.Unhidden place q)
    {result : QueryResult} {alone : Run}
    (halone : (inferQuery setting [] q).outcome .start = .ok (result, alone))
    {initial : Nat → TypeInfo} (hcarries : ∀ step ∈ equationsOf behind.constraints, step.Carries initial)
    {t : Classes}
    (ht : (Classes.start initial).run setting.profile (equationsOf behind.constraints) = .ok t) :
    ∃ (ρ : Renaming) (made : List TypeInfo) (t₀ : Classes),
      QueryResult.Matches ρ made result inner ∧ alone.Sound made ∧
      (Classes.start (initialOf made)).run setting.profile (equationsOf alone.constraints) = .ok t₀ ∧
      Agree ρ.apply (ρ.Shared (initialOf made) initial) t₀ t := by
  rcases h.sound with ⟨earlier, hsound⟩
  let F : Frame := ⟨⟨0, before.issued⟩, [], before.constraints⟩
  have hstart : Run.start.Matches F [] before :=
    ⟨rfl, Nat.zero_le _, (Nat.zero_add _).symm, ⟨[], [], rfl, (List.append_nil _).symm, .nil⟩, .nil⟩
  have hsees : ∀ name, (∃ t ∈ q.tables, lastSegment t = name) →
      Run.start.SeesAlike F.ρ [] before name := by
    rintro _ ⟨t, ht, rfl⟩
    unfold Run.SeesAlike
    rw [h.hides _ (hunhidden t ht)]
    exact .none
  have halike := Parallel.query (F := F) setting q (fun t ht => ⟨t, ht, rfl⟩) (.nil F.ρ []) _ _
    hstart hsees
  rcases halike.of_ok halone with ⟨⟨inner', behind'⟩, hquery, made, hreached, hmatch⟩
  rw [h.query] at hquery
  cases hquery
  rcases hreached.runs.constraints with ⟨added, added', hadded, hadded', hadds⟩
  have hadded : alone.constraints = added := hadded
  have hadded' : behind.constraints = before.constraints ++ added' := hadded'
  have hsoundAlone : alone.Sound made := by
    refine ⟨hreached.runs.issued, ?_, ?_, hreached.runs.placeholders⟩
    · rw [hadded]
      exact issued_of_matches hadds
    · rw [hreached.ctes]
      exact fun _ hentry => absurd hentry List.not_mem_nil
  -- what precedes the inner query leaves its variables alone
  rw [hadded', equationsOf_append] at hcarries ht
  rw [Classes.run_append] at ht
  rcases bind_eq_ok.1 ht with ⟨s₀, hs₀, ht⟩
  have hfresh : s₀.Fresh before.issued initial := by
    refine (Classes.Fresh.start _ _).run (fun step hstep => ?_) hs₀
    rw [hsound.issued]
    exact ⟨(hsound.steps step hstep).1.le, (hsound.steps step hstep).2.le⟩
  have hagree : Agree F.ρ.apply (F.ρ.Shared (initialOf made) initial)
      (Classes.start (initialOf made)) s₀ := by
    refine Agree.beyond ⟨?_, ?_⟩ (fun _ hx => hx) (.start _ _) hfresh (Nat.zero_le _)
      (Nat.le_of_eq (Nat.zero_add _).symm)
    · exact fun x _ hx _ => absurd hx.2.1 (Nat.not_lt.2 hx.1)
    · exact fun x hx => absurd hx.2.1 (Nat.not_lt.2 hx.1)
  -- the inner query asks for the same in both walks
  have hboth := hagree.matches setting.profile hadds
    (hadded ▸ hsoundAlone.carries) (fun step hstep => hcarries step (List.mem_append_right _ hstep))
  rcases hboth.to_ok ht with ⟨t₀, ht₀, hagreeBehind⟩
  exact ⟨F.ρ, made, t₀, hmatch, hsoundAlone, hadded ▸ ht₀, hagreeBehind⟩

/-- Alone, a column of the inner query has the type that it has behind that query in the outer one. -/
theorem Inner.typeAfter {run before : Run} {inner : QueryResult} {behind : Run}
    (h : Inner setting s b place q run before inner behind) (outer : QueryResult)
    (hunhidden : s.Unhidden place q)
    {result : QueryResult} {alone : Run} {solution : Solution}
    (halone : (inferQuery setting [] q).outcome .start = .ok (result, alone))
    (hsolve : solve setting.profile alone.constraints = .ok solution) {initial : Nat → TypeInfo}
    (hcarries : ∀ step ∈ equationsOf behind.constraints, step.Carries initial) {t : Classes}
    (ht : (Classes.start initial).run setting.profile (equationsOf behind.constraints) = .ok t) {j : Nat}
    {e : OutputColumn} (he : inner.columns[j]? = some e) (hcarry : e.var.Carries initial) :
    ∃ e₀, result.columns[j]? = some e₀ ∧
      (Reading.mk inner behind outer run).typeAfter setting.profile behind j =
        some (solution.typeOf setting.profile e₀.var) := by
  rcases h.agree hunhidden halone hcarries ht with ⟨ρ, made, t₀, hmatch, hsound, ht₀, hagree⟩
  rcases exists_partner_at hmatch he with ⟨e₀, he₀, hpair⟩
  rcases exists_classes hsound.carries hsolve with ⟨t₁, ht₁, hsolution⟩
  cases ht₀.symm.trans ht₁
  rcases exists_solution hcarries ht with ⟨between, hbetween, hsolutionBetween⟩
  have hcarry₀ : e₀.var.Carries (initialOf made) := hpair.var.issued.carries
  refine ⟨e₀, he₀, ?_⟩
  rw [Reading.typeAfter_eq he hbetween]
  refine congrArg some (typeOf_eq ?_)
  calc between.infoOf e.var = t.infoOf e.var.id := hsolutionBetween e.var hcarry
    _ = t.infoOf (ρ.apply e₀.var.id) := by rw [hpair.var.eq]; rfl
    _ = t₀.infoOf e₀.var.id := (hagree.info _ (hpair.var.shared hcarry₀ hcarry)).symm
    _ = solution.infoOf e₀.var := (hsolution e₀.var hcarry₀).symm

theorem Inner.reading {run before : Run} {inner : QueryResult} {behind : Run}
    (h : Inner setting s b place q run before inner behind) {outer : QueryResult}
    (hwalk : (inferQuery setting [] s).outcome .start = .ok (outer, run)) :
    s.reading setting b place q = .ok ⟨inner, behind, outer, run⟩ := by
  unfold Select.reading
  rw [h.walk]
  simp only [bind, Except.bind, h.query, hwalk]
  rfl

/-- A query that only refers to what an inner query gives spares all columns of that query. -/
theorem spares_of_onlyRefersTo {d : Description} (hplain : s.Plain b)
    (hplace : s.at? b place = some q) (hrefers : s.onlyRefersTo b place = true)
    (hd : describe setting (.select s) = .ok d) {x : Reading}
    (hx : s.reading setting b place q = .ok x) {j : Nat} (hj : j < x.inner.columns.length) :
    x.spares setting.profile j = true := by
  rcases describe_select_iff.1 hd with ⟨outer, run, solution, hwalk, hsolve, rfl⟩
  rcases hplain.walk hwalk with ⟨w⟩
  rcases w.inner hplace with ⟨before, inner, behind, hinner⟩
  cases (hinner.reading hwalk).symm.trans hx
  rcases Run.Sound.start.query nothing_outer hwalk with ⟨made, -, hsound, -⟩
  have hcarries := hsound.carries
  rcases exists_classes hcarries hsolve with ⟨last, hlast, -⟩
  rcases hinner.aside hrefers with ⟨own, hown, haside⟩
  rw [hown, equationsOf_append] at hcarries hlast
  rw [Classes.run_append] at hlast
  rcases bind_eq_ok.1 hlast with ⟨t, ht, -⟩
  rcases ((Represents.nil _).run setting.profile fun step hstep =>
    hcarries step (List.mem_append_left _ hstep)).to_ok ht with ⟨forest, hforest, hrepresents⟩
  -- behind the inner query, its columns are among the variables that have been made
  rcases hinner.sound with ⟨earlier, hbefore⟩
  rcases hbefore.query nothing_outer hinner.query with ⟨made', -, hbehind, -, -, hcolumns⟩
  have hfresh : t.Fresh behind.issued (initialOf made) := by
    refine (Classes.Fresh.start _ _).run (fun step hstep => ?_) ht
    rw [hbehind.issued]
    exact ⟨(hbehind.steps step hstep).1.le, (hbehind.steps step hstep).2.le⟩
  have hcolumn := (List.forall₂_same.1 hcolumns _ (List.getElem_mem hj)).var.issued.le
  rw [← hbehind.issued] at hcolumn
  unfold Reading.spares Reading.later
  simp only [List.getElem?_eq_getElem hj, hforest, hown, List.drop_left]
  have hlater := fun step hstep => hcarries step (List.mem_append_right _ hstep)
  refine (hrepresents.spares_iff hlater).2 (hfresh.spares_of_aside haside hlater fun id hid => ?_)
  rw [List.mem_singleton.1 hid]
  exact hcolumn

theorem type_of_single {c : OutputColumn} (h : c.unionVars = []) (solution : Solution)
    (profile : Profile) : (c.result solution profile).type = solution.typeOf profile c.var := by
  show c.type solution profile = _
  unfold OutputColumn.type
  rw [h]
  rfl

section Referring

variable {dq d : Description} (hplain : s.Plain b) (hplace : s.at? b place = some q)
  (hd : describe setting (.select s) = .ok d)

include hplain hplace hd

theorem exists_reading : ∃ x, s.reading setting b place q = .ok x := by
  rcases describe_select_iff.1 hd with ⟨outer, run, solution, hwalk, -, -⟩
  rcases hplain.walk hwalk with ⟨w⟩
  rcases w.inner hplace with ⟨before, inner, behind, hinner⟩
  exact ⟨_, hinner.reading hwalk⟩

variable (hbranches : q.branches.length = 1) (hunhidden : s.Unhidden place q)
  (hq : describe setting (.select q) = .ok dq) {x : Reading}
  (hx : s.reading setting b place q = .ok x) {i j : Nat} (hrefers : x.refers i j = true)

include hbranches hunhidden hq hx hrefers

/-- The types of a reference and of its column alone, by what is found out about both queries. -/
theorem types_of_refers :
    ∃ c c', d.columns[i]? = some c ∧ dq.columns[j]? = some c' ∧
      x.typeAfter setting.profile x.run j = some c.type ∧
      x.typeAfter setting.profile x.behind j = some c'.type ∧
      (x.spares setting.profile j = true → c.type = c'.type) := by
  rcases describe_select_iff.1 hq with ⟨result, alone, solution, halone, hsolve, rfl⟩
  rcases describe_select_iff.1 hd with ⟨outer, run, solution', hwalk, hsolve', rfl⟩
  rcases hplain.walk hwalk with ⟨w⟩
  rcases w.inner hplace with ⟨before, inner, behind, hinner⟩
  cases (hinner.reading hwalk).symm.trans hx
  rcases Reading.refers_iff.1 hrefers with ⟨c, e, column, hc, he, hsource, hcolumn⟩
  rcases Run.Sound.start.query nothing_outer hwalk with ⟨made, -, hsound, -⟩
  have hcarries := hsound.carries
  rcases exists_classes hcarries hsolve' with ⟨last, hlast, hsolution'⟩
  -- the reference is in one class with the column
  have hlinked := w.linked c (List.mem_of_getElem? hc) column hsource (by rw [hcolumn]; rfl)
  rcases hlinked.carries hcarries with ⟨hcarryRef, hcarry⟩
  rw [hcolumn] at hcarry
  have hknown : solution'.infoOf c.var = solution'.infoOf e.var := by
    calc solution'.infoOf c.var = last.infoOf c.var.id := hsolution' c.var hcarryRef
      _ = last.infoOf column.var.id := hlinked.infoOf_eq hcarries hlast
      _ = last.infoOf e.var.id := by rw [hcolumn]; rfl
      _ = solution'.infoOf e.var := (hsolution' e.var hcarry).symm
  have hend : (Reading.mk inner behind outer run).typeAfter setting.profile run j =
      some (solution'.typeOf setting.profile c.var) := by
    rw [Reading.typeAfter_eq he hsolve', typeOf_eq hknown]
  -- up to the end of the inner query, the column is as it is alone
  rcases hinner.kept with ⟨later, hlater⟩
  rw [← hlater, equationsOf_append, Classes.run_append] at hlast
  rcases bind_eq_ok.1 hlast with ⟨t, ht, -⟩
  have hearly : ∀ step ∈ equationsOf behind.constraints, step.Carries (initialOf made) := by
    intro step hstep
    refine hcarries step ?_
    rw [← hlater, equationsOf_append]
    exact List.mem_append_left _ hstep
  obtain ⟨e₀, he₀, hbehind⟩ :=
    hinner.typeAfter outer hunhidden halone hsolve hearly ht he hcarry
  have hunion := unionVars_of_query (by rw [hplain.branches]; rfl) hwalk c (List.mem_of_getElem? hc)
  have hunion₀ := unionVars_of_query hbranches halone e₀ (List.mem_of_getElem? he₀)
  refine ⟨c.result solution' setting.profile, e₀.result solution setting.profile, ?_, ?_, ?_⟩
  · show (outer.columns.map _)[i]? = _
    rw [List.getElem?_map, hc]
    rfl
  · show (result.columns.map _)[j]? = _
    rw [List.getElem?_map, he₀]
    rfl
  rw [type_of_single hunion, type_of_single hunion₀]
  refine ⟨hend, hbehind, fun hspares => ?_⟩
  have hsame := Reading.typeAfter_of_spares hinner.kept hcarries hsolve' he hcarry hspares
  exact Option.some.inj (hend.symm.trans (hsame.trans hbehind))

/-- In a query that only refers to what an inner query gives, a reference has the type that its column
has when the inner query is described alone. -/
theorem type_eq_of_onlyRefersTo (honly : s.onlyRefersTo b place = true) :
    ∃ c c', d.columns[i]? = some c ∧ dq.columns[j]? = some c' ∧ c.type = c'.type := by
  rcases types_of_refers hplain hplace hd hbranches hunhidden hq hx hrefers with
    ⟨c, c', hc, hc', -, -, hspared⟩
  rcases Reading.refers_iff.1 hrefers with ⟨-, e, -, -, he, -⟩
  have hj := (List.getElem?_eq_some_iff.1 he).1
  exact ⟨c, c', hc, hc', hspared (spares_of_onlyRefersTo hplain hplace honly hd hx hj)⟩

end Referring

/-- A reference to a column of an inner query has the type that the column has by all constraints of
the outer query. Described alone, unless a common table hides what the inner query reads, the column
has the type that it has by the constraints up to the end of the inner query. Both are the same if
the rest of the outer query spares the column. -/
theorem reference_type {dq d : Description} (hplain : s.Plain b) (hplace : s.at? b place = some q)
    (hbranches : q.branches.length = 1) (hunhidden : s.Unhidden place q)
    (hq : describe setting (.select q) = .ok dq) (hd : describe setting (.select s) = .ok d) :
    ∃ x, s.reading setting b place q = .ok x ∧ ∀ i j, x.refers i j = true →
      ∃ c c', d.columns[i]? = some c ∧ dq.columns[j]? = some c' ∧
        x.typeAfter setting.profile x.run j = some c.type ∧
        x.typeAfter setting.profile x.behind j = some c'.type ∧
        (x.spares setting.profile j = true → c.type = c'.type) := by
  rcases exists_reading hplain hplace hd with ⟨x, hx⟩
  exact ⟨x, hx, fun i j hrefers =>
    types_of_refers hplain hplace hd hbranches hunhidden hq hx hrefers⟩

end Reference

/-- A branch that reads the identifiers as `t`. -/
def Branch.readingIds (items : List Item) (criteria : Option Expr) : Branch :=
  ⟨false, items, [.derived idAsA "t"], [], criteria, [], none⟩

/-- `SELECT * FROM (SELECT id AS a FROM mytable1) t WHERE t.a = ?`. -/
def idsOfValue : Branch :=
  .readingIds [.star] (some (.compare .eq (.column ⟨some "t", "a"⟩) (.parameter none)))

theorem reference_type_idsOfValue :
    ∃ d dq c c', describe ⟨oneTable, .mysql⟩ (.select ⟨[], [idsOfValue], [], none⟩) = .ok d ∧
      describe ⟨oneTable, .mysql⟩ (.select idAsA) = .ok dq ∧
      d.columns[0]? = some c ∧ dq.columns[0]? = some c' ∧ c.type = c'.type := by
  have hq : (describe ⟨oneTable, .mysql⟩ (.select idAsA)).isOk = true := by decide +kernel
  have hd : (describe ⟨oneTable, .mysql⟩ (.select ⟨[], [idsOfValue], [], none⟩)).isOk = true := by
    decide +kernel
  have hx : (((Select.mk [] [idsOfValue] [] none).reading ⟨oneTable, .mysql⟩ idsOfValue (.listed 0)
      idAsA).toOption.any fun x => x.refers 0 0 && x.spares .mysql 0) = true := by
    decide +kernel
  have hplain : Select.Plain ⟨[], [idsOfValue], [], none⟩ idsOfValue := ⟨rfl, rfl, rfl, rfl⟩
  have hplace : Select.at? ⟨[], [idsOfValue], [], none⟩ idsOfValue (.listed 0) = some idAsA := rfl
  have hunhidden : Select.Unhidden ⟨[], [idsOfValue], [], none⟩ (.listed 0) idAsA :=
    fun _ _ _ hcte => absurd hcte List.not_mem_nil
  rcases exists_of_isOk hq with ⟨dq, hq⟩
  rcases exists_of_isOk hd with ⟨d, hd⟩
  rcases reference_type hplain hplace rfl hunhidden hq hd with ⟨x, hreading, hall⟩
  rw [hreading] at hx
  simp only [Except.toOption, Option.any_some, Bool.and_eq_true] at hx
  rcases hall 0 0 hx.1 with ⟨c, c', hc, hc', -, -, htype⟩
  exact ⟨d, dq, c, c', hd, hq, hc, hc', htype hx.2⟩

/-- `SELECT t.a, t.a + 1 AS b FROM (SELECT id AS a FROM mytable1) t`. -/
def idsAndNext : Select :=
  ⟨[], [.readingIds [.expr (.column ⟨some "t", "a"⟩) none,
    .expr (.arithmetic .add (.column ⟨some "t", "a"⟩) (.literal (.int 1))) (some "b")] none], [],
    none⟩

/-- `WITH mytable1 AS (SELECT 'x' AS id) SELECT t.a FROM (SELECT id AS a FROM mytable1) t`. -/
def idsOfHidden : Select :=
  ⟨[⟨"mytable1", ⟨[], [.withoutSource [.expr (.literal (.string "x")) (some "id")]], [], none⟩⟩],
    [.readingIds [.expr (.column ⟨some "t", "a"⟩) none] none], [], none⟩

/-- Alone, the column is an integer. A reference to it is a double when the column is also put into
arithmetic, and a text when a common table hides the table that the column is from. -/
theorem reference_type_differs :
    (describe ⟨oneTable, .mysql⟩ (.select idAsA)).toOption.map Description.exposed =
        some [⟨"a", .int, true⟩] ∧
      (describe ⟨oneTable, .mysql⟩ (.select idsAndNext)).toOption.map Description.exposed =
        some [⟨"a", .double, true⟩, ⟨"b", .double, true⟩] ∧
      (describe ⟨oneTable, .mysql⟩ (.select idsOfHidden)).toOption.map Description.exposed =
        some [⟨"a", .varchar, true⟩] := by
  refine ⟨?_, ?_, ?_⟩
  · decide +kernel
  · decide +kernel
  · decide +kernel

end QuerySignature
