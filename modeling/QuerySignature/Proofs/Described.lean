import QuerySignature.Description.Describe
import QuerySignature.Proofs.Solver.Agreement
import QuerySignature.Proofs.Walk.Sound

namespace QuerySignature

/-! # Described queries

A query is described when its walk gives a result and its constraints can be solved.

- `describe_eq`, `describe_eq_ok_iff`: describing a statement, by its walk.
- `walk_of_select`, `walk_of_insert`, `walk_of_update`, `walk_of_delete`: the walk over a statement that
  gives a result, by the kind of statement.
- `describe_select_iff`: describing a query, taken apart.
- `clash_of_statement`: what the walk lets through is refused for nothing but a clash.
- `Agree.beyond`, `Agree.matches`: states that agree on the variables made before two walks part go on
  to agree on those made since.
-/

/-- A statement is described by its walk and what its constraints come to. -/
theorem describe_eq (setting : Setting) (st : Statement) :
    describe setting st = ((inferStatement setting st).outcome .start).bind fun p =>
      ((solve setting.profile p.2.constraints).mapError AnalysisError.clash).map fun solution =>
        .of setting.profile st p.1 p.2 solution := by
  unfold describe Analyze.outcome
  rcases (inferStatement setting st).runFrom .start with ⟨_ | analysis, run⟩
  · rfl
  · show _ = ((solve setting.profile run.constraints).mapError _).map _
    cases hsolve : solve setting.profile run.constraints <;> simp only [hsolve] <;> rfl

/-- A statement is described if and only if its walk gives a result and its constraints a solution. -/
theorem describe_eq_ok_iff {setting : Setting} {st : Statement} {d : Description} :
    describe setting st = .ok d ↔ ∃ analysis run solution,
      (inferStatement setting st).outcome .start = .ok (analysis, run) ∧
      solve setting.profile run.constraints = .ok solution ∧
      d = .of setting.profile st analysis run solution := by
  rw [describe_eq]
  constructor
  · intro h
    obtain ⟨⟨analysis, run⟩, hwalk, h⟩ := bind_eq_ok.1 h
    cases hsolve : solve setting.profile run.constraints with
    | error clash =>
      simp only [hsolve] at h
      cases h
    | ok solution =>
      simp only [hsolve] at h
      cases h
      exact ⟨analysis, run, solution, hwalk, hsolve, rfl⟩
  · rintro ⟨analysis, run, solution, hwalk, hsolve, rfl⟩
    rw [hwalk, ok_bind]
    simp only [hsolve]
    rfl

/-! ## The walk over each kind of statement -/

section

variable {setting : Setting} {analysis : Analysis} {run : Run}

theorem walk_of_select {q : Select}
    (h : (inferStatement setting (.select q)).outcome .start = .ok (analysis, run)) :
    ∃ result, (inferQuery setting [] q).outcome .start = .ok (result, run) ∧
      analysis = ⟨result, 0⟩ := by
  unfold inferStatement at h
  rw [Analyze.outcome_bind] at h
  obtain ⟨⟨result, last⟩, hwalk, h⟩ := bind_eq_ok.1 h
  cases h
  exact ⟨result, hwalk, rfl⟩

theorem walk_of_insert {table : String} {columns : List String} {rows : InsertRows}
    (h : (inferStatement setting (.insert table columns rows)).outcome .start = .ok (analysis, run)) :
    (inferInsert setting table columns rows).outcome .start = .ok ((), run) ∧
      analysis = .ofWrite 0 := by
  unfold inferStatement at h
  rw [Analyze.outcome_bind] at h
  obtain ⟨⟨_, last⟩, hwalk, h⟩ := bind_eq_ok.1 h
  cases h
  exact ⟨hwalk, rfl⟩

theorem walk_of_update {table : String} {assignments : List Assignment} {criteria : Option Expr}
    (h : (inferStatement setting (.update table assignments criteria)).outcome .start =
      .ok (analysis, run)) :
    ∃ written, (inferUpdate setting table assignments criteria).outcome .start = .ok (written, run) ∧
      analysis = .ofWrite written := by
  unfold inferStatement at h
  rw [Analyze.outcome_bind] at h
  obtain ⟨⟨written, last⟩, hwalk, h⟩ := bind_eq_ok.1 h
  cases h
  exact ⟨written, hwalk, rfl⟩

theorem walk_of_delete {table : String} {criteria : Option Expr}
    (h : (inferStatement setting (.delete table criteria)).outcome .start = .ok (analysis, run)) :
    (inferDelete setting table criteria).outcome .start = .ok ((), run) ∧ analysis = .ofWrite 0 := by
  unfold inferStatement at h
  rw [Analyze.outcome_bind] at h
  obtain ⟨⟨_, last⟩, hwalk, h⟩ := bind_eq_ok.1 h
  cases h
  exact ⟨hwalk, rfl⟩

end

/-! ## Described queries, by their walk -/

theorem outcome_inferStatement (setting : Setting) (q : Select) :
    (inferStatement setting (.select q)).outcome .start =
      ((inferQuery setting [] q).outcome .start).bind fun p => .ok (⟨p.1, 0⟩, p.2) := by
  unfold inferStatement
  rw [Analyze.outcome_bind]
  rfl

theorem statement_of_query {setting : Setting} {q : Select} {result : QueryResult} {run : Run}
    (h : (inferQuery setting [] q).outcome .start = .ok (result, run)) :
    (inferStatement setting (.select q)).outcome .start = .ok (⟨result, 0⟩, run) := by
  rw [outcome_inferStatement, h]
  rfl

/-- A query is described by its walk and what its constraints come to. -/
theorem describe_select (setting : Setting) (q : Select) :
    describe setting (.select q) = ((inferQuery setting [] q).outcome .start).bind fun p =>
      ((solve setting.profile p.2.constraints).mapError AnalysisError.clash).map fun solution =>
        .of setting.profile (.select q) ⟨p.1, 0⟩ p.2 solution := by
  rw [describe_eq, outcome_inferStatement, bind_bind]
  rfl

/-- A statement whose walk gives a result is refused for nothing but a clash. -/
theorem clash_of_statement {setting : Setting} {st : Statement} {analysis : Analysis} {run : Run}
    (hwalk : (inferStatement setting st).outcome .start = .ok (analysis, run)) {e : AnalysisError}
    (he : describe setting st = .error e) : ∃ clash, e = .clash clash := by
  rw [describe_eq, hwalk, ok_bind] at he
  cases hsolve : solve setting.profile run.constraints with
  | error clash =>
    simp only [hsolve] at he
    cases he
    exact ⟨clash, rfl⟩
  | ok solution =>
    simp only [hsolve] at he
    cases he

theorem clash_of_walk {setting : Setting} {q : Select} {result : QueryResult} {run : Run}
    (hwalk : (inferQuery setting [] q).outcome .start = .ok (result, run)) {e : AnalysisError}
    (he : describe setting (.select q) = .error e) : ∃ clash, e = .clash clash :=
  clash_of_statement (statement_of_query hwalk) he

/-- A query is described if and only if its walk gives a result and its constraints a solution. -/
theorem describe_select_iff {setting : Setting} {q : Select} {d : Description} :
    describe setting (.select q) = .ok d ↔ ∃ result run solution,
      (inferQuery setting [] q).outcome .start = .ok (result, run) ∧
      solve setting.profile run.constraints = .ok solution ∧
      d = .of setting.profile (.select q) ⟨result, 0⟩ run solution := by
  rw [describe_eq_ok_iff]
  constructor
  · rintro ⟨analysis, run, solution, hwalk, hsolve, rfl⟩
    obtain ⟨result, hquery, rfl⟩ := walk_of_select hwalk
    exact ⟨result, run, solution, hquery, hsolve, rfl⟩
  · rintro ⟨result, run, solution, hquery, hsolve, rfl⟩
    exact ⟨⟨result, 0⟩, run, solution, statement_of_query hquery, hsolve, rfl⟩

/-! ## Two walks -/

theorem Equation.Matches.renumbered {ρ : Renaming} {made : List TypeInfo} {step step' : Equation}
    (h : step.Matches ρ made step') : step.Renumbered ρ.apply step' where
  label := h.label
  strength := h.strength
  coercion := h.coercion
  left := by
    rw [h.left.eq]
    rfl
  right := by
    rw [h.right.eq]
    rfl

/-- The constraints of a run speak of no variables that it has not made. -/
def Run.Closed (r : Run) : Prop := ∀ step ∈ equationsOf r.constraints, step.Within (· ≤ r.issued)

theorem Run.Sound.within {made : List TypeInfo} {r : Run} (h : r.Sound made) :
    ∀ step ∈ equationsOf r.constraints, step.Within (· ≤ r.issued) := by
  intro step hstep
  have hissued := h.steps step hstep
  exact ⟨h.issued ▸ hissued.1.le, h.issued ▸ hissued.2.le⟩

/-- A variable that both walks have made for one type. -/
def Renaming.Shared (ρ : Renaming) (initial initial' : Nat → TypeInfo) (id : Nat) : Prop :=
  0 < id ∧ initial id = initial' (ρ.apply id)

theorem TypeVar.Matches.shared {ρ : Renaming} {made : List TypeInfo} {v v' : TypeVar}
    (h : v.Matches ρ made v') {initial initial' : Nat → TypeInfo} (hv : v.Carries initial)
    (hv' : v'.Carries initial') : ρ.Shared initial initial' v.id := by
  refine ⟨h.issued.1, ?_⟩
  have hinfo : v'.info = v.info := by
    rw [h.eq]
    rfl
  have hid : v'.id = ρ.apply v.id := by
    rw [h.eq]
    rfl
  rw [← hid, ← hv', hinfo, hv]

/-- Behind the numbers that stay, variables not met yet agree with theirs. -/
theorem Agree.beyond {ρ : Renaming} {O : Nat → Prop} {initial initial' : Nat → TypeInfo}
    {s s' : Classes} {m : Nat} (h : Agree id (fun x => x ≤ ρ.kept ∧ O x) s s')
    (hO : ∀ x, O x → ρ.Shared initial initial' x) (hs : s.Fresh ρ.kept initial)
    (hs' : s'.Fresh m initial') (hkept : ρ.kept ≤ m) (hshift : m ≤ ρ.kept + ρ.shift) :
    Agree ρ.apply O s s' := by
  -- a number stays if it is kept, and otherwise moves
  have happly : ∀ x, (x ≤ ρ.kept ∧ ρ.apply x = x) ∨ (ρ.kept < x ∧ ρ.apply x = x + ρ.shift) := by
    intro x
    rcases Nat.lt_or_ge ρ.kept x with hx | hx
    · exact .inr ⟨hx, if_neg (Nat.not_le.2 hx)⟩
    · exact .inl ⟨hx, if_pos hx⟩
  refine ⟨?_, ?_⟩
  · intro x y hx hy
    -- one class for both that stay; a number that moves is alone in its class
    rcases happly x with ⟨hxk, hxρ⟩ | ⟨hxk, hxρ⟩ <;> rcases happly y with ⟨hyk, hyρ⟩ | ⟨hyk, hyρ⟩
    · rw [hxρ, hyρ]
      exact h.same x y ⟨hxk, hx⟩ ⟨hyk, hy⟩
    · have hxs := hs.below x hxk
      have hxs' := hs'.below x (Nat.le_trans hxk hkept)
      rw [hxρ, hyρ, (hs.alone y hyk).1, (hs'.alone (y + ρ.shift) (by omega)).1]
      constructor <;> intro heq <;> omega
    · have hys := hs.below y hyk
      have hys' := hs'.below y (Nat.le_trans hyk hkept)
      rw [hxρ, hyρ, (hs.alone x hxk).1, (hs'.alone (x + ρ.shift) (by omega)).1]
      constructor <;> intro heq <;> omega
    · rw [hxρ, hyρ, (hs.alone x hxk).1, (hs.alone y hyk).1, (hs'.alone (x + ρ.shift) (by omega)).1,
        (hs'.alone (y + ρ.shift) (by omega)).1]
      constructor <;> intro heq <;> omega
  · intro x hx
    rcases happly x with ⟨hxk, hxρ⟩ | ⟨hxk, hxρ⟩
    · rw [hxρ]
      exact h.info x ⟨hxk, hx⟩
    · rw [hs.infoOf hxk, hs'.infoOf (by omega)]
      exact (hO x hx).2

/-- Matching constraints are solved alike on states that agree. -/
theorem Agree.matches {ρ : Renaming} {initial initial' : Nat → TypeInfo} {s s' : Classes}
    (h : Agree ρ.apply (ρ.Shared initial initial') s s') (profile : Profile)
    {made : List TypeInfo} {cs cs' : List Constraint}
    (hmatch : List.Forall₂ (Constraint.Matches ρ made) cs cs')
    (hcarries : ∀ step ∈ equationsOf cs, step.Carries initial)
    (hcarries' : ∀ step ∈ equationsOf cs', step.Carries initial') :
    Alike (Agree ρ.apply (ρ.Shared initial initial')) (s.run profile (equationsOf cs))
      (s'.run profile (equationsOf cs')) := by
  have hsteps := equationsOf_matches hmatch
  refine h.run profile (hsteps.imp fun _ _ hstep => hstep.renumbered) ?_
  intro step hstep
  rcases exists_partner hsteps.flip hstep with ⟨step', hstep', hpair⟩
  have hcarry := hcarries step hstep
  have hcarry' := hcarries' step' hstep'
  exact ⟨hpair.left.shared hcarry.1 hcarry'.1, hpair.right.shared hcarry.2 hcarry'.2⟩

/-- Matching constraints without renumbering are solved alike. -/
theorem solve_beside {profile : Profile} {made : List TypeInfo} {initial : Nat → TypeInfo}
    {cs cs' : List Constraint}
    (hmatch : List.Forall₂ (Equation.Matches .none made) (equationsOf cs) (equationsOf cs'))
    (hcarries : ∀ step ∈ equationsOf cs, step.Carries initial) {solution : Solution}
    (hsolve : solve profile cs = .ok solution) :
    ∃ solution', solve profile cs' = .ok solution' ∧
      ∀ v : TypeVar, v.Carries initial → solution'.infoOf v = solution.infoOf v := by
  rcases exists_classes hcarries hsolve with ⟨s, hs, hsolution⟩
  have hnumbers : (Renaming.apply .none) = id := funext Renaming.none_apply
  have halike := (Agree.refl (fun _ => True) (Classes.start initial)).run profile
    (hmatch.imp fun _ _ hstep => hnumbers ▸ hstep.renumbered) fun _ _ => ⟨trivial, trivial⟩
  rcases halike.of_ok hs with ⟨s', hs', hagree⟩
  have hcarries' : ∀ step ∈ equationsOf cs', step.Carries initial := by
    intro step' hstep'
    rcases exists_partner hmatch hstep' with ⟨step, hstep, hpair⟩
    unfold Equation.Carries
    rw [hpair.left.eq, hpair.right.eq, Renaming.none_var, Renaming.none_var]
    exact hcarries step hstep
  rcases exists_solution hcarries' hs' with ⟨solution', hsolve', hsolution'⟩
  refine ⟨solution', hsolve', fun v hv => ?_⟩
  rw [hsolution' v hv, hsolution v hv, hagree.info v.id trivial]
  rfl

/-- What is known of a variable decides its type. -/
theorem typeOf_eq {profile : Profile} {solution solution' : Solution} {v v' : TypeVar}
    (h : solution'.infoOf v' = solution.infoOf v) :
    solution'.typeOf profile v' = solution.typeOf profile v := by
  unfold Solution.typeOf
  rw [h]

/-- Matching columns are reported alike if the same is known of their variables. -/
theorem OutputColumn.Matches.result_eq {ρ : Renaming} {made : List TypeInfo} {c c' : OutputColumn}
    (h : c.Matches ρ made c') {profile : Profile} {solution solution' : Solution}
    (hinfo : ∀ v v', v.Matches ρ made v' → (v' = c'.var ∨ v' ∈ c'.unionVars) →
      solution.infoOf v = solution'.infoOf v') :
    c.result solution profile = c'.result solution' profile := by
  have hfirst : solution.typeOf profile c.var = solution'.typeOf profile c'.var :=
    typeOf_eq (hinfo _ _ h.var (Or.inl rfl))
  have hunion : c.unionVars.map (solution.typeOf profile) =
      c'.unionVars.map (solution'.typeOf profile) := by
    have hvars := h.unionVars
    have hmem : ∀ v' ∈ c'.unionVars, ∀ v, v.Matches ρ made v' →
        solution.infoOf v = solution'.infoOf v' := fun v' hv' v hv => hinfo v v' hv (Or.inr hv')
    revert hmem
    generalize c.unionVars = vs at hvars
    generalize c'.unionVars = vs' at hvars
    induction hvars with
    | nil => exact fun _ => rfl
    | @cons v v' _ _ hv _ ih =>
      intro hmem
      rw [List.map_cons, List.map_cons, typeOf_eq (hmem v' List.mem_cons_self v hv),
        ih fun w hw => hmem w (List.mem_cons_of_mem _ hw)]
  unfold OutputColumn.result OutputColumn.type
  rw [h.name, h.notNull, h.table, hfirst]
  -- the fold looks at nothing but the types
  have hfold : ∀ (vs : List TypeVar) (s : Solution) (first : SqlType),
      vs.foldl (fun type var => type.widest (s.typeOf profile var)) first =
        (vs.map (s.typeOf profile)).foldl SqlType.widest first := fun vs s first => by
    rw [List.foldl_map]
  rw [hfold, hfold, hunion]

/-! ## A query to look at -/

/-- A schema of one table with one column. -/
def oneTable : Schema := ⟨[("mytable1", [⟨"mytable1", "id", .int, .primary, true⟩])]⟩

/-- `SELECT id AS a FROM mytable1`. -/
def idAsA : Select :=
  ⟨[], [⟨false, [.expr (.column ⟨none, "id"⟩) (some "a")], [.table "mytable1" none], [], none, [],
    none⟩], [], none⟩

end QuerySignature
