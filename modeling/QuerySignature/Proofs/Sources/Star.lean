import QuerySignature.Proofs.Described
import QuerySignature.Proofs.Solver.Agreement
import QuerySignature.Proofs.Walk.Parts

namespace QuerySignature

/-! # A star over inner columns

A star over the columns of an inner query makes one new variable for each column and links it to
the column. Solving these links tells every new variable what is known of its column, and nothing
else.

- `outcome_inferStar`: the output columns of a star, and the links that it adds.
- `run_starLinks`: what solving the links comes to.
- `describe_readAll`: a query that reads all columns of one source is described whenever the source
  can be analysed and the constraints so far can be solved.
-/

/-- The new variables that a star makes for columns of inner queries, each with its column. -/
def starLinks (issued : Nat) : Level → List (TypeVar × SourceColumn)
  | [] => []
  | c :: rest =>
    (⟨issued + 1, c.qualifiedName, .unknown, false, false⟩, c) :: starLinks (issued + 1) rest

/-- The output columns of a star. -/
def starColumns (links : List (TypeVar × SourceColumn)) : List OutputColumn :=
  links.map fun link => .ofInferred link.2.name (.ofColumn link.1 link.2)

/-- The constraints of a star. -/
def starConstraints (links : List (TypeVar × SourceColumn)) : List Constraint :=
  links.map fun link => .bestEffort link.2.qualifiedName link.1 link.2.var

theorem outcome_inferStar {level : Level} (hprojected : ∀ c ∈ level, c.var.projected = true)
    (r : Run) :
    (inferStar level).outcome r = .ok (starColumns (starLinks r.issued level),
      { r with
        issued := r.issued + level.length
        constraints := r.constraints ++ starConstraints (starLinks r.issued level) }) := by
  induction level generalizing r with
  | nil => simp [inferStar, starColumns, starConstraints, starLinks]
  | cons c rest ih =>
    have hc : c.var.projected = true := hprojected c List.mem_cons_self
    have hcolumn : (inferStarColumn c).outcome r =
        .ok (.ofInferred c.name (.ofColumn ⟨r.issued + 1, c.qualifiedName, .unknown, false, false⟩ c),
          { r with
            issued := r.issued + 1
            constraints := r.constraints ++ [.bestEffort c.qualifiedName
              ⟨r.issued + 1, c.qualifiedName, .unknown, false, false⟩ c.var] }) := by
      unfold inferStarColumn reference
      rw [hc]
      rfl
    unfold inferStar
    rw [Analyze.outcome_bind, hcolumn]
    simp only [Except.bind]
    rw [Analyze.outcome_bind, ih fun d hd => hprojected d (List.mem_cons_of_mem _ hd)]
    simp [Except.bind, starColumns, starConstraints, starLinks, Nat.add_comm, Nat.add_left_comm]

theorem starLinks_map_snd (n : Nat) (level : Level) : (starLinks n level).map (·.2) = level := by
  induction level generalizing n with
  | nil => rfl
  | cons c rest ih => simp [starLinks, ih]

theorem starLinks_info {n : Nat} {level : Level} {link : TypeVar × SourceColumn}
    (h : link ∈ starLinks n level) : link.1.info = .unknown := by
  induction level generalizing n with
  | nil => exact absurd h List.not_mem_nil
  | cons c rest ih =>
    rcases List.mem_cons.1 h with rfl | h
    · rfl
    · exact ih h

theorem mem_of_mem_starLinks {n : Nat} {level : Level} {link : TypeVar × SourceColumn}
    (h : link ∈ starLinks n level) : link.2 ∈ level := by
  induction level generalizing n with
  | nil => exact absurd h List.not_mem_nil
  | cons c rest ih =>
    rcases List.mem_cons.1 h with rfl | h
    · exact List.mem_cons_self
    · exact List.mem_cons_of_mem _ (ih h)

/-- Solving the links of a star succeeds, tells the new variables what is known of their columns, and
changes nothing of earlier variables. -/
theorem run_starLinks (profile : Profile) {n : Nat} {initial : Nat → TypeInfo} {s : Classes}
    (h : s.Fresh n initial) {level : Level} (hlevel : ∀ c ∈ level, c.var.id ≤ n)
    (hunknown : ∀ link ∈ starLinks n level, initial link.1.id = .unknown) :
    ∃ t, s.run profile (equationsOf (starConstraints (starLinks n level))) = .ok t ∧
      Agree id (· ≤ n) s t ∧
      ∀ link ∈ starLinks n level, t.infoOf link.1.id = s.infoOf link.2.var.id := by
  induction level generalizing n s with
  | nil => exact ⟨s, rfl, .refl _ s, fun _ hlink => absurd hlink List.not_mem_nil⟩
  | cons c rest ih =>
    have hrest : ∀ d ∈ rest, d.var.id ≤ n := fun d hd => hlevel d (List.mem_cons_of_mem _ hd)
    obtain ⟨t, ht, hfresh, hagree, _, hinfo⟩ := h.link profile c.qualifiedName
      (u := ⟨n + 1, c.qualifiedName, .unknown, false, false⟩) (v := c.var) rfl
      (hunknown _ List.mem_cons_self) (hlevel c List.mem_cons_self)
    obtain ⟨last, hlast, hagreeLast, hinfos⟩ := ih hfresh
      (fun d hd => Nat.le_succ_of_le (hrest d hd))
      (fun link hlink => hunknown link (List.mem_cons_of_mem _ hlink))
    refine ⟨last, ?_, hagree.trans hagreeLast fun x hx => Nat.le_succ_of_le hx, ?_⟩
    · show s.run profile ((Constraint.bestEffort c.qualifiedName
        ⟨n + 1, c.qualifiedName, .unknown, false, false⟩ c.var,
        ⟨n + 1, c.qualifiedName, .unknown, false, false⟩, c.var) :: equationsOf _) = _
      rw [Classes.run_cons, ht]
      exact hlast
    · intro link hlink
      rcases List.mem_cons.1 hlink with rfl | hlink
      · exact (hagreeLast.info _ (Nat.le_refl _)).symm.trans hinfo
      · rw [hinfos link hlink]
        exact (hagree.info _ (hrest link.2 (mem_of_mem_starLinks hlink))).symm

/-! ## A query that reads all columns of one source -/

/-- `SELECT *` from one source. -/
def Branch.readAll (source : Source) : Branch := ⟨false, [.star], [source], [], none, [], none⟩

/-- `SELECT *` from one source, behind common tables. -/
def Select.readAll (ctes : List Cte) (source : Source) : Select :=
  ⟨ctes, [.readAll source], [], none⟩

theorem outcome_inferItems_star (setting : Setting) (scope : Scope) (r : Run) :
    (inferItems setting scope [.star]).outcome r = (inferStar scope.columns).outcome r := by
  show (inferStar scope.columns >>= fun first => inferItems setting scope [] >>= fun others =>
    pure (first ++ others)).outcome r = _
  rw [Analyze.outcome_bind]
  cases (inferStar scope.columns).outcome r with
  | error e => rfl
  | ok p =>
    show Except.ok (p.1 ++ [], p.2) = Except.ok p
    rw [List.append_nil]

theorem outcome_readAll {setting : Setting} {ctes : List Cte} {source : Source} {r r₁ : Run}
    {level : Level} (hctes : (inferCtes setting [] ctes).outcome .start = .ok ((), r))
    (hsource : (inferSource setting source).outcome r = .ok (level, r₁))
    (hprojected : ∀ c ∈ level, c.var.projected = true) :
    ∃ result run, (inferQuery setting [] (.readAll ctes source)).outcome .start =
        .ok (result, run) ∧
      result.columns = starColumns (starLinks r₁.issued level) ∧
      run.constraints = r₁.constraints ++ starConstraints (starLinks r₁.issued level) := by
  have hsources : (inferSources setting .empty [source]).outcome r =
      .ok (Sources.empty.add source level, r₁) := by
    show (inferSource setting source >>= fun columns =>
      inferSources setting (Sources.empty.add source columns) []).outcome r = _
    rw [Analyze.outcome_bind, hsource]
    rfl
  have hcolumns : (Sources.empty.add source level).columns = level := rfl
  have hfront : ∃ run, (inferFront setting [] (.readAll source)).outcome r =
        .ok ((Sources.empty.add source level, starColumns (starLinks r₁.issued level)), run) ∧
      run.constraints = r₁.constraints ++ starConstraints (starLinks r₁.issued level) := by
    have hjoins : (inferJoins setting [] (Sources.empty.add source level)
        (Sources.lastName [source]) []).outcome r₁ =
        .ok (Sources.empty.add source level, r₁) := rfl
    have hcut := Analyze.outcome_of_runFrom (runFrom_cutPlaceholders r.placeholders.length r₁)
    unfold inferFront Branch.readAll
    simp only [Analyze.outcome_bind, Analyze.outcome_get, Except.bind, hsources, hjoins, hcut,
      outcome_inferItems_star, hcolumns, outcome_inferStar hprojected]
    exact ⟨_, rfl, rfl⟩
  rcases hfront with ⟨run, hfront, hconstraints⟩
  have hproven : ((Branch.readAll source).result []
      (Sources.empty.add source level, starColumns (starLinks r₁.issued level))).columns =
      starColumns (starLinks r₁.issued level) := by
    unfold Branch.result Branch.readAll BranchResult.of proveColumns
    simp
  exact ⟨_, _, outcome_plainQuery rfl rfl hctes hfront, hproven, hconstraints⟩

theorem mem_equationsOf_starConstraints {links : List (TypeVar × SourceColumn)}
    {link : TypeVar × SourceColumn} (h : link ∈ links) :
    (Constraint.bestEffort link.2.qualifiedName link.1 link.2.var, link.1, link.2.var) ∈
      equationsOf (starConstraints links) :=
  List.mem_flatMap.2 ⟨_, List.mem_map_of_mem h, List.mem_singleton.2 rfl⟩

/-- A query that reads all columns of one source is described if the constraints so far can be
solved, and reports the columns in the types that they have so far. -/
theorem describe_readAll {setting : Setting} {ctes : List Cte} {source : Source} {r r₁ : Run}
    {level : Level} {made : List TypeInfo}
    (hctes : (inferCtes setting [] ctes).outcome .start = .ok ((), r))
    (hsource : (inferSource setting source).outcome r = .ok (level, r₁))
    (hprojected : ∀ c ∈ level, c.var.projected = true) (hsound : r₁.Sound made)
    (hissued : level.Issued made) {solution : Solution}
    (hsolve : solve setting.profile r₁.constraints = .ok solution) :
    ∃ d, describe setting (.select (.readAll ctes source)) = .ok d ∧
      d.columns = level.map fun c =>
        ⟨c.name, solution.typeOf setting.profile c.var, c.notNull, c.visibleTable⟩ := by
  rcases outcome_readAll hctes hsource hprojected with ⟨result, run, hwalk, hcolumns, hconstraints⟩
  obtain ⟨made', -, hsoundAll, -⟩ := Run.Sound.start.query (fun _ hl => absurd hl List.not_mem_nil)
    hwalk
  have hsteps : equationsOf run.constraints =
      equationsOf r₁.constraints ++ equationsOf (starConstraints (starLinks r₁.issued level)) := by
    rw [hconstraints, equationsOf_append]
  have hcarries := hsoundAll.carries
  rw [hsteps] at hcarries
  have hlinks : ∀ link ∈ starLinks r₁.issued level,
      link.1.Carries (initialOf made') ∧ link.2.var.Carries (initialOf made') := fun link hlink =>
    hcarries _ (List.mem_append_right _ (mem_equationsOf_starConstraints hlink))
  -- first the constraints of the source, then the links
  obtain ⟨s, hs, hsolution⟩ := exists_classes
    (fun step hstep => hcarries step (List.mem_append_left _ hstep)) hsolve
  have hfresh : s.Fresh r₁.issued (initialOf made') := by
    refine (Classes.Fresh.start _ _).run (fun step hstep => ?_) hs
    rw [hsound.issued]
    exact ⟨(hsound.steps step hstep).1.le, (hsound.steps step hstep).2.le⟩
  obtain ⟨t, ht, -, hinfos⟩ := run_starLinks setting.profile hfresh
    (fun c hc => by rw [hsound.issued]; exact (hissued c hc).le)
    (fun link hlink => (hlinks link hlink).1.symm.trans (starLinks_info hlink))
  have hrun : (Classes.start (initialOf made')).run setting.profile (equationsOf run.constraints) =
      .ok t := by
    rw [hsteps, Classes.run_append, hs]
    exact ht
  rcases exists_solution hsoundAll.carries hrun with ⟨solution', hsolve', hsolution'⟩
  refine ⟨_, describe_select_iff.2 ⟨result, run, solution', hwalk, hsolve', rfl⟩, ?_⟩
  show result.columns.map (·.result solution' setting.profile) = _
  rw [hcolumns]
  conv_rhs => rw [← starLinks_map_snd r₁.issued level]
  unfold starColumns
  rw [List.map_map, List.map_map]
  refine List.map_congr_left fun link hlink => ?_
  rcases hlinks link hlink with ⟨hnew, hold⟩
  have htype : solution'.typeOf setting.profile link.1 =
      solution.typeOf setting.profile link.2.var := by
    refine typeOf_eq ?_
    rw [hsolution' _ hnew, hsolution _ hold, hinfos link hlink]
  show ResultColumn.mk link.2.name (solution'.typeOf setting.profile link.1) link.2.notNull
    link.2.visibleTable = _
  rw [htype]
  rfl

end QuerySignature
