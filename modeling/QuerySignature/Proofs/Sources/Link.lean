import QuerySignature.Proofs.Described
import QuerySignature.Proofs.Walk.Rules

namespace QuerySignature

/-! # References to inner columns

An output column that refers to a column of an inner query, directly or through a star, has a new
variable that is linked to the column before anything else is asked of it. The two variables then
stay in one class.

- `Run.Linked.infoOf_eq`: what is known of linked variables in the end is the same.
- `kept_of_expr`: which expressions are kept with a column, and which with the number of a placeholder.
- `linked_of_items`: the projection links what it refers to.
-/

/-- A variable has been linked to an earlier one, before any other constraint mentioned it. -/
def Run.Linked (run : Run) (u v : TypeVar) : Prop :=
  ∃ before label after, run.constraints = before ++ .bestEffort label u v :: after ∧
    u.info = .unknown ∧ v.id < u.id ∧
    ∀ step ∈ equationsOf before, step.2.1.id < u.id ∧ step.2.2.id < u.id

theorem Run.Linked.mono {run run' : Run} {u v : TypeVar} (h : run.Linked u v)
    (hgrows : run.constraints <+: run'.constraints) : run'.Linked u v := by
  rcases h with ⟨before, label, after, hconstraints, hrest⟩
  rcases hgrows with ⟨later, hlater⟩
  refine ⟨before, label, after ++ later, ?_, hrest⟩
  rw [← hlater, hconstraints]
  simp

theorem Run.Linked.carries {run : Run} {u v : TypeVar} (h : run.Linked u v)
    {initial : Nat → TypeInfo} (hcarries : ∀ step ∈ equationsOf run.constraints, step.Carries initial) :
    u.Carries initial ∧ v.Carries initial := by
  rcases h with ⟨before, label, after, hconstraints, -⟩
  refine hcarries (.bestEffort label u v, u, v) (List.mem_flatMap.2 ⟨.bestEffort label u v, ?_, ?_⟩)
  · simp [hconstraints]
  · exact List.mem_singleton.2 rfl

/-- Linked variables are in one class in the end. -/
theorem Run.Linked.infoOf_eq {run : Run} {u v : TypeVar} (h : run.Linked u v) {profile : Profile}
    {initial : Nat → TypeInfo} (hcarries : ∀ step ∈ equationsOf run.constraints, step.Carries initial)
    {t : Classes}
    (ht : (Classes.start initial).run profile (equationsOf run.constraints) = .ok t) :
    t.infoOf u.id = t.infoOf v.id := by
  have hu := (h.carries hcarries).1
  rcases h with ⟨before, label, after, hconstraints, hunknown, hlt, hbefore⟩
  have hsteps : equationsOf run.constraints =
      equationsOf before ++ (.bestEffort label u v, u, v) :: equationsOf after := by
    rw [hconstraints, equationsOf_append]
    rfl
  rw [hsteps, Classes.run_append] at ht
  rcases bind_eq_ok.1 ht with ⟨s, hs, ht⟩
  have hfresh : s.Fresh (u.id - 1) initial := by
    refine (Classes.Fresh.start _ _).run (fun step hstep => ?_) hs
    rcases hbefore step hstep with ⟨hleft, hright⟩
    constructor
    · omega
    · omega
  obtain ⟨s₁, hs₁, -, -, hsame, -⟩ := hfresh.link profile label (u := u) (v := v) (by omega)
    (hu.symm.trans hunknown)
    (by omega)
  rw [Classes.run_cons, hs₁] at ht
  exact Classes.infoOf_of_same (Classes.same_of_run hsame ht)

/-! ## Expressions that refer to a column -/

/-- Whatever the step gives has a property. -/
def Analyze.Gives {α : Type} (P : α → Prop) (step : Analyze α) : Prop :=
  ∀ r a s, step.outcome r = .ok (a, s) → P a

namespace Analyze.Gives

variable {α β : Type} {P : β → Prop}

theorem pure {b : β} (h : P b) : Gives P (Pure.pure b) := by
  intro r a s hs
  cases hs
  exact h

theorem throw (e : AnalysisError) : Gives P (MonadExcept.throw e) := by
  intro r a s hs
  cases hs

theorem mono {Q : β → Prop} {step : Analyze β} (h : Gives P step) (hP : ∀ b, P b → Q b) :
    Gives Q step :=
  fun r b s hs => hP b (h r b s hs)

theorem after {Q : α → Prop} {step : Analyze α} {next : α → Analyze β} (h : Gives Q step)
    (hnext : ∀ a, Q a → Gives P (next a)) : Gives P (step >>= next) := by
  intro r b s hs
  rw [outcome_bind] at hs
  rcases bind_eq_ok.1 hs with ⟨p, hp, hs⟩
  exact hnext p.1 (h r p.1 p.2 hp) p.2 b s hs

theorem bind {step : Analyze α} {next : α → Analyze β} (h : ∀ a, Gives P (next a)) :
    Gives P (step >>= next) :=
  after (Q := fun _ => True) (fun _ _ _ _ => trivial) fun a _ => h a

end Analyze.Gives

open Analyze (Gives)

/-- An expression that is no reference. -/
abbrev Inferred.Computed (e : Inferred) : Prop := e.source = none

/-- What is no placeholder. -/
abbrev Inferred.Unplaced (a : Inferred) : Prop := a.placeholder = none

theorem made_predicate (setting : Setting) (label : String) :
    Gives (fun a => a.Computed ∧ a.Unplaced) (predicate setting label) :=
  .bind fun _ => .pure ⟨rfl, rfl⟩

theorem made_call (profile : Profile) (function label : String) (arguments : List Inferred) :
    Gives (fun a => a.Computed ∧ a.Unplaced) (inferCall profile function label arguments) := by
  obtain ⟨e, heq⟩ | ⟨f, rule, -, -, hrule, heq⟩ := inferCall_cases profile function label arguments
  · rw [heq]
    exact .throw e
  · have hmade : Gives (fun a => a.Computed ∧ a.Unplaced) rule := by
      cases SqlFunction.ruleForm hrule with
      | count => exact .bind fun _ => .pure ⟨rfl, rfl⟩
      | concat | choice | sum | extreme | text => exact .bind fun _ => .bind fun _ => .pure ⟨rfl, rfl⟩
      | avg | floor | length =>
        exact .bind fun _ => .bind fun _ => .bind fun _ => .pure ⟨rfl, rfl⟩
      | date => exact .bind fun _ => .bind fun _ => .bind fun _ => .bind fun _ => .pure ⟨rfl, rfl⟩
      | @round _ _ digits _ =>
        refine .bind fun _ => .bind fun _ => ?_
        cases digits with
        | none => exact .pure ⟨rfl, rfl⟩
        | some d => exact .bind fun _ => .bind fun _ => .pure ⟨rfl, rfl⟩
    rw [heq]
    exact .after hmade fun _ hresult => .pure hresult

/-- What is made anew is kept with neither a column nor a placeholder, whatever the form it is for. -/
theorem kept_of_made {e : Expr} {step : Analyze Inferred}
    (h : Gives (fun a => a.Computed ∧ a.Unplaced) step) :
    Gives (fun a => (e.column? = none → a.Computed) ∧ (e.isParameter = false → a.Unplaced)) step :=
  h.mono fun _ hmade => ⟨fun _ => hmade.1, fun _ => hmade.2⟩

/-- Only what is a column, through parentheses, is kept with a column, and only what is a placeholder
with the number of one. -/
theorem kept_of_expr (setting : Setting) (scope : Scope) : ∀ e : Expr,
    Gives (fun a => (e.column? = none → a.Computed) ∧ (e.isParameter = false → a.Unplaced))
      (inferExpr setting scope e)
  | .column _ => .bind fun _ => .bind fun _ => .pure ⟨nofun, fun _ => rfl⟩
  | .parameter _ => by
    intro r a s hs
    cases hs
    exact ⟨fun _ => rfl, nofun⟩
  | .paren inner => by
    unfold inferExpr
    exact kept_of_expr setting scope inner
  -- every other form makes its value anew
  | .literal value => by
    unfold inferExpr inferLiteral
    cases value <;> exact kept_of_made (.bind fun _ => .pure ⟨rfl, rfl⟩)
  | .arithmetic .. =>
    kept_of_made <| .bind fun _ => .bind fun _ => .bind fun _ => .bind fun _ => .bind fun _ =>
      .bind fun _ => .pure ⟨rfl, rfl⟩
  | .compare .. =>
    kept_of_made <| .bind fun _ => .bind fun _ => .bind fun _ => .bind fun _ => .bind fun _ =>
      made_predicate _ _
  | .between .. =>
    kept_of_made <| .bind fun _ => .bind fun _ => .bind fun _ => .bind fun _ => .bind fun _ =>
      .bind fun _ => .bind fun _ => .bind fun _ => made_predicate _ _
  | .inList negated value items => by
    have hlast : ∀ (label : String) (v : Inferred) (es : List Inferred),
        Gives (fun a => a.Computed ∧ a.Unplaced) (inferInList setting label v es) := fun _ _ _ =>
      .bind fun _ => .bind fun _ => made_predicate _ _
    unfold inferExpr
    refine kept_of_made (.bind fun v => .bind fun _ => ?_)
    dsimp only
    cases soleParameter? items with
    | some name => exact .bind fun _ => .bind fun _ => hlast _ _ _
    | none => exact .bind fun _ => hlast _ _ _
  | .inQuery .. =>
    kept_of_made <| .bind fun _ => .bind fun _ => .bind fun _ => .bind fun _ => .bind fun _ =>
      made_predicate _ _
  | .like .. =>
    kept_of_made <| .bind fun _ => .bind fun _ => .bind fun _ => .bind fun _ => .bind fun _ =>
      .bind fun _ => .bind fun _ => made_predicate _ _
  | .isNull .. => kept_of_made <| .bind fun _ => made_predicate _ _
  | .and .. => kept_of_made <| .bind fun _ => .bind fun _ => made_predicate _ _
  | .or .. => kept_of_made <| .bind fun _ => .bind fun _ => made_predicate _ _
  | .not _ => kept_of_made <| .bind fun _ => made_predicate _ _
  | .call .. => kept_of_made <| .bind fun _ => made_call _ _ _ _
  | .case .. =>
    kept_of_made <| .bind fun _ => .bind fun _ => .bind fun _ => .bind fun _ => .pure ⟨rfl, rfl⟩
  | .scalar _ => kept_of_made <| .bind fun _ => .bind fun _ => .pure ⟨rfl, rfl⟩
  | .hasRows _ => kept_of_made <| .bind fun _ => made_predicate _ _
  | .star => .throw _

/-- Only what is a column, through parentheses, refers to one. -/
theorem computed_of_column?_none {setting : Setting} {scope : Scope} {e : Expr}
    (h : e.column? = none) : Gives Inferred.Computed (inferExpr setting scope e) :=
  (kept_of_expr setting scope e).mono fun _ hkept => hkept.1 h

/-- An expression that is not a bare placeholder has no number of one. -/
theorem unplaced_of_not_isParameter {setting : Setting} {scope : Scope} {e : Expr}
    (h : e.isParameter = false) : Gives Inferred.Unplaced (inferExpr setting scope e) :=
  (kept_of_expr setting scope e).mono fun _ hkept => hkept.2 h

/-- An expression with a source is a reference to it. -/
theorem reference_of_source {setting : Setting} {scope : Scope} {value : Expr} {r s : Run}
    {inferred : Inferred} {column : SourceColumn}
    (h : (inferExpr setting scope value).outcome r = .ok (inferred, s))
    (hsource : inferred.source = some column) :
    ∃ c, scope.resolve c = .ok column ∧ (reference column).outcome r = .ok (inferred.var, s) := by
  cases hcolumn : value.column? with
  | none =>
    have hcomputed : inferred.source = none := computed_of_column?_none hcolumn _ _ _ h
    exact absurd (hsource.symm.trans hcomputed) (Option.some_ne_none column)
  | some c =>
    rw [inferExpr_of_column? hcolumn] at h
    unfold inferColumn resolve at h
    cases hmeaning : scope.resolve c with
    | error e =>
      rw [hmeaning] at h
      cases h
    | ok found =>
      rw [hmeaning, Analyze.outcome_bind, Analyze.outcome_pure, ok_bind, Analyze.outcome_bind] at h
      obtain ⟨⟨var, _⟩, hvar, h⟩ := bind_eq_ok.1 h
      cases h
      cases hsource
      exact ⟨c, hmeaning, hvar⟩

/-! ## Projections -/

section Linking

variable {made : List TypeInfo} {r s : Run}

/-- A reference to an output column of an inner query is linked to it. -/
theorem linked_of_reference (h : r.Sound made) {column : SourceColumn}
    (hissued : column.var.Issued made) (hprojected : column.var.projected = true) {var : TypeVar}
    (hs : (reference column).outcome r = .ok (var, s)) : s.Linked var column.var := by
  unfold reference at hs
  rw [hprojected] at hs
  cases hs
  refine ⟨r.constraints, column.qualifiedName, [], rfl, rfl, ?_, ?_⟩
  · have hle := hissued.le
    rw [← h.issued] at hle
    exact Nat.lt_succ_of_le hle
  · intro step hstep
    have hle := h.steps step hstep
    have hleft := hle.1.le
    have hright := hle.2.le
    rw [← h.issued] at hleft hright
    exact ⟨Nat.lt_succ_of_le hleft, Nat.lt_succ_of_le hright⟩

/-- Every output column that refers to an inner column is linked to it. -/
def Run.LinksAll (run : Run) (cs : List OutputColumn) : Prop :=
  ∀ c ∈ cs, ∀ column, c.source = some column → column.var.projected = true →
    run.Linked c.var column.var

theorem Run.LinksAll.nil (run : Run) : run.LinksAll [] := fun _ hc => absurd hc List.not_mem_nil

theorem Run.LinksAll.append {cs ds : List OutputColumn} (hcs : r.LinksAll cs)
    (hds : s.LinksAll ds) (hgrows : r.constraints <+: s.constraints) :
    s.LinksAll (cs ++ ds) := by
  intro c hc column hsource hprojected
  rcases List.mem_append.1 hc with hc | hc
  · exact (hcs c hc column hsource hprojected).mono hgrows
  · exact hds c hc column hsource hprojected

theorem linked_of_star {level : Level} {cs : List OutputColumn} (h : r.Sound made)
    (hlevel : level.Issued made) (hs : (inferStar level).outcome r = .ok (cs, s)) :
    s.LinksAll cs := by
  induction level generalizing made r cs with
  | nil =>
    cases hs
    exact .nil r
  | cons column rest ih =>
    have hcolumn := hlevel column List.mem_cons_self
    obtain ⟨output, t, outputs, houtput, houtputs, rfl⟩ := columns_of_star hs
    have hstep := Parallel.starColumn (F := ⟨.none, r.constraints, r.constraints⟩)
      (T := fun _ => True) hcolumn
    rw [Renaming.none_column] at hstep
    rcases h.advance hstep houtput with ⟨made₁, hgrows₁, hsound₁, -, -, -⟩
    have hrest : Level.Issued made₁ rest := fun d hd =>
      (hlevel d (List.mem_cons_of_mem _ hd)).mono hgrows₁
    have hstar := Parallel.star (F := ⟨.none, t.constraints, t.constraints⟩) (T := fun _ => True)
      hrest
    rw [Renaming.none_level] at hstar
    rcases hsound₁.advance hstar houtputs with ⟨_, -, -, hgrows, -, -⟩
    have hfirst : t.LinksAll [output] := by
      obtain ⟨var, hvar, rfl⟩ := reference_of_starColumn houtput
      intro c hc d hd hprojected
      cases List.mem_singleton.1 hc
      cases hd
      exact linked_of_reference h hcolumn hprojected hvar
    exact hfirst.append (ih hsound₁ hrest houtputs) hgrows

theorem linked_of_item {setting : Setting} {scope : Scope} {item : Item} {cs : List OutputColumn}
    (h : r.Sound made) (hscope : Scope.Matches .none made scope scope)
    (hs : (inferItem setting scope item).outcome r = .ok (cs, s)) : s.LinksAll cs := by
  cases item with
  | star => exact linked_of_star h hscope.issued hs
  | tableStar table =>
    exact linked_of_star h (hscope.issued.filter (·.isOf table)) (star_of_tableStar hs)
  | expr value aliasName =>
    obtain ⟨inferred, hinferred, rfl⟩ := value_of_item hs
    intro c hc column hsource hprojected
    cases List.mem_singleton.1 hc
    obtain ⟨ref, hmeaning, hvar⟩ := reference_of_source hinferred hsource
    exact linked_of_reference h (hscope.issued_of_resolve hmeaning) hprojected hvar

/-- Every output column of a projection that refers to an inner column is linked to it. -/
theorem linked_of_items {setting : Setting} {scope : Scope} {items : List Item}
    {cs : List OutputColumn} (h : r.Sound made) (hscope : Scope.Matches .none made scope scope)
    (hs : (inferItems setting scope items).outcome r = .ok (cs, s)) : s.LinksAll cs := by
  induction items generalizing made r cs with
  | nil =>
    cases hs
    exact .nil r
  | cons item rest ih =>
    obtain ⟨first, t, others, hfirst, hothers, rfl⟩ := items_of_cons hs
    obtain ⟨made₁, hgrows₁, hsound₁, -, -, -⟩ :=
      h.advance (.item setting item (Parallel.reads_all _) hscope) hfirst
    have hscope₁ := hscope.mono hgrows₁
    obtain ⟨_, -, -, hgrows, -, -⟩ :=
      hsound₁.advance (.items setting rest (Parallel.reads_all _) hscope₁) hothers
    exact (linked_of_item h hscope hfirst).append (ih hsound₁ hscope₁ hothers) hgrows

end Linking

end QuerySignature
