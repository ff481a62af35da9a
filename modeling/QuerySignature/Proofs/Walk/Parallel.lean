import QuerySignature.Proofs.Alike
import QuerySignature.Proofs.Walk.Renaming

namespace QuerySignature

/-! # Walks side by side

Two walks go side by side when they make variables of the same types at the same places, add
constraints that match, and succeed or fail alike. The first one's variables are recorded by the
types that they were made with; this record only grows, and whatever matched before still does.

- `Parallel.bind`: steps side by side, followed by steps side by side, go side by side.
- `Parallel.fresh`, `Parallel.demand`, `Parallel.reference`, ...: so do the steps of a walk.
-/

/-! ## What matches -/

/-- A variable and its counterpart in the second walk. -/
structure TypeVar.Matches (ρ : Renaming) (made : List TypeInfo) (v v' : TypeVar) : Prop where
  issued : v.Issued made
  eq : v' = ρ.var v

/-- An expression and its counterpart. -/
structure Inferred.Matches (ρ : Renaming) (made : List TypeInfo) (e e' : Inferred) : Prop where
  var : e.var.Matches ρ made e'.var
  notNull : e'.notNull = e.notNull
  placeholder : e'.placeholder.isSome = e.placeholder.isSome
  sourceIssued : ∀ c, e.source = some c → c.var.Issued made
  source : e'.source = e.source.map ρ.column

/-- An output column and its counterpart. -/
structure OutputColumn.Matches (ρ : Renaming) (made : List TypeInfo) (c c' : OutputColumn) :
    Prop where
  name : c'.name = c.name
  var : c.var.Matches ρ made c'.var
  unionVars : List.Forall₂ (TypeVar.Matches ρ made) c.unionVars c'.unionVars
  notNull : c'.notNull = c.notNull
  table : c'.table = c.table
  sourceIssued : ∀ d, c.source = some d → d.var.Issued made
  source : c'.source = c.source.map ρ.column

/-- A constraint and its counterpart: the same demand on counterparts. -/
structure Constraint.Matches (ρ : Renaming) (made : List TypeInfo) (c c' : Constraint) : Prop where
  label : c'.label = c.label
  strength : c'.strength = c.strength
  coercion : c'.coercion = c.coercion
  equations : List.Forall₂
    (fun p p' => TypeVar.Matches ρ made p.1 p'.1 ∧ TypeVar.Matches ρ made p.2 p'.2)
    c.equations c'.equations

section Mono

variable {ρ : Renaming} {made made' : List TypeInfo} (hgrows : made <+: made')

include hgrows

theorem TypeVar.Matches.mono {v v' : TypeVar} (h : v.Matches ρ made v') : v.Matches ρ made' v' :=
  ⟨h.issued.mono hgrows, h.eq⟩

theorem Inferred.Matches.mono {e e' : Inferred} (h : e.Matches ρ made e') :
    e.Matches ρ made' e' where
  var := h.var.mono hgrows
  notNull := h.notNull
  placeholder := h.placeholder
  sourceIssued := fun c hc => (h.sourceIssued c hc).mono hgrows
  source := h.source

theorem OutputColumn.Matches.mono {c c' : OutputColumn} (h : c.Matches ρ made c') :
    c.Matches ρ made' c' where
  name := h.name
  var := h.var.mono hgrows
  unionVars := h.unionVars.imp fun _ _ hv => hv.mono hgrows
  notNull := h.notNull
  table := h.table
  sourceIssued := fun d hd => (h.sourceIssued d hd).mono hgrows
  source := h.source

theorem Constraint.Matches.mono {c c' : Constraint} (h : c.Matches ρ made c') :
    c.Matches ρ made' c' where
  label := h.label
  strength := h.strength
  coercion := h.coercion
  equations := h.equations.imp fun _ _ hp => ⟨hp.1.mono hgrows, hp.2.mono hgrows⟩

end Mono

/-! ## Runs side by side -/

/-- Placeholders whose variables have been made. -/
def Placeholder.AllIssued (made : List TypeInfo) (ps : List Placeholder) : Prop :=
  ∀ p ∈ ps, p.var.Issued made

namespace Placeholder.AllIssued

variable {made made' : List TypeInfo} {ps qs : List Placeholder}

theorem nil : AllIssued made [] := fun _ hp => absurd hp List.not_mem_nil

theorem singleton {v : TypeVar} (name : Option String) (notNull : Bool) (hv : v.Issued made) :
    AllIssued made [⟨v, name, notNull⟩] := by
  intro p hp
  cases List.mem_singleton.1 hp
  exact hv

theorem mono (h : AllIssued made ps) (hgrows : made <+: made') : AllIssued made' ps :=
  fun p hp => (h p hp).mono hgrows

theorem append (h : AllIssued made ps) (h' : AllIssued made qs) : AllIssued made (ps ++ qs) :=
  List.forall_mem_append.2 ⟨h, h'⟩

theorem subset (h : AllIssued made ps) (hsub : qs ⊆ ps) : AllIssued made qs :=
  fun p hp => h p (hsub hp)

theorem setNotNull (h : AllIssued made ps) (index : Nat) (notNull : Bool) :
    AllIssued made (ps.modify index fun p => { p with notNull }) := by
  intro p hp
  rcases List.mem_iff_getElem?.1 hp with ⟨i, hi⟩
  rw [List.getElem?_modify] at hi
  rcases Option.map_eq_some_iff.1 hi with ⟨q, hq, rfl⟩
  have hvar := h q (List.mem_of_getElem? hq)
  split
  · exact hvar
  · exact hvar

end Placeholder.AllIssued

/-- What sets the two walks apart from the start: the numbers of the second one's variables, and the
constraints that each has had before. -/
structure Frame where
  ρ : Renaming
  base : List Constraint
  base' : List Constraint

/-- The runs of two walks, after the same steps. -/
structure Run.Matches (F : Frame) (made : List TypeInfo) (r r' : Run) : Prop where
  issued : r.issued = made.length
  kept : F.ρ.kept ≤ made.length
  ahead : r'.issued = made.length + F.ρ.shift
  constraints : ∃ added added', r.constraints = F.base ++ added ∧ r'.constraints = F.base' ++ added' ∧
    List.Forall₂ (Constraint.Matches F.ρ made) added added'
  placeholders : Placeholder.AllIssued made r.placeholders

/-- One more variable each, made for a type. -/
theorem Run.Matches.issue {F : Frame} {made : List TypeInfo} {r r' : Run} (h : r.Matches F made r')
    (info : TypeInfo) {ps : List Placeholder} (hps : Placeholder.AllIssued (made ++ [info]) ps)
    (ps' : List Placeholder) :
    Run.Matches F (made ++ [info]) { r with issued := r.issued + 1, placeholders := ps }
      { r' with issued := r'.issued + 1, placeholders := ps' } := by
  rcases h.constraints with ⟨added, added', hfirst, hsecond, hadded⟩
  have hgrows : made <+: made ++ [info] := List.prefix_append _ _
  refine ⟨?_, ?_, ?_,
    ⟨added, added', hfirst, hsecond, hadded.imp fun _ _ hc => hc.mono hgrows⟩, hps⟩
  · simp [h.issued]
  · have := h.kept
    simp
    omega
  · simp [h.ahead]
    omega

theorem Run.Matches.issue_var {F : Frame} {made : List TypeInfo} {r r' : Run}
    (h : r.Matches F made r') (label : String) (info : TypeInfo) (list : Bool) :
    TypeVar.Matches F.ρ (made ++ [info]) ⟨r.issued + 1, label, info, list, false⟩
      ⟨r'.issued + 1, label, info, list, false⟩ := by
  refine ⟨⟨by simp, by simp [h.issued]⟩, ?_⟩
  have hkept := h.kept
  have hbehind : ¬ r.issued + 1 ≤ F.ρ.kept := by
    rw [h.issued]
    omega
  have hnumber : r'.issued + 1 = r.issued + 1 + F.ρ.shift := by
    rw [h.issued, h.ahead]
    omega
  simp [Renaming.var, Renaming.apply, hbehind, hnumber]

/-- The two runs find counterparts under a name among their common tables, or neither finds any. -/
def Run.SeesAlike (ρ : Renaming) (made : List TypeInfo) (r r' : Run) (name : String) : Prop :=
  Option.Rel (fun l l' => Level.Issued made l ∧ l' = ρ.level l) (r.cte? name) (r'.cte? name)

theorem Run.SeesAlike.mono {ρ : Renaming} {made made' : List TypeInfo} {r r' : Run} {name : String}
    (h : r.SeesAlike ρ made r' name) (hgrows : made <+: made') :
    r.SeesAlike ρ made' r' name := by
  unfold Run.SeesAlike at h ⊢
  revert h
  cases r.cte? name <;> cases r'.cte? name <;> intro h
  · exact .none
  · nomatch h
  · nomatch h
  · obtain ⟨hissued, heq⟩ : _ ∧ _ := by
      cases h
      assumption
    exact .some ⟨hissued.mono hgrows, heq⟩

/-- The runs after a step each, from the runs before. -/
structure Reached (F : Frame) (made made' : List TypeInfo) (r r' s s' : Run) : Prop where
  grows : made <+: made'
  runs : s.Matches F made' s'
  ctes : s.ctes = r.ctes
  ctes' : s'.ctes = r'.ctes

/-- What a step gives, with the run after it. -/
def Analyze.outcome {α : Type} (step : Analyze α) (run : Run) : Except AnalysisError (α × Run) :=
  (step.runFrom run).1.map fun value => (value, (step.runFrom run).2)

/-- Two steps go side by side, from all runs that match and see alike the common tables of certain
names: they fail alike, or both give values in a relation. -/
def Parallel {α β : Type} (F : Frame) (T : String → Prop) (made : List TypeInfo)
    (R : List TypeInfo → α → β → Prop) (step : Analyze α) (step' : Analyze β) : Prop :=
  ∀ r r', r.Matches F made r' → (∀ name, T name → r.SeesAlike F.ρ made r' name) →
    Alike (fun p p' => ∃ made', Reached F made made' r r' p.2 p'.2 ∧ R made' p.1 p'.1)
      (step.outcome r) (step'.outcome r')

namespace Analyze

variable {α β : Type}

@[simp] theorem outcome_pure (value : α) (run : Run) :
    (pure value : Analyze α).outcome run = .ok (value, run) := rfl

@[simp] theorem outcome_throw (e : AnalysisError) (run : Run) :
    (throw e : Analyze α).outcome run = .error e := rfl

theorem outcome_bind (step : Analyze α) (next : α → Analyze β) (run : Run) :
    (step >>= next).outcome run =
      (step.outcome run).bind fun p => (next p.1).outcome p.2 := by
  unfold outcome
  rw [runFrom_bind]
  rcases step.runFrom run with ⟨_ | value, after⟩
  · rfl
  · rfl

theorem outcome_of_runFrom {step : Analyze α} {run after : Run} {value : α}
    (h : step.runFrom run = (.ok value, after)) : step.outcome run = .ok (value, after) := by
  simp [outcome, h, Except.map]

theorem runFrom_of_outcome {step : Analyze α} {run after : Run} {value : α}
    (h : step.outcome run = .ok (value, after)) : step.runFrom run = (.ok value, after) := by
  unfold outcome at h
  rcases hrun : step.runFrom run with ⟨_ | found, last⟩
  · simp [hrun, Except.map] at h
  · simp only [hrun, Except.map, Except.ok.injEq, Prod.mk.injEq] at h
    rw [h.1, h.2]

end Analyze

namespace Parallel

variable {α β γ δ : Type} {F : Frame} {T : String → Prop} {made : List TypeInfo}
  {R : List TypeInfo → α → β → Prop} {Q : List TypeInfo → γ → δ → Prop}

theorem pure {a : α} {b : β} (h : R made a b) :
    Parallel F T made R (Pure.pure a) (Pure.pure b) := by
  intro r r' hr _
  exact ⟨made, ⟨List.prefix_rfl, hr, rfl, rfl⟩, h⟩

theorem throw (e : AnalysisError) :
    Parallel F T made R (MonadExcept.throw e) (MonadExcept.throw e) := by
  intro r r' _ _
  exact rfl

/-- Steps after steps go side by side if they do from whatever the first ones give. -/
theorem bind {step : Analyze α} {step' : Analyze β} {next : α → Analyze γ} {next' : β → Analyze δ}
    (h : Parallel F T made R step step')
    (hnext : ∀ made', made <+: made' → ∀ a b, R made' a b →
      Parallel F T made' Q (next a) (next' b)) :
    Parallel F T made Q (step >>= next) (step' >>= next') := by
  intro r r' hr hsees
  rw [Analyze.outcome_bind, Analyze.outcome_bind]
  refine (h r r' hr hsees).bind ?_
  rintro ⟨a, s⟩ ⟨b, s'⟩ ⟨made', hreached, hab⟩
  have hseesAfter : ∀ name, T name → s.SeesAlike F.ρ made' s' name := by
    intro name hname
    have hold := (hsees name hname).mono hreached.grows
    unfold Run.SeesAlike Run.cte? at hold ⊢
    rw [hreached.ctes, hreached.ctes']
    exact hold
  refine (hnext made' hreached.grows a b hab s s' hreached.runs hseesAfter).mono ?_
  rintro ⟨c, t⟩ ⟨d, t'⟩ ⟨made'', hlast, hcd⟩
  refine ⟨made'', ⟨hreached.grows.trans hlast.grows, hlast.runs, ?_, ?_⟩, hcd⟩
  · exact hlast.ctes.trans hreached.ctes
  · exact hlast.ctes'.trans hreached.ctes'

/-! ## Steps -/

/-- No values to compare. -/
abbrev Done {α β : Type} : List TypeInfo → α → β → Prop := fun _ _ _ => True

theorem fresh (label : String) (info : TypeInfo) :
    Parallel F T made (TypeVar.Matches F.ρ) (QuerySignature.fresh label info)
      (QuerySignature.fresh label info) := by
  intro r r' hr _
  rw [Analyze.outcome_of_runFrom (runFrom_fresh label info r),
    Analyze.outcome_of_runFrom (runFrom_fresh label info r')]
  have hgrows : made <+: made ++ [info] := List.prefix_append _ _
  exact ⟨made ++ [info], ⟨hgrows, hr.issue info (hr.placeholders.mono hgrows) _, rfl, rfl⟩,
    hr.issue_var label info false⟩

theorem freshExact (label : String) (type : SqlType) :
    Parallel F T made (TypeVar.Matches F.ρ) (QuerySignature.freshExact label type)
      (QuerySignature.freshExact label type) :=
  fresh label (.exact type)

theorem demand {c c' : Constraint} (h : c.Matches F.ρ made c') :
    Parallel F T made Done (QuerySignature.demand c) (QuerySignature.demand c') := by
  intro r r' hr _
  rw [Analyze.outcome_of_runFrom (runFrom_demand c r),
    Analyze.outcome_of_runFrom (runFrom_demand c' r')]
  refine ⟨made, ⟨List.prefix_rfl, ?_, rfl, rfl⟩, trivial⟩
  rcases hr.constraints with ⟨added, added', hfirst, hsecond, hadded⟩
  refine ⟨hr.issued, hr.kept, hr.ahead, ⟨added ++ [c], added' ++ [c'], ?_, ?_, ?_⟩,
    hr.placeholders⟩
  · simp [hfirst]
  · simp [hsecond]
  · exact List.rel_append hadded (.cons h .nil)

/-- Steps that touch nothing but the placeholders go side by side. -/
theorem of_placeholders {step : Analyze α} {step' : Analyze β} {a : Run → α} {b : Run → β}
    {ps ps' : Run → List Placeholder}
    (h : ∀ r, step.runFrom r = (.ok (a r), { r with placeholders := ps r }))
    (h' : ∀ r, step'.runFrom r = (.ok (b r), { r with placeholders := ps' r }))
    (hps : ∀ r, Placeholder.AllIssued made r.placeholders → Placeholder.AllIssued made (ps r))
    (hR : ∀ r r', Placeholder.AllIssued made r.placeholders → R made (a r) (b r')) :
    Parallel F T made R step step' := by
  intro r r' hr _
  rw [Analyze.outcome_of_runFrom (h r), Analyze.outcome_of_runFrom (h' r')]
  refine ⟨made, ⟨List.prefix_rfl, ?_, rfl, rfl⟩, hR r r' hr.placeholders⟩
  exact ⟨hr.issued, hr.kept, hr.ahead, hr.constraints, hps r hr.placeholders⟩

theorem setNotNull (index index' : Nat) (notNull notNull' : Bool) :
    Parallel F T made Done (QuerySignature.setNotNull index notNull)
      (QuerySignature.setNotNull index' notNull') :=
  of_placeholders (runFrom_setNotNull index notNull) (runFrom_setNotNull index' notNull')
    (fun _ hps => hps.setNotNull index notNull) fun _ _ _ => trivial

theorem forceNotNull {e e' : Inferred} (h : e'.placeholder.isSome = e.placeholder.isSome) :
    Parallel F T made Done (QuerySignature.forceNotNull e) (QuerySignature.forceNotNull e') := by
  unfold QuerySignature.forceNotNull
  cases he : e.placeholder with
  | none =>
    have he' : e'.placeholder = none := by simpa [he] using h
    rw [he']
    exact pure trivial
  | some index =>
    rcases Option.isSome_iff_exists.1 (by simpa [he] using h) with ⟨index', he'⟩
    rw [he']
    exact setNotNull index index' true true

theorem addPlaceholder (name : Option String) (list : Bool) :
    Parallel F T made (Inferred.Matches F.ρ) (QuerySignature.addPlaceholder name list)
      (QuerySignature.addPlaceholder name list) := by
  intro r r' hr _
  rw [Analyze.outcome_of_runFrom (runFrom_addPlaceholder name list r),
    Analyze.outcome_of_runFrom (runFrom_addPlaceholder name list r')]
  have hgrows : made <+: made ++ [.unknown] := List.prefix_append _ _
  have hvar := hr.issue_var (parameterText name) .unknown list
  have hps := (hr.placeholders.mono hgrows).append (.singleton name false hvar.issued)
  refine ⟨made ++ [.unknown], ⟨hgrows, hr.issue .unknown hps _, rfl, rfl⟩, ?_⟩
  exact ⟨hvar, rfl, rfl, fun c hc => absurd hc (Option.some_ne_none c).symm, rfl⟩

theorem cutPlaceholders (start start' : Nat) :
    Parallel F T made (fun made ps _ => Placeholder.AllIssued made ps)
      (QuerySignature.cutPlaceholders start) (QuerySignature.cutPlaceholders start') :=
  of_placeholders (runFrom_cutPlaceholders start) (runFrom_cutPlaceholders start')
    (fun _ hps => hps.subset (List.take_subset _ _)) fun _ _ hps => hps.subset (List.drop_subset _ _)

theorem appendPlaceholders {ps : List Placeholder} (hps : Placeholder.AllIssued made ps)
    (ps' : List Placeholder) :
    Parallel F T made Done (QuerySignature.appendPlaceholders ps)
      (QuerySignature.appendPlaceholders ps') :=
  of_placeholders (fun _ => rfl) (fun _ => rfl) (fun _ hthere => hthere.append hps)
    fun _ _ _ => trivial

/-- Looking at the run gives nothing to compare. -/
theorem get : Parallel F T made Done (MonadState.get : Analyze Run) MonadState.get := by
  intro r r' hr _
  exact ⟨made, ⟨List.prefix_rfl, hr, rfl, rfl⟩, trivial⟩

theorem lift {x : Except AnalysisError α} {y : Except AnalysisError β} (h : Alike (R made) x y) :
    Parallel F T made R (QuerySignature.lift x) (QuerySignature.lift y) := by
  cases x with
  | error e =>
    rw [h.of_error rfl]
    exact throw e
  | ok a =>
    rcases h.of_ok rfl with ⟨b, rfl, hab⟩
    exact pure hab

end Parallel

end QuerySignature
