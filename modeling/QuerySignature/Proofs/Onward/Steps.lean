import QuerySignature.Proofs.Comparison.Forms
import QuerySignature.Proofs.Onward.Columns
import QuerySignature.Proofs.Pinned.Local

namespace QuerySignature

/-! # Walks that go on alike

A walk sees nothing of what has been asked before it, and of the placeholders only how many there are.
From two runs that have made as many variables and know the same common tables it goes on alike,
whatever else is in the two runs: it makes the same variables, asks the same of them and collects the
same placeholders. It may speak of the variables that the outlook of the two walks allows, and of those
that are made from there on. The texts of the two may differ, and so may the labels.

- `Run.Alongside`: two runs from which walks go on alike.
- `Run.Onward`: what two walks add to such runs.
- `Onward.bind`: steps in a row.
- `Run.Onward.aside`: placeholders that are set aside while others are collected.
- `Outlook.comparison`: the steps of which the forms of expressions are made.
-/

/-- One constraint in two walks. -/
abbrev Constraint.Stands (O : Outlook) : Constraint → Constraint → Prop :=
  Constraint.Compared O.likeness

/-- One expression in two walks. -/
abbrev Inferred.Stands (O : Outlook) : Inferred → Inferred → Prop := Inferred.Compared O.likeness

/-- One output column in two walks. -/
abbrev OutputColumn.Stands (O : Outlook) : OutputColumn → OutputColumn → Prop :=
  OutputColumn.Compared O.likeness

/-! ## Runs -/

/-- Two runs from which walks go on alike. -/
structure Run.Alongside (O : Outlook) (r r' : Run) : Prop where
  issued : r'.issued = r.issued
  /-- The variables to come may be spoken of. -/
  seen : ∀ id, r.issued < id → O.Sees id
  places : r'.placeholders.length = r.placeholders.length
  ctes : List.Forall₂ (fun cte cte' => cte'.1 = cte.1 ∧ Level.Stands O cte.2 cte'.2) r.ctes r'.ctes

/-- What two walks add to the runs that they set out from. -/
structure Run.Onward (O : Outlook) (r r' s s' : Run) : Prop where
  runs : s.Alongside O s'
  constraints : ∃ added added', s.constraints = r.constraints ++ added ∧
    s'.constraints = r'.constraints ++ added' ∧ List.Forall₂ (Constraint.Stands O) added added'
  vars : ∃ added added', s.vars = r.vars ++ added ∧ s'.vars = r'.vars ++ added' ∧
    List.Forall₂ (TypeVar.Stands O) added added'

namespace Run.Alongside

variable {O : Outlook} {r r' : Run}

/-- A variable that is made now. -/
theorem made (h : r.Alongside O r') (label label' : String) (info : TypeInfo) (list : Bool) :
    TypeVar.Stands O ⟨r.issued + 1, label, info, list, false⟩
      ⟨r'.issued + 1, label', info, list, false⟩ :=
  ⟨h.seen _ (Nat.lt_succ_self _), ⟨congrArg (· + 1) h.issued, rfl, rfl, rfl⟩⟩

theorem issue (h : r.Alongside O r') {ps ps' : List Placeholder} (hps : ps'.length = ps.length) :
    Run.Alongside O { r with issued := r.issued + 1, placeholders := ps }
      { r' with issued := r'.issued + 1, placeholders := ps' } where
  issued := congrArg (· + 1) h.issued
  seen id hid := h.seen id (Nat.lt_of_succ_lt hid)
  places := hps
  ctes := h.ctes

/-- Runs with other constraints and as many placeholders. -/
theorem withOthers (h : r.Alongside O r') (cs cs' : List Constraint) {ps ps' : List Placeholder}
    (hps : ps'.length = ps.length) :
    Run.Alongside O { r with constraints := cs, placeholders := ps }
      { r' with constraints := cs', placeholders := ps' } :=
  { h with places := hps }

/-- Under a name both runs know the same common table, or neither knows one. -/
theorem cte? (h : r.Alongside O r') (name : String) :
    Option.Rel (Level.Stands O) (r.cte? name) (r'.cte? name) :=
  rel_option_map (fun _ _ hcte => hcte.2) (rel_find? (fun _ _ hcte => by rw [hcte.1]) h.ctes)

end Run.Alongside

namespace Run.Onward

variable {O : Outlook} {r r' s s' t t' : Run}

/-- Nothing but variables has been added, and other things than constraints and placeholders. -/
theorem of_same (h : s.Alongside O s') (hconstraints : s.constraints = r.constraints)
    (hconstraints' : s'.constraints = r'.constraints) (hvars : s.vars = r.vars)
    (hvars' : s'.vars = r'.vars) : Run.Onward O r r' s s' := by
  refine ⟨h, ⟨[], [], ?_, ?_, .nil⟩, ⟨[], [], ?_, ?_, .nil⟩⟩
  · rw [hconstraints, List.append_nil]
  · rw [hconstraints', List.append_nil]
  · rw [hvars, List.append_nil]
  · rw [hvars', List.append_nil]

theorem refl (h : r.Alongside O r') : Run.Onward O r r' r r' := of_same h rfl rfl rfl rfl

theorem trans (h : Run.Onward O r r' s s') (h' : Run.Onward O s s' t t') :
    Run.Onward O r r' t t' := by
  obtain ⟨cs, cs', hcs, hcs', hpairs⟩ := h.constraints
  obtain ⟨ds, ds', hds, hds', hpairs'⟩ := h'.constraints
  obtain ⟨vs, vs', hvs, hvs', hvars⟩ := h.vars
  obtain ⟨ws, ws', hws, hws', hvars'⟩ := h'.vars
  refine ⟨h'.runs, ⟨cs ++ ds, cs' ++ ds', ?_, ?_, List.rel_append hpairs hpairs'⟩,
    ⟨vs ++ ws, vs' ++ ws', ?_, ?_, List.rel_append hvars hvars'⟩⟩
  · rw [hds, hcs, List.append_assoc]
  · rw [hds', hcs', List.append_assoc]
  · rw [hws, hvs, List.append_assoc]
  · rw [hws', hvs', List.append_assoc]

/-- Placeholders that are added first may be set aside while others are added in front of them. -/
theorem aside (hplaces : r'.placeholders.length = r.placeholders.length)
    (h : Run.Onward O r r' s s')
    (h' : Run.Onward O { s with placeholders := s.placeholders.take r.placeholders.length }
      { s' with placeholders := s'.placeholders.take r'.placeholders.length } t t') :
    Run.Onward O r r'
      { t with placeholders := t.placeholders ++ s.placeholders.drop r.placeholders.length }
      { t' with placeholders := t'.placeholders ++ s'.placeholders.drop r'.placeholders.length } := by
  obtain ⟨cs, cs', hcs, hcs', hpairs⟩ := h.constraints
  obtain ⟨ds, ds', hds, hds', hpairs'⟩ := h'.constraints
  obtain ⟨vs, vs', hvs, hvs', hvars⟩ := h.vars
  obtain ⟨ws, ws', hws, hws', hvars'⟩ := h'.vars
  obtain ⟨hkept, hcut⟩ := map_cut hvs
  obtain ⟨hkept', hcut'⟩ := map_cut hvs'
  refine ⟨h'.runs.withOthers _ _ ?_, ⟨cs ++ ds, cs' ++ ds', ?_, ?_, List.rel_append hpairs hpairs'⟩,
    ⟨ws ++ vs, ws' ++ vs', ?_, ?_, List.rel_append hvars' hvars⟩⟩
  · rw [List.length_append, List.length_append, List.length_drop, List.length_drop, h'.runs.places,
      h.runs.places, hplaces]
  · exact hds.trans (by rw [hcs, List.append_assoc])
  · exact hds'.trans (by rw [hcs', List.append_assoc])
  · unfold Run.vars at hws ⊢
    rw [List.map_append, hcut, hws, hkept, List.append_assoc]
  · unfold Run.vars at hws' ⊢
    rw [List.map_append, hcut', hws', hkept', List.append_assoc]

end Run.Onward

/-! ## Steps -/

/-- A step and what follows it, with the placeholders of the step behind those of what follows. -/
def Analyze.aside {α β : Type} (step : Analyze α) (next : α → Analyze β) : Analyze β := do
  let start := (← get).placeholders.length
  let a ← step
  let later ← cutPlaceholders start
  let b ← next a
  appendPlaceholders later
  pure b

theorem Analyze.outcome_aside {α β : Type} (step : Analyze α) (next : α → Analyze β) (r : Run) :
    (Analyze.aside step next).outcome r =
      (step.outcome r).bind fun p =>
      ((next p.1).outcome { p.2 with
        placeholders := p.2.placeholders.take r.placeholders.length }).bind fun q =>
        .ok (q.1, { q.2 with
          placeholders := q.2.placeholders ++ p.2.placeholders.drop r.placeholders.length }) := by
  unfold Analyze.aside
  simp only [Analyze.outcome_bind]
  rfl

theorem Analyze.of_outcome_aside {α β : Type} {step : Analyze α} {next : α → Analyze β} {r t : Run}
    {b : β} (h : (Analyze.aside step next).outcome r = .ok (b, t)) :
    ∃ a s u, step.outcome r = .ok (a, s) ∧
      (next a).outcome { s with placeholders := s.placeholders.take r.placeholders.length } =
        .ok (b, u) ∧
      t = { u with placeholders := u.placeholders ++ s.placeholders.drop r.placeholders.length } := by
  rw [Analyze.outcome_aside] at h
  obtain ⟨⟨a, s⟩, hfirst, h⟩ := bind_eq_ok.1 h
  obtain ⟨⟨b', u⟩, hsecond, h⟩ := bind_eq_ok.1 h
  cases h
  exact ⟨a, s, u, hfirst, hsecond, rfl⟩

/-- Two steps go on alike: from all runs alongside, if the first step gives a value, the second gives a
related one, and both add the same. -/
def Onward {α β : Type} (O : Outlook) (R : α → β → Prop) (step : Analyze α) (step' : Analyze β) :
    Prop :=
  ∀ r r', r.Alongside O r' → ∀ a s, step.outcome r = .ok (a, s) →
    ∃ b s', step'.outcome r' = .ok (b, s') ∧ R a b ∧ Run.Onward O r r' s s'

namespace Onward

variable {α β γ δ : Type} {O : Outlook} {R : α → β → Prop} {Q : γ → δ → Prop}
  {step : Analyze α} {step' : Analyze β}

theorem pure {a : α} {b : β} (h : R a b) : Onward O R (Pure.pure a) (Pure.pure b) := by
  intro r r' hr _ _ hrun
  cases hrun
  exact ⟨b, r', rfl, h, .refl hr⟩

theorem throw (e : AnalysisError) (step' : Analyze β) :
    Onward O R (MonadExcept.throw e : Analyze α) step' := by
  intro r _ _ _ _ hrun
  cases hrun

theorem bind {next : α → Analyze γ} {next' : β → Analyze δ} (h : Onward O R step step')
    (hnext : ∀ a b, R a b → Onward O Q (next a) (next' b)) :
    Onward O Q (step >>= next) (step' >>= next') := by
  intro r r' hr c t hrun
  rw [Analyze.outcome_bind] at hrun
  rcases bind_eq_ok.1 hrun with ⟨⟨a, s⟩, hfirst, hsecond⟩
  obtain ⟨b, s', hfirst', hab, hadded⟩ := h r r' hr a s hfirst
  obtain ⟨d, t', hsecond', hcd, hadded'⟩ := hnext a b hab s s' hadded.runs c t hsecond
  refine ⟨d, t', ?_, hcd, hadded.trans hadded'⟩
  rw [Analyze.outcome_bind, hfirst']
  exact hsecond'

theorem mono {R' : α → β → Prop} (h : Onward O R step step') (hR : ∀ a b, R a b → R' a b) :
    Onward O R' step step' := by
  intro r r' hr a s hrun
  obtain ⟨b, s', hrun', hab, hadded⟩ := h r r' hr a s hrun
  exact ⟨b, s', hrun', hR a b hab, hadded⟩

/-- Steps that come to the same as two others. -/
theorem congr {first : Analyze α} {second : Analyze β} (h : Onward O R first second)
    (hfirst : ∀ r, step.outcome r = first.outcome r)
    (hsecond : ∀ r, step'.outcome r = second.outcome r) : Onward O R step step' := by
  intro r r' hr a s hrun
  rw [hfirst] at hrun
  rw [hsecond]
  exact h r r' hr a s hrun

/-- Steps that do not fail. -/
theorem of_runFrom {a : Run → α} {b : Run → β} {after after' : Run → Run}
    (h : ∀ r, step.runFrom r = (.ok (a r), after r))
    (h' : ∀ r, step'.runFrom r = (.ok (b r), after' r))
    (hafter : ∀ r r', r.Alongside O r' → R (a r) (b r') ∧ Run.Onward O r r' (after r) (after' r')) :
    Onward O R step step' := by
  intro r r' hr _ _ hrun
  rw [Analyze.outcome_of_runFrom (h r)] at hrun
  cases hrun
  exact ⟨b r', after' r', Analyze.outcome_of_runFrom (h' r'), hafter r r' hr⟩

theorem lift {x : Except AnalysisError α} {y : Except AnalysisError β} (h : AlikeInKind R x y) :
    Onward O R (QuerySignature.lift x) (QuerySignature.lift y) := by
  cases x with
  | error e => exact throw e _
  | ok a =>
    rcases h.of_ok rfl with ⟨b, rfl, hab⟩
    exact pure hab

theorem fresh (label label' : String) (info : TypeInfo) :
    Onward O (TypeVar.Stands O) (QuerySignature.fresh label info)
      (QuerySignature.fresh label' info) :=
  of_runFrom (runFrom_fresh label info) (runFrom_fresh label' info)
    fun _ _ hr => ⟨hr.made label label' info false, .of_same (hr.issue hr.places) rfl rfl rfl rfl⟩

theorem demand {c c' : Constraint} (h : c.Stands O c') :
    Onward O Done (QuerySignature.demand c) (QuerySignature.demand c') := by
  refine of_runFrom (runFrom_demand c) (runFrom_demand c') fun r r' hr => ⟨trivial, ?_⟩
  refine ⟨hr.withOthers _ _ hr.places, ⟨[c], [c'], rfl, rfl, .cons h .nil⟩, ⟨[], [], ?_, ?_, .nil⟩⟩
  · exact (List.append_nil _).symm
  · exact (List.append_nil _).symm

/-- Whether placeholders may be null is not compared. -/
theorem setNotNull (i i' : Nat) (notNull : Bool) :
    Onward O Done (QuerySignature.setNotNull i notNull) (QuerySignature.setNotNull i' notNull) := by
  refine of_runFrom (runFrom_setNotNull i notNull) (runFrom_setNotNull i' notNull)
    fun r r' hr => ⟨trivial, ?_⟩
  refine .of_same (hr.withOthers _ _ ?_) rfl rfl ?_ ?_
  · rw [List.length_modify, List.length_modify, hr.places]
  · exact map_modify_notNull r.placeholders i notNull fun _ => rfl
  · exact map_modify_notNull r'.placeholders i' notNull fun _ => rfl

theorem addPlaceholder (name : Option String) (list : Bool) :
    Onward O (Inferred.Stands O) (QuerySignature.addPlaceholder name list)
      (QuerySignature.addPlaceholder name list) := by
  refine of_runFrom (runFrom_addPlaceholder name list) (runFrom_addPlaceholder name list)
    fun r r' hr => ?_
  have hvar := hr.made (parameterText name) (parameterText name) .unknown list
  refine ⟨⟨hvar, rfl, .some hr.places, .none, rfl⟩, hr.issue ?_, ⟨[], [], ?_, ?_, .nil⟩, ?_⟩
  · rw [List.length_append, List.length_append, hr.places]
    rfl
  · exact (List.append_nil _).symm
  · exact (List.append_nil _).symm
  · refine ⟨[_], [_], ?_, ?_, .cons hvar .nil⟩
    · exact List.map_append
    · exact List.map_append

theorem resolve {scope scope' : Scope} (h : scope.Stands O scope') {c : ColumnRef}
    (hc : O.naming.name c.name) : Onward O (SourceColumn.Stands O) (QuerySignature.resolve scope c)
      (QuerySignature.resolve scope' c) := by
  rw [resolve_eq_lift, resolve_eq_lift]
  exact lift ((h.resolve hc).mono fun _ _ hmeans => hmeans.2)

/-! ## Placeholders aside -/

/-- The placeholders of the first step come behind those of the second. -/
theorem aside {next : α → Analyze γ} {next' : β → Analyze δ} (h : Onward O R step step')
    (hnext : ∀ a b, R a b → Onward O Q (next a) (next' b)) :
    Onward O Q (Analyze.aside step next) (Analyze.aside step' next') := by
  intro r r' hr c t hrun
  obtain ⟨a, s, u, hfirst, hsecond, rfl⟩ := Analyze.of_outcome_aside hrun
  obtain ⟨b, s', hfirst', hab, hadded⟩ := h r r' hr a s hfirst
  have hfront : (s'.placeholders.take r'.placeholders.length).length =
      (s.placeholders.take r.placeholders.length).length := by
    rw [List.length_take, List.length_take, hadded.runs.places, hr.places]
  have hcut := hadded.runs.withOthers s.constraints s'.constraints hfront
  obtain ⟨d', u', hsecond', hdd, hadded'⟩ := hnext a b hab _ _ hcut _ _ hsecond
  refine ⟨d', _, ?_, hdd, .aside hr.places hadded hadded'⟩
  rw [Analyze.outcome_aside, hfirst', ok_bind, hsecond']
  rfl

/-! ## Common tables -/

theorem declareCte (name : String) {columns columns' : Level} (h : Level.Stands O columns columns') :
    Onward O Done (QuerySignature.declareCte name columns)
      (QuerySignature.declareCte name columns') :=
  of_runFrom (fun _ => rfl) (fun _ => rfl) fun _ _ hr =>
    ⟨trivial, .of_same { hr with ctes := .cons ⟨rfl, h⟩ hr.ctes } rfl rfl rfl rfl⟩

theorem keepingCtes (h : Onward O R step step') :
    Onward O R (QuerySignature.keepingCtes step) (QuerySignature.keepingCtes step') := by
  intro r r' hr a s hrun
  rw [Parallel.outcome_keepingCtes] at hrun ⊢
  cases hstep : step.outcome r with
  | error e =>
    rw [hstep] at hrun
    cases hrun
  | ok p =>
    rw [hstep] at hrun
    cases hrun
    obtain ⟨b, t, hstep', hvalues, hadded⟩ := h r r' hr p.1 p.2 hstep
    rw [hstep']
    refine ⟨b, _, rfl, hvalues, ?_⟩
    exact hadded.trans (.of_same { hadded.runs with ctes := hr.ctes } rfl rfl rfl rfl)

theorem freshColumns (aliasName : String) (records : List ColumnRecord) :
    Onward O (Level.Stands O) (QuerySignature.freshColumns aliasName records)
      (QuerySignature.freshColumns aliasName records) := by
  induction records with
  | nil => exact pure .nil
  | cons record rest ih =>
    refine bind (fresh record.column record.column (.exact record.type)) fun v v' hv => ?_
    exact bind ih fun columns columns' hcolumns => pure (.cons ⟨hv, .refl O.naming _, rfl⟩ hcolumns)

theorem tableColumns (schema : Schema) (name : String) (aliasName : Option String) :
    Onward O (Level.Stands O) (QuerySignature.tableColumns schema name aliasName)
      (QuerySignature.tableColumns schema name aliasName) := by
  intro r r' hr
  unfold QuerySignature.tableColumns
  rw [Analyze.outcome_bind, Analyze.outcome_bind, Analyze.outcome_get, Analyze.outcome_get, ok_bind,
    ok_bind]
  have hcte := hr.cte? (lastSegment name)
  generalize r.cte? (lastSegment name) = found, r'.cte? (lastSegment name) = found' at hcte
  cases hcte with
  | some hcolumns =>
    have hlevel := List.rel_map (fun _ _ hc => hc.withAlias (aliasName.getD "")) hcolumns
    exact pure hlevel r r' hr
  | none =>
    dsimp only
    cases schema.columnsOf? (lastSegment name) with
    | some records => exact freshColumns _ records r r' hr
    | none => exact throw _ _ r r' hr

end Onward

/-- Walks that go on alike, as a way to compare the forms of expressions. -/
def Outlook.comparison (O : Outlook) : Comparison where
  toLikeness := O.likeness
  Refusal _ _ := True
  Step := Onward O
  sameRefusal _ := trivial
  unsupported _ := trivial
  pure := Onward.pure
  throw _ := Onward.throw _ _
  bind := Onward.bind
  fresh info _ := Onward.fresh _ _ info
  demand := Onward.demand
  setNotNull notNull _ := Onward.setNotNull _ _ notNull

end QuerySignature
