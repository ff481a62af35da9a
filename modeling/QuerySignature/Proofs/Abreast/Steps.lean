import QuerySignature.Proofs.Abreast.Pairing
import QuerySignature.Proofs.Comparison.Steps
import QuerySignature.Proofs.Walk.Parallel
import QuerySignature.Proofs.Walk.Sound

namespace QuerySignature

/-! # Steps abreast

A walk does not see what has happened before it, except for the common tables that it reads and the
columns that it is given. From two runs with different pasts it adds the same variables, constraints and
placeholders to both, under other numbers, and fails for the same reasons.

- `Pasts`: two runs from which walks go abreast.
- `Run.Abreast.onward`: walks may go abreast from wherever walks abreast have come to.
- `Abreast.bind`: steps in a row.
- `Abreast.demand`, `Abreast.addPlaceholder`, ...: the steps of a walk.
- `Abreast.comparison`: the steps of which the forms of expressions are made.
- `Pasts.parted`: two walks that have gone one way, from where one of them makes some more variables.
- `Pasts.parted_seesAlike`: both know the common tables that were known there.
-/

/-! ## Runs -/

/-- A constraint, and the same one between variables under other numbers. -/
structure Constraint.Paired (number : Nat → Nat) (c c' : Constraint) : Prop where
  label : c'.label = c.label
  strength : c'.strength = c.strength
  coercion : c'.coercion = c.coercion
  equations : List.Forall₂ (fun p p' => p.1.Paired number p'.1 ∧ p.2.Paired number p'.2) c.equations
    c'.equations

/-- A placeholder among the first `n` variables, and the same one under another number. -/
structure Placeholder.Paired (number : Nat → Nat) (n : Nat) (p p' : Placeholder) : Prop where
  var : p.var.Paired number p'.var
  le : p.var.id ≤ n
  name : p'.name = p.name
  notNull : p'.notNull = p.notNull

theorem Placeholder.Paired.mono {number : Nat → Nat} {m n : Nat} {p p' : Placeholder}
    (h : p.Paired number m p') (hmn : m ≤ n) : p.Paired number n p' :=
  { h with le := Nat.le_trans h.le hmn }

/-- Two runs from which two walks set out. Variables that the walks make stand for one another. -/
structure Pasts extends Pairing where
  first : Run
  second : Run
  later : ∀ k, number (first.issued + k + 1) = second.issued + k + 1

/-- A place among the placeholders of one walk, and the same place in the other. -/
def Pasts.Place (P : Pasts) (i i' : Nat) : Prop :=
  ∃ k, i = P.first.placeholders.length + k ∧ i' = P.second.placeholders.length + k

/-- Runs that two walks have come to by the same steps. -/
structure Run.Abreast (P : Pasts) (r r' : Run) : Prop where
  issued : ∃ k, r.issued = P.first.issued + k ∧ r'.issued = P.second.issued + k
  constraints : ∃ added added', r.constraints = P.first.constraints ++ added ∧
    r'.constraints = P.second.constraints ++ added' ∧
    List.Forall₂ (Constraint.Paired P.number) added added'
  placeholders : ∃ added added', r.placeholders = P.first.placeholders ++ added ∧
    r'.placeholders = P.second.placeholders ++ added' ∧
    List.Forall₂ (Placeholder.Paired P.number r.issued) added added'

/-- An output column, and the same one in the other walk. -/
structure OutputColumn.Abreast (P : Pasts) (c c' : OutputColumn) : Prop where
  name : c'.name = c.name
  var : c.var.Paired P.number c'.var
  unionVars : List.Forall₂ (TypeVar.Paired P.number) c.unionVars c'.unionVars
  notNull : c'.notNull = c.notNull
  table : c'.table = c.table
  source : Option.Rel P.Columns c.source c'.source
  placeholder : Option.Rel P.Place c.placeholder c'.placeholder
  aggregate : c'.aggregate = c.aggregate

/-- What two walks abreast have in common. -/
def Pasts.likeness (P : Pasts) : Likeness where
  Label label label' := label' = label
  Name name name' := name' = name
  Var := TypeVar.Paired P.number
  Place := P.Place
  Column := P.Columns
  sameLabel _ := rfl
  label h := h.label
  noName := rfl
  name := P.named.name
  visibleTable := P.named.visibleTable
  qualifiedName := P.named.qualifiedName
  notNull := P.notNull
  projected := P.projected
  info := P.info
  tied := P.tied

theorem OutputColumn.abreast_iff {P : Pasts} {c c' : OutputColumn} :
    c.Abreast P c' ↔ c.Compared P.likeness c' :=
  ⟨fun h => ⟨h.name, h.var, h.unionVars, h.notNull, h.table, h.source, h.placeholder, h.aggregate⟩,
    fun h => ⟨h.name, h.var, h.unionVars, h.notNull, h.table, h.source, h.placeholder, h.aggregate⟩⟩

theorem OutputColumn.abreast_eq (P : Pasts) :
    OutputColumn.Abreast P = OutputColumn.Compared P.likeness :=
  funext fun _ => funext fun _ => propext abreast_iff

/-- Under a name both runs know common tables that stand for one another, or neither knows one. -/
def Pasts.SeesAlike (P : Pasts) (r r' : Run) (name : String) : Prop :=
  Option.Rel P.Tables (r.cte? name) (r'.cte? name)

namespace Run.Abreast

variable {P : Pasts} {r r' : Run}

/-- The walks set out abreast. -/
theorem start (P : Pasts) : P.first.Abreast P P.second := by
  refine ⟨⟨0, rfl, rfl⟩, ⟨[], [], ?_, ?_, .nil⟩, ⟨[], [], ?_, ?_, .nil⟩⟩
  · rw [List.append_nil]
  · rw [List.append_nil]
  · rw [List.append_nil]
  · rw [List.append_nil]

theorem placeholders_length (h : r.Abreast P r') :
    P.Place r.placeholders.length r'.placeholders.length := by
  obtain ⟨added, added', hadded, hadded', hpairs⟩ := h.placeholders
  refine ⟨added.length, ?_, ?_⟩
  · rw [hadded, List.length_append]
  · rw [hadded', List.length_append, hpairs.length_eq]

/-- One more variable each. -/
theorem issue (h : r.Abreast P r') :
    Run.Abreast P { r with issued := r.issued + 1 } { r' with issued := r'.issued + 1 } := by
  obtain ⟨k, hk, hk'⟩ := h.issued
  obtain ⟨added, added', hadded, hadded', hpairs⟩ := h.placeholders
  refine ⟨⟨k + 1, ?_, ?_⟩, h.constraints, added, added', hadded, hadded', ?_⟩
  · show r.issued + 1 = _
    omega
  · show r'.issued + 1 = _
    omega
  · exact hpairs.imp fun _ _ hp => hp.mono (Nat.le_succ _)

theorem issue_var (h : r.Abreast P r') (label : String) (info : TypeInfo) (list : Bool) :
    TypeVar.Paired P.number ⟨r.issued + 1, label, info, list, false⟩
      ⟨r'.issued + 1, label, info, list, false⟩ := by
  obtain ⟨k, hk, hk'⟩ := h.issued
  refine ⟨Nat.succ_pos _, ?_⟩
  dsimp only
  rw [hk, hk', P.later]

/-- Other placeholders that stand for one another. -/
theorem withPlaceholders (h : r.Abreast P r') {ps ps' : List Placeholder}
    (hps : ∃ added added', ps = P.first.placeholders ++ added ∧
      ps' = P.second.placeholders ++ added' ∧
      List.Forall₂ (Placeholder.Paired P.number r.issued) added added') :
    Run.Abreast P { r with placeholders := ps } { r' with placeholders := ps' } :=
  ⟨h.issued, h.constraints, hps⟩

theorem withCtes (h : r.Abreast P r') (ctes ctes' : List (String × Level)) :
    Run.Abreast P { r with ctes } { r' with ctes := ctes' } :=
  ⟨h.issued, h.constraints, h.placeholders⟩

/-- Up to a place of both walks, and from there on, placeholders stand for one another. -/
theorem split (h : r.Abreast P r') {i i' : Nat} (hi : P.Place i i') :
    (∃ added added', r.placeholders.take i = P.first.placeholders ++ added ∧
      r'.placeholders.take i' = P.second.placeholders ++ added' ∧
      List.Forall₂ (Placeholder.Paired P.number r.issued) added added') ∧
    List.Forall₂ (Placeholder.Paired P.number r.issued) (r.placeholders.drop i)
      (r'.placeholders.drop i') := by
  obtain ⟨added, added', hadded, hadded', hpairs⟩ := h.placeholders
  obtain ⟨k, rfl, rfl⟩ := hi
  rw [hadded, hadded']
  constructor
  · refine ⟨added.take k, added'.take k, ?_, ?_, List.forall₂_take k hpairs⟩
    · rw [List.take_length_add_append]
    · rw [List.take_length_add_append]
  · rw [List.drop_length_add_append, List.drop_length_add_append]
    exact List.forall₂_drop k hpairs

/-- Runs that the walks have come to, as runs from which walks set out, with other placeholders. -/
def onward (h : r.Abreast P r') (ps ps' : List Placeholder) : Pasts where
  toPairing := P.toPairing
  first := { r with placeholders := ps }
  second := { r' with placeholders := ps' }
  later k := by
    obtain ⟨j, hj, hj'⟩ := h.issued
    have hnumber := P.later (j + k)
    rw [← Nat.add_assoc, ← Nat.add_assoc] at hnumber
    rw [hj, hj', hnumber]

/-- What has been demanded since the first of two walks in a row. -/
theorem constraints_onward (h : r.Abreast P r') {ps ps' : List Placeholder} {s s' : Run}
    (hs : s.Abreast (h.onward ps ps') s') :
    ∃ added added', s.constraints = P.first.constraints ++ added ∧
      s'.constraints = P.second.constraints ++ added' ∧
      List.Forall₂ (Constraint.Paired P.number) added added' := by
  obtain ⟨first, first', hfirst, hfirst', hpairs⟩ := h.constraints
  obtain ⟨second, second', hsecond, hsecond', hpairsSecond⟩ := hs.constraints
  refine ⟨first ++ second, first' ++ second', ?_, ?_, List.rel_append hpairs hpairsSecond⟩
  · have hthere : (h.onward ps ps').first.constraints = r.constraints := rfl
    rw [hsecond, hthere, hfirst, List.append_assoc]
  · have hthere : (h.onward ps ps').second.constraints = r'.constraints := rfl
    rw [hsecond', hthere, hfirst', List.append_assoc]

end Run.Abreast

/-! ## Steps -/

/-- What two steps from two runs give: values in a relation, and runs abreast, with no fewer variables
and the common tables that there were. -/
structure Arrived {α β : Type} (P : Pasts) (R : α → β → Prop) (r r' : Run) (p : α × Run)
    (p' : β × Run) : Prop where
  values : R p.1 p'.1
  runs : p.2.Abreast P p'.2
  grows : r.issued ≤ p.2.issued
  ctes : p.2.ctes = r.ctes
  ctes' : p'.2.ctes = r'.ctes

/-- Two steps go abreast, from all runs abreast that see alike the common tables of certain names: they
fail alike, or both give values in a relation. -/
def Abreast {α β : Type} (P : Pasts) (T : String → Prop) (R : α → β → Prop) (step : Analyze α)
    (step' : Analyze β) : Prop :=
  ∀ r r', r.Abreast P r' → (∀ name, T name → P.SeesAlike r r' name) →
    Alike (Arrived P R r r') (step.outcome r) (step'.outcome r')

namespace Abreast

variable {α β γ δ : Type} {P : Pasts} {T : String → Prop} {R : α → β → Prop} {Q : γ → δ → Prop}

theorem pure {a : α} {b : β} (h : R a b) : Abreast P T R (Pure.pure a) (Pure.pure b) :=
  fun _ _ hr _ => ⟨h, hr, Nat.le_refl _, rfl, rfl⟩

theorem throw (e : AnalysisError) :
    Abreast P T R (MonadExcept.throw e) (MonadExcept.throw e) :=
  fun _ _ _ _ => rfl

theorem seesAlike_of_ctes {r r' s s' : Run} {name : String} (h : P.SeesAlike r r' name)
    (hctes : s.ctes = r.ctes) (hctes' : s'.ctes = r'.ctes) : P.SeesAlike s s' name := by
  unfold Pasts.SeesAlike Run.cte? at h ⊢
  rw [hctes, hctes']
  exact h

/-- Steps after steps. -/
theorem bind {step : Analyze α} {step' : Analyze β} {next : α → Analyze γ} {next' : β → Analyze δ}
    (h : Abreast P T R step step') (hnext : ∀ a b, R a b → Abreast P T Q (next a) (next' b)) :
    Abreast P T Q (step >>= next) (step' >>= next') := by
  intro r r' hr hsees
  rw [Analyze.outcome_bind, Analyze.outcome_bind]
  refine (h r r' hr hsees).bind fun p p' hp => ?_
  -- the first steps have changed no common table
  have hseesAfter : ∀ name, T name → P.SeesAlike p.2 p'.2 name :=
    fun name hname => seesAlike_of_ctes (hsees name hname) hp.ctes hp.ctes'
  refine (hnext p.1 p'.1 hp.values p.2 p'.2 hp.runs hseesAfter).mono fun q q' hq => ?_
  exact ⟨hq.values, hq.runs, Nat.le_trans hp.grows hq.grows, hq.ctes.trans hp.ctes,
    hq.ctes'.trans hp.ctes'⟩

theorem get : Abreast P T (Run.Abreast P) (MonadState.get : Analyze Run) MonadState.get :=
  fun _ _ hr _ => ⟨hr, hr, Nat.le_refl _, rfl, rfl⟩

theorem lift {x : Except AnalysisError α} {y : Except AnalysisError β} (h : Alike R x y) :
    Abreast P T R (QuerySignature.lift x) (QuerySignature.lift y) := by
  cases x with
  | error e =>
    rw [h.of_error rfl]
    exact throw e
  | ok a =>
    rcases h.of_ok rfl with ⟨b, rfl, hab⟩
    exact pure hab

theorem resolve {s s' : Scope} (hs : s.Related P.Columns s') (c : ColumnRef) :
    Abreast P T P.Columns (QuerySignature.resolve s c) (QuerySignature.resolve s' c) := by
  rw [resolve_eq_lift, resolve_eq_lift]
  exact lift (hs.resolve P.named c)

theorem fresh (label : String) (info : TypeInfo) :
    Abreast P T (TypeVar.Paired P.number) (QuerySignature.fresh label info)
      (QuerySignature.fresh label info) := by
  intro r r' hr _
  rw [Analyze.outcome_of_runFrom (runFrom_fresh label info r),
    Analyze.outcome_of_runFrom (runFrom_fresh label info r')]
  exact ⟨hr.issue_var label info false, hr.issue, Nat.le_succ _, rfl, rfl⟩

theorem demand {c c' : Constraint} (h : c.Paired P.number c') :
    Abreast P T Done (QuerySignature.demand c) (QuerySignature.demand c') := by
  intro r r' hr _
  rw [Analyze.outcome_of_runFrom (runFrom_demand c r),
    Analyze.outcome_of_runFrom (runFrom_demand c' r')]
  obtain ⟨added, added', hadded, hadded', hpairs⟩ := hr.constraints
  refine ⟨trivial, ⟨hr.issued, ⟨added ++ [c], added' ++ [c'], ?_, ?_, ?_⟩, hr.placeholders⟩,
    Nat.le_refl _, rfl, rfl⟩
  · rw [hadded, List.append_assoc]
  · rw [hadded', List.append_assoc]
  · exact List.rel_append hpairs (.cons h .nil)

/-! ## Placeholders -/

theorem setNotNull {i i' : Nat} (hi : P.Place i i') (notNull : Bool) :
    Abreast P T Done (QuerySignature.setNotNull i notNull)
      (QuerySignature.setNotNull i' notNull) := by
  intro r r' hr _
  rw [Analyze.outcome_of_runFrom (runFrom_setNotNull i notNull r),
    Analyze.outcome_of_runFrom (runFrom_setNotNull i' notNull r')]
  obtain ⟨added, added', hadded, hadded', hpairs⟩ := hr.placeholders
  obtain ⟨k, rfl, rfl⟩ := hi
  -- the place is one of a placeholder that the walks have added, as far behind in both runs
  let change : Placeholder → Placeholder := fun p => { p with notNull }
  refine ⟨trivial, hr.withPlaceholders ⟨added.modify k change, added'.modify k change, ?_, ?_, ?_⟩,
    Nat.le_refl _, rfl, rfl⟩
  · rw [hadded]
    exact List.modifyTailIdx_add _ _ _ _
  · rw [hadded']
    exact List.modifyTailIdx_add _ _ _ _
  · clear hadded hadded'
    induction hpairs generalizing k with
    | nil => cases k <;> exact .nil
    | cons hp hrest ih =>
      cases k with
      | zero => exact .cons ⟨hp.var, hp.le, hp.name, rfl⟩ hrest
      | succ k => exact .cons hp (ih k)

theorem addPlaceholder (name : Option String) (list : Bool) :
    Abreast P T (Inferred.Compared P.likeness) (QuerySignature.addPlaceholder name list)
      (QuerySignature.addPlaceholder name list) := by
  intro r r' hr _
  rw [Analyze.outcome_of_runFrom (runFrom_addPlaceholder name list r),
    Analyze.outcome_of_runFrom (runFrom_addPlaceholder name list r')]
  have hvar := hr.issue_var (parameterText name) .unknown list
  obtain ⟨added, added', hadded, hadded', hpairs⟩ := hr.issue.placeholders
  have hmade : Placeholder.Paired P.number (r.issued + 1)
      ⟨⟨r.issued + 1, parameterText name, .unknown, list, false⟩, name, false⟩
      ⟨⟨r'.issued + 1, parameterText name, .unknown, list, false⟩, name, false⟩ :=
    ⟨hvar, Nat.le_refl _, rfl, rfl⟩
  refine ⟨⟨hvar, rfl, .some hr.placeholders_length, .none, rfl⟩,
    hr.issue.withPlaceholders ⟨_, _, ?_, ?_, List.rel_append hpairs (.cons hmade .nil)⟩,
    Nat.le_succ _, rfl, rfl⟩
  · rw [← List.append_assoc, ← hadded]
  · rw [← List.append_assoc, ← hadded']

/-- Placeholders that are taken out of the runs while steps are taken, and put back behind those that
the steps add. -/
theorem aside {start start' : Nat} (hstart : P.Place start start') {step : Analyze α}
    {step' : Analyze β} {next : α → Analyze γ} {next' : β → Analyze δ}
    (h : Abreast P T R step step') (hnext : ∀ a b, R a b → Abreast P T Q (next a) (next' b)) :
    Abreast P T Q
      (cutPlaceholders start >>= fun later => step >>= fun a =>
        appendPlaceholders later >>= fun _ => next a)
      (cutPlaceholders start' >>= fun later => step' >>= fun b =>
        appendPlaceholders later >>= fun _ => next' b) := by
  intro r r' hr hsees
  rw [Analyze.outcome_bind, Analyze.outcome_bind,
    Analyze.outcome_of_runFrom (runFrom_cutPlaceholders start r),
    Analyze.outcome_of_runFrom (runFrom_cutPlaceholders start' r'), ok_bind, ok_bind,
    Analyze.outcome_bind, Analyze.outcome_bind]
  obtain ⟨hkept, hcut⟩ := hr.split hstart
  refine (h _ _ (hr.withPlaceholders hkept) hsees).bind ?_
  rintro ⟨a, s⟩ ⟨b, s'⟩ hstep
  have hgrows : r.issued ≤ s.issued := hstep.grows
  obtain ⟨added, added', hadded, hadded', hpairs⟩ := hstep.runs.placeholders
  -- what is put back has been made earlier than what the steps have added
  have hback : Run.Abreast P
      { s with placeholders := s.placeholders ++ r.placeholders.drop start }
      { s' with placeholders := s'.placeholders ++ r'.placeholders.drop start' } := by
    refine hstep.runs.withPlaceholders ⟨_, _, ?_, ?_,
      List.rel_append hpairs (hcut.imp fun _ _ hp => hp.mono hgrows)⟩
    · rw [← List.append_assoc, ← hadded]
    · rw [← List.append_assoc, ← hadded']
  have hseesAfter : ∀ name, T name → P.SeesAlike s s' name :=
    fun name hname => seesAlike_of_ctes (hsees name hname) hstep.ctes hstep.ctes'
  refine (hnext a b hstep.values _ _ hback hseesAfter).mono fun q q' hq => ?_
  exact ⟨hq.values, hq.runs, Nat.le_trans hgrows hq.grows, hq.ctes.trans hstep.ctes,
    hq.ctes'.trans hstep.ctes'⟩

/-! ## Forms -/

/-- Walks abreast, as a way to compare the forms of expressions. -/
def comparison (P : Pasts) (T : String → Prop) : Comparison where
  toLikeness := P.likeness
  Refusal e e' := e' = e
  Step := Abreast P T
  sameRefusal _ := rfl
  unsupported h := congrArg AnalysisError.unsupported h
  pure := Abreast.pure
  throw h := h ▸ Abreast.throw _
  bind := Abreast.bind
  fresh info h := h ▸ Abreast.fresh _ info
  demand h := Abreast.demand ⟨h.label, h.strength, h.coercion, h.equations⟩
  setNotNull notNull h := Abreast.setNotNull h notNull

end Abreast

/-! ## Walks that part -/

section Numbers

variable {made : List TypeInfo} {n k : Nat}

theorem TypeVar.Issued.paired {v : TypeVar} (h : v.Issued made) (hn : made.length ≤ n) :
    v.Paired (Renaming.mk n k).apply v := by
  refine ⟨h.1, ?_⟩
  have hsame : (Renaming.mk n k).apply v.id = v.id := if_pos (Nat.le_trans h.le hn)
  rw [hsame]

theorem SourceColumn.looksLike_self {c : SourceColumn} (h : c.var.Issued made)
    (hn : made.length ≤ n) : c.LooksLike (Renaming.mk n k).apply c :=
  ⟨rfl, rfl, rfl, rfl, rfl, fun _ => h.paired hn⟩

theorem Level.Issued.paired {l : Level} (h : l.Issued made) (hn : made.length ≤ n) :
    List.Forall₂ (SourceColumn.LooksLike (Renaming.mk n k).apply) l l :=
  List.forall₂_same.2 fun c hc => c.looksLike_self (h c hc) hn

end Numbers

/-- Two walks from where they part. The second one has made some more variables first. -/
def Pasts.parted (before behind : Run) (more : Nat) (h : behind.issued = before.issued + more) :
    Pasts where
  toPairing := .byLooks (Renaming.mk before.issued more).apply
  first := before
  second := behind
  later k := by
    have hlater : ¬ before.issued + k + 1 ≤ before.issued := by omega
    show (if before.issued + k + 1 ≤ before.issued then _ else before.issued + k + 1 + more) = _
    rw [if_neg hlater, h]
    omega

/-- Where two walks part, both know the same common tables. -/
theorem Pasts.parted_seesAlike {made : List TypeInfo} {before : Run} (h : before.Sound made)
    (behind : Run) {more : Nat} (hissued : behind.issued = before.issued + more)
    (hctes : behind.ctes = before.ctes) (name : String) :
    (Pasts.parted before behind more hissued).SeesAlike before behind name := by
  unfold Pasts.SeesAlike
  rw [Run.cte?_congr hctes name]
  have hsees := h.seesAlike name
  unfold Run.SeesAlike at hsees
  cases hfound : before.cte? name with
  | none => exact .none
  | some level =>
    rw [hfound] at hsees
    have hlevel : Level.Issued made level := by
      cases hsees with
      | some hl => exact hl.1
    refine .some fun aliasName => List.forall₂_same.2 fun c hc => ?_
    obtain ⟨d, hd, rfl⟩ := List.mem_map.1 hc
    exact SourceColumn.looksLike_self (hlevel d hd) (Nat.le_of_eq h.issued.symm)

end QuerySignature
