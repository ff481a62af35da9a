import QuerySignature.Proofs.Placeholders.Pieces
import QuerySignature.Proofs.Walk.Kept
import QuerySignature.Proofs.Walk.Parts

namespace QuerySignature

/-! # What a walk adds to the placeholders

A step adds some entries when every run that it ends in has the entries it had before, and these
behind them. What one step adds does not depend on the run, so steps in a row add what each of them
adds, in a row.

- `Adds.bind`: a step after another adds its entries behind the first one's.
- `Adds.expr`, `Adds.query`, ...: an expression, or a query, adds the entries of its pieces.
-/

/-- What a caller passes for a placeholder of a run. -/
def Placeholder.entry (p : Placeholder) : Entry := ⟨p.name, p.var.list⟩

/-- What a caller passes for the placeholders of a run so far. -/
def Run.entries (r : Run) : List Entry := r.placeholders.map Placeholder.entry

/-- A step adds entries, from whatever run it starts. -/
def Adds {α : Type} (added : List Entry) (step : Analyze α) : Prop :=
  ∀ r a s, step.outcome r = .ok (a, s) → s.entries = r.entries ++ added

/-- No placeholder of a run is another one for its nullability. -/
theorem map_modify_notNull {β : Type} {f : Placeholder → β} (ps : List Placeholder) (index : Nat)
    (notNull : Bool) (hf : ∀ p, f { p with notNull } = f p) :
    (ps.modify index fun p => { p with notNull }).map f = ps.map f := by
  induction ps generalizing index with
  | nil => simp
  | cons p rest ih =>
    cases index with
    | zero => simp [hf]
    | succ index => simp [ih]

/-- Placeholders that have been added are cut off where those from before end. -/
theorem map_cut {β : Type} {f : Placeholder → β} {ps qs : List Placeholder} {added : List β}
    (h : qs.map f = ps.map f ++ added) :
    (qs.take ps.length).map f = ps.map f ∧ (qs.drop ps.length).map f = added := by
  have hlength : ps.length = (ps.map f).length := (List.length_map _).symm
  rw [List.map_take, List.map_drop, h, hlength]
  exact ⟨List.take_left, List.drop_left⟩

namespace Adds

variable {α β : Type} {first second : List Entry} {step : Analyze α} {next : α → Analyze β}

theorem pure (a : α) : Adds [] (Pure.pure a : Analyze α) := by
  intro r _ _ h
  cases h
  simp

theorem throw (e : AnalysisError) : Adds first (MonadExcept.throw e : Analyze α) := by
  intro r _ _ h
  cases h

/-- The second of two steps adds behind the first. -/
theorem bind (h : Adds first step) (hnext : ∀ a, Adds second (next a)) :
    Adds (first ++ second) (step >>= next) := by
  intro r b t hrun
  rw [Analyze.outcome_bind] at hrun
  rcases bind_eq_ok.1 hrun with ⟨⟨a, s⟩, hfirst, hsecond⟩
  rw [hnext a s b t hsecond, h r a s hfirst, List.append_assoc]

/-- Before a step that adds nothing. -/
theorem before (h : Adds first step) (hnext : ∀ a, Adds [] (next a)) :
    Adds first (step >>= next) := by
  simpa using h.bind hnext

/-- Behind a step that adds nothing. -/
theorem behind (h : Adds [] step) (hnext : ∀ a, Adds second (next a)) :
    Adds second (step >>= next) :=
  h.bind hnext

/-! ## Steps -/

/-- A step that leaves the placeholders alone adds nothing. -/
theorem of_placeholders {value : Run → α} {after : Run → Run}
    (h : ∀ r, step.runFrom r = (.ok (value r), after r))
    (hafter : ∀ r, (after r).entries = r.entries) : Adds [] step := by
  intro r a s hrun
  rw [Analyze.outcome_of_runFrom (h r)] at hrun
  cases hrun
  simpa using hafter r

theorem fresh (label : String) (info : TypeInfo) : Adds [] (QuerySignature.fresh label info) :=
  of_placeholders (runFrom_fresh label info) fun _ => rfl

theorem demand (c : Constraint) : Adds [] (QuerySignature.demand c) :=
  of_placeholders (runFrom_demand c) fun _ => rfl

theorem setNotNull (index : Nat) (notNull : Bool) :
    Adds [] (QuerySignature.setNotNull index notNull) :=
  of_placeholders (runFrom_setNotNull index notNull) fun r =>
    map_modify_notNull r.placeholders index notNull fun _ => rfl

theorem addPlaceholder (name : Option String) (list : Bool) :
    Adds [⟨name, list⟩] (QuerySignature.addPlaceholder name list) := by
  intro r a s hrun
  rw [Analyze.outcome_of_runFrom (runFrom_addPlaceholder name list r)] at hrun
  cases hrun
  simp [Run.entries, Placeholder.entry]

theorem get : Adds [] (MonadState.get : Analyze Run) :=
  of_placeholders (fun _ => rfl) fun _ => rfl

theorem declareCte (name : String) (columns : Level) :
    Adds [] (QuerySignature.declareCte name columns) :=
  of_placeholders (fun _ => rfl) fun _ => rfl

theorem kept : KeptByForcing fun step => Adds [] step where
  pure := pure
  throw := throw
  get := get
  bind := behind
  fresh := fresh
  demand c _ := demand c
  setNotNull := setNotNull

end Adds

end QuerySignature
