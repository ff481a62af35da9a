import QuerySignature.Proofs.Walk.Kept
import QuerySignature.Proofs.Walk.Parts

namespace QuerySignature

/-! # Steps that leave the placeholders alone

Making variables, asking for constraints and reading columns touch neither the placeholders of a run
nor whether these may be null. What changes a placeholder is collecting it, cutting it off and putting
it back, and saying that it is not null.

- `Quiet.bind`: quiet steps in a row are quiet.
- `Quiet.rule`: so is a call of any function, but for those on dates.
-/

/-- A step that leaves the placeholders of a run as they are. -/
def Quiet {α : Type} (step : Analyze α) : Prop :=
  ∀ r a s, step.outcome r = .ok (a, s) → s.placeholders = r.placeholders

namespace Quiet

variable {α β : Type} {step : Analyze α} {next : α → Analyze β}

theorem pure (a : α) : Quiet (Pure.pure a : Analyze α) := by
  intro r _ _ h
  cases h
  rfl

theorem throw (e : AnalysisError) : Quiet (MonadExcept.throw e : Analyze α) := by
  intro r _ _ h
  cases h

theorem bind (h : Quiet step) (hnext : ∀ a, Quiet (next a)) : Quiet (step >>= next) := by
  intro r b t hrun
  rw [Analyze.outcome_bind] at hrun
  rcases bind_eq_ok.1 hrun with ⟨⟨a, s⟩, hfirst, hsecond⟩
  exact (hnext a s b t hsecond).trans (h r a s hfirst)

/-! ## Steps -/

theorem of_runFrom {value : Run → α} {after : Run → Run}
    (h : ∀ r, step.runFrom r = (.ok (value r), after r))
    (hafter : ∀ r, (after r).placeholders = r.placeholders) : Quiet step := by
  intro r a s hrun
  rw [Analyze.outcome_of_runFrom (h r)] at hrun
  cases hrun
  exact hafter r

theorem fresh (label : String) (info : TypeInfo) : Quiet (QuerySignature.fresh label info) :=
  of_runFrom (runFrom_fresh label info) fun _ => rfl

theorem demand (c : Constraint) : Quiet (QuerySignature.demand c) :=
  of_runFrom (runFrom_demand c) fun _ => rfl

theorem declareCte (name : String) (columns : Level) :
    Quiet (QuerySignature.declareCte name columns) :=
  of_runFrom (fun _ => rfl) fun _ => rfl

theorem kept : KeptByForms Quiet where
  pure := pure
  throw := throw
  get := of_runFrom (fun _ => rfl) fun _ => rfl
  bind := bind
  fresh := fresh
  demand c _ := demand c

/-- The rule of a function that is not on dates. -/
theorem rule {profile : Profile} {label : String} {f : SqlFunction} {es : List Inferred}
    {rule : Analyze Inferred} (h : f.rule? profile label es = some rule)
    (hdate : f ≠ .date ∧ f ≠ .time ∧ f ≠ .dateTime ∧ f ≠ .strftime) : Quiet rule := by
  refine kept.ofRule (SqlFunction.ruleForm h) (fun _ _ _ => demand _) fun isDate => ?_
  rcases isDate with rfl | rfl | rfl | rfl
  · exact absurd rfl hdate.1
  · exact absurd rfl hdate.2.1
  · exact absurd rfl hdate.2.2.1
  · exact absurd rfl hdate.2.2.2

end Quiet

end QuerySignature
