import QuerySignature.Proofs.Arithmetic.Uses
import QuerySignature.Proofs.Pinned.Local
import QuerySignature.Proofs.Solver.Numeric
import QuerySignature.Proofs.Walk.Kept

namespace QuerySignature

/-! # Steps that record what a text asks of types

A step of the walk records some uses of types when it adds a variable for each placeholder among them,
widens those that are operands with a result of arithmetic, and asks for no plain widening but those
of the choices among them. Whether a placeholder is an operand shows only when its arithmetic is
through; so it is said of all constraints that there will be.

- `Records.bind`: a step after another records its uses behind the first one's.
- `Records.kept`: what is no plain widening records nothing, and so the forms that ask for none.
- `Records.arithmetic`: arithmetic makes operands of the bare placeholders on its sides.
- `Records.call`: a call is a choice if its function is.
-/

/-- A variable that is widened with a result of arithmetic. -/
def IsOperand (constraints : List Constraint) (v : TypeVar) : Prop :=
  ∃ label result, result.info = .number ∧
    Constraint.widest label (some .sum) result v ∈ constraints

theorem IsOperand.mono {constraints all : List Constraint} {v : TypeVar}
    (h : IsOperand constraints v) (hall : constraints ⊆ all) : IsOperand all v := by
  obtain ⟨label, result, hnumber, hmem⟩ := h
  exact ⟨label, result, hnumber, hall hmem⟩

/-- From one run to another, a walk has added constraints, and among them plain widenings only for
some choices. -/
def Run.WidensFor (r s : Run) (choices : List String) : Prop :=
  ∃ added, s.constraints = r.constraints ++ added ∧
    ∀ c ∈ added, c.isPlainWidening = true → c.label ∈ choices

namespace Run.WidensFor

variable {r s t : Run} {choices first second : List String}

theorem mono (h : r.WidensFor s first) (hchoices : first ⊆ second) : r.WidensFor s second := by
  obtain ⟨added, hadded, hplain⟩ := h
  exact ⟨added, hadded, fun c hc hwidening => hchoices (hplain c hc hwidening)⟩

theorem trans (h : r.WidensFor s first) (h' : s.WidensFor t second) :
    r.WidensFor t (first ++ second) := by
  obtain ⟨added, hadded, hplain⟩ := h
  obtain ⟨added', hadded', hplain'⟩ := h'
  refine ⟨added ++ added', ?_, fun c hc hwidening => ?_⟩
  · rw [hadded', hadded, List.append_assoc]
  · rcases List.mem_append.1 hc with hc | hc
    · exact List.mem_append_left _ (hplain c hc hwidening)
    · exact List.mem_append_right _ (hplain' c hc hwidening)

end Run.WidensFor

/-- From one run to another, a walk has recorded uses of types, where `all` constraints will be
there in the end. -/
structure Run.Records (all : List Constraint) (r s : Run) (uses : List TypeUse) : Prop where
  vars : ∃ vars, s.vars = r.vars ++ vars ∧
    List.Forall₂ (fun operand v => operand = true → IsOperand all v) (operandsIn uses) vars
  constraints : r.WidensFor s (choicesIn uses)

/-- A step that records uses of types, from whatever run it starts. -/
def Records {α : Type} (uses : List TypeUse) (step : Analyze α) : Prop :=
  ∀ r a s, step.outcome r = .ok (a, s) → ∀ all, s.constraints ⊆ all → r.Records all s uses

namespace Run.Records

variable {all : List Constraint} {r s t : Run} {uses first second : List TypeUse}

/-- Constraints that hold all of the later run hold all of the earlier one. -/
theorem within (h : r.Records all s uses) {whole : List Constraint} (hs : s.constraints ⊆ whole) :
    r.constraints ⊆ whole := by
  obtain ⟨added, hadded, -⟩ := h.constraints
  rw [hadded] at hs
  exact List.Subset.trans (List.subset_append_left _ _) hs

theorem trans (h : r.Records all s first) (h' : s.Records all t second) :
    r.Records all t (first ++ second) := by
  obtain ⟨vars, hvars, hoperands⟩ := h.vars
  obtain ⟨vars', hvars', hoperands'⟩ := h'.vars
  constructor
  · refine ⟨vars ++ vars', ?_, ?_⟩
    · rw [hvars', hvars, List.append_assoc]
    · rw [operandsIn_append]
      exact List.rel_append hoperands hoperands'
  · rw [choicesIn_append]
    exact h.constraints.trans h'.constraints

/-- The same placeholders, and no choice less. -/
theorem mono (h : r.Records all s first) (hoperands : operandsIn second = operandsIn first)
    (hchoices : choicesIn first ⊆ choicesIn second) : r.Records all s second := by
  constructor
  · rw [hoperands]
    exact h.vars
  · exact h.constraints.mono hchoices

/-- Common tables do not matter. -/
theorem withCtes (h : r.Records all s uses) (ctes : List (String × Level)) :
    r.Records all { s with ctes } uses :=
  ⟨h.vars, h.constraints⟩

/-- What is recorded first may be cut off, and put back behind what is recorded next. -/
theorem aside (h : r.Records all s first)
    (h' : Run.Records all { s with placeholders := s.placeholders.take r.placeholders.length } t
      second) :
    r.Records all { t with
      placeholders := t.placeholders ++ s.placeholders.drop r.placeholders.length }
      (second ++ first) := by
  obtain ⟨vars, hvars, hoperands⟩ := h.vars
  obtain ⟨vars', hvars', hoperands'⟩ := h'.vars
  obtain ⟨hkept, hcut⟩ := map_cut hvars
  constructor
  · refine ⟨vars' ++ vars, ?_, ?_⟩
    · unfold Run.vars at hvars' ⊢
      rw [List.map_append, hcut, hvars', ← List.append_assoc, hkept]
    · rw [operandsIn_append]
      exact List.rel_append hoperands' hoperands
  · rw [choicesIn_append]
    have hboth : r.WidensFor t (choicesIn first ++ choicesIn second) :=
      h.constraints.trans h'.constraints
    exact hboth.mono (List.append_subset.2
      ⟨List.subset_append_right _ _, List.subset_append_left _ _⟩)

end Run.Records

namespace Records

variable {α β : Type} {first second uses : List TypeUse} {step : Analyze α} {next : α → Analyze β}

/-- The second of two steps records behind the first. -/
theorem bind (h : Records first step) (hnext : ∀ a, Records second (next a)) :
    Records (first ++ second) (step >>= next) := by
  intro r b t hrun all hall
  rw [Analyze.outcome_bind] at hrun
  rcases bind_eq_ok.1 hrun with ⟨⟨a, s⟩, hfirst, hsecond⟩
  have hlater := hnext a s b t hsecond all hall
  exact (h r a s hfirst all (hlater.within hall)).trans hlater

/-- Before a step that records nothing. -/
theorem before (h : Records uses step) (hnext : ∀ a, Records [] (next a)) :
    Records uses (step >>= next) := by
  simpa using h.bind hnext

/-- Behind a step that records nothing. -/
theorem behind (h : Records [] step) (hnext : ∀ a, Records uses (next a)) :
    Records uses (step >>= next) :=
  h.bind hnext

theorem mono (h : Records first step) (hoperands : operandsIn second = operandsIn first)
    (hchoices : choicesIn first ⊆ choicesIn second) : Records second step :=
  fun r a s hrun all hall => (h r a s hrun all hall).mono hoperands hchoices

/-! ## Single steps -/

/-- A step that changes neither variables nor constraints. -/
theorem of_same {value : Run → α} {after : Run → Run}
    (h : ∀ r, step.runFrom r = (.ok (value r), after r))
    (hvars : ∀ r, (after r).vars = r.vars)
    (hconstraints : ∀ r, (after r).constraints = r.constraints) : Records [] step := by
  intro r a s hrun all hall
  rw [Analyze.outcome_of_runFrom (h r)] at hrun
  cases hrun
  constructor
  · exact ⟨[], by rw [hvars, List.append_nil], .nil⟩
  · exact ⟨[], by rw [hconstraints, List.append_nil], fun c hc => absurd hc List.not_mem_nil⟩

theorem pure (a : α) : Records [] (Pure.pure a : Analyze α) :=
  of_same (fun _ => rfl) (fun _ => rfl) fun _ => rfl

theorem throw (e : AnalysisError) : Records uses (MonadExcept.throw e : Analyze α) := by
  intro r _ _ hrun
  cases hrun

theorem throw_bind (e : AnalysisError) : Records uses (MonadExcept.throw e >>= next) := by
  intro r _ _ hrun
  cases hrun

theorem get : Records [] (MonadState.get : Analyze Run) :=
  of_same (fun _ => rfl) (fun _ => rfl) fun _ => rfl

theorem fresh (label : String) (info : TypeInfo) :
    Records [] (QuerySignature.fresh label info) :=
  of_same (runFrom_fresh label info) (fun _ => rfl) fun _ => rfl

/-- A constraint is recorded as a choice if it is a plain widening. -/
theorem demand {c : Constraint} (h : c.isPlainWidening = true → c.label ∈ choicesIn uses)
    (huses : operandsIn uses = []) : Records uses (QuerySignature.demand c) := by
  intro r _ _ hrun all hall
  rw [Analyze.outcome_of_runFrom (runFrom_demand c r)] at hrun
  cases hrun
  constructor
  · exact ⟨[], (List.append_nil _).symm, huses ▸ .nil⟩
  · refine ⟨[c], rfl, fun other hother => ?_⟩
    rw [List.mem_singleton.1 hother]
    exact h

theorem chosen (label : String) (left right : TypeVar) :
    Records [.choice label] (QuerySignature.demand (.widest label none left right)) :=
  demand (fun _ => List.mem_singleton.2 rfl) rfl

theorem setNotNull (index : Nat) (notNull : Bool) :
    Records [] (QuerySignature.setNotNull index notNull) :=
  of_same (runFrom_setNotNull index notNull)
    (fun r => map_modify_notNull r.placeholders index notNull fun _ => rfl) fun _ => rfl

/-- A placeholder is no operand by itself. -/
theorem addPlaceholder (name : Option String) (list : Bool) :
    Records [.placeholder false] (QuerySignature.addPlaceholder name list) := by
  intro r a s hrun all hall
  rw [Analyze.outcome_of_runFrom (runFrom_addPlaceholder name list r)] at hrun
  cases hrun
  constructor
  · exact ⟨_, List.map_append, .cons (fun h => nomatch h) .nil⟩
  · exact ⟨[], (List.append_nil _).symm, fun c hc => absurd hc List.not_mem_nil⟩

theorem declareCte (name : String) (columns : Level) :
    Records [] (QuerySignature.declareCte name columns) :=
  of_same (fun _ => rfl) (fun _ => rfl) fun _ => rfl

/-- What is no plain widening records nothing. -/
theorem kept : KeptByForcing fun step => Records [] step where
  pure := pure
  throw := throw
  get := get
  bind := behind
  fresh := fresh
  demand c hplain := by
    have hfalse : c.isPlainWidening = false := Constraint.isPlainWidening_eq_false_iff.2 hplain
    exact demand (fun htrue => absurd htrue (hfalse ▸ Bool.false_ne_true)) rfl
  setNotNull := setNotNull

/-! ## Arithmetic -/

/-- Arithmetic makes its result as a number, and widens it with both of its sides. -/
theorem isOperand_of_arithmetic {label : String} {left right a : Inferred} {r s : Run}
    (h : (inferArithmetic label left right).outcome r = .ok (a, s)) :
    IsOperand s.constraints left.var ∧ IsOperand s.constraints right.var := by
  have hconstraints : a.var.info = .number ∧ s.constraints = r.constraints ++
      [.widest label (some .sum) left.var right.var] ++
      [.widest label (some .sum) a.var left.var] ++
      [.widest label (some .sum) a.var right.var] := by
    cases h
    exact ⟨rfl, rfl⟩
  rw [hconstraints.2]
  exact ⟨⟨label, a.var, hconstraints.1, by simp⟩, ⟨label, a.var, hconstraints.1, by simp⟩⟩

/-- A bare placeholder adds its own variable. -/
theorem vars_of_isParameter {setting : Setting} {scope : Scope} : ∀ {e : Expr},
    e.isParameter = true → ∀ {r s : Run} {a : Inferred},
    (inferExpr setting scope e).outcome r = .ok (a, s) → s.vars = r.vars ++ [a.var]
  | .paren inner, h, r, s, a, hrun => by
    unfold inferExpr at hrun
    exact vars_of_isParameter (e := inner) h hrun
  | .parameter name, _, r, s, a, hrun => by
    unfold inferExpr at hrun
    rw [Analyze.outcome_of_runFrom (runFrom_addPlaceholder name false r)] at hrun
    cases hrun
    exact List.map_append

/-- A side of arithmetic, whose variable is widened with the result. -/
theorem operand {setting : Setting} {scope : Scope} {e : Expr} {all : List Constraint} {r s : Run}
    {a : Inferred} (hrun : (inferExpr setting scope e).outcome r = .ok (a, s))
    (h : r.Records all s e.typeUses) (ha : IsOperand all a.var) :
    r.Records all s (if e.isParameter then [.placeholder true] else e.typeUses) := by
  split
  · next hparameter =>
    rw [Expr.typeUses_of_isParameter hparameter] at h
    exact ⟨⟨[a.var], vars_of_isParameter hparameter hrun, .cons (fun _ => ha) .nil⟩, h.constraints⟩
  · exact h

/-- Arithmetic makes operands of the bare placeholders on its sides. -/
theorem arithmetic {setting : Setting} {scope : Scope} (op : ArithmeticOp) {left right : Expr}
    (hleft : Records left.typeUses (inferExpr setting scope left))
    (hright : Records right.typeUses (inferExpr setting scope right)) :
    Records (Expr.arithmetic op left right).typeUses
      (inferExpr setting scope (.arithmetic op left right)) := by
  intro r a t hrun all hall
  unfold inferExpr at hrun
  simp only [Analyze.outcome_bind] at hrun
  rcases bind_eq_ok.1 hrun with ⟨⟨l, r₁⟩, hl, hrun⟩
  rcases bind_eq_ok.1 hrun with ⟨⟨m, r₂⟩, hm, hrun⟩
  have h₃ := kept.arithmetic _ l m r₂ a t hrun all hall
  have h₂ := hright r₁ m r₂ hm all (h₃.within hall)
  have h₁ := hleft r l r₁ hl all (h₂.within (h₃.within hall))
  obtain ⟨hl', hm'⟩ := isOperand_of_arithmetic hrun
  rw [Expr.typeUses]
  have hboth := (operand hl h₁ (hl'.mono hall)).trans (operand hm h₂ (hm'.mono hall))
  simpa using hboth.trans h₃

/-! ## Calls -/

/-- All widenings of a choice have its text. -/
theorem choice (label : String) (es : List Inferred) (notNull : Bool) :
    Records [.choice label] (inferChoice label es notNull) := by
  have hall : ∀ (var : TypeVar) (es : List Inferred),
      Records [.choice label] (demandWidest label var es) := by
    intro var es
    induction es with
    | nil => exact (pure _).mono rfl (List.nil_subset _)
    | cons e rest ih =>
      refine ((chosen label var e.var).bind fun _ => ih).mono rfl ?_
      exact List.cons_subset.2 ⟨List.mem_cons_self, List.Subset.refl _⟩
  exact behind (fresh _ _) fun var => (hall var es).before fun _ => pure _

theorem rule {profile : Profile} {label : String} {f : SqlFunction} {es : List Inferred}
    {rule : Analyze Inferred} (h : f.rule? profile label es = some rule) :
    Records (if f.isChoice then [.choice label] else []) rule := by
  by_cases hchoice : f.isChoice = true
  · rw [if_pos hchoice]
    cases f <;> cases hchoice <;> cases h <;> exact choice _ _ _
  · rw [if_neg hchoice]
    refine kept.ofRule (SqlFunction.ruleForm h) (fun isChoice => ?_) fun _ e => kept.date _ _ e
    exact absurd (by rcases isChoice with rfl | rfl <;> rfl) hchoice

theorem call (profile : Profile) (function label : String) (es : List Inferred) :
    Records (callUses function label) (inferCall profile function label es) := by
  obtain ⟨e, heq⟩ | ⟨f, form, hf, -, hform, heq⟩ := inferCall_cases profile function label es
  · rw [heq]
    exact throw e
  · rw [heq, callUses, hf]
    exact (rule hform).before fun _ => pure _

end Records

end QuerySignature
