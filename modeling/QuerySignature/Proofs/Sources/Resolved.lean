import QuerySignature.Proofs.Criteria.Valuation
import QuerySignature.Proofs.Placeholders.Pieces
import QuerySignature.Proofs.Walk.Parts

namespace QuerySignature

/-! # References that have a meaning

The walk over an expression gives a result only if every reference outside of inner queries has a
meaning where the expression stands.

- `resolved_of_inferExpr`: the references of an analysed expression are resolved;
- `columns_subset_of_equalities`: so are the sides of its equations, which are parts of it.
-/

/-! ## Steps that ask for something -/

/-- A step gives a result only if all of a list have a property. -/
def Analyze.Requires {α γ : Type} (P : γ → Prop) (xs : List γ) (step : Analyze α) : Prop :=
  ∀ r a s, step.outcome r = .ok (a, s) → ∀ x ∈ xs, P x

namespace Analyze.Requires

variable {α β γ : Type} {P : γ → Prop} {xs ys : List γ} {step : Analyze α} {next : α → Analyze β}

theorem nil : Requires P [] step := fun _ _ _ _ _ hx => absurd hx List.not_mem_nil

theorem throw (e : AnalysisError) : Requires P xs (MonadExcept.throw e : Analyze α) :=
  fun _ _ _ h => nomatch h

/-- What a step asks for, and what follows it. -/
theorem bind (h : Requires P xs step) (hnext : ∀ a, Requires P ys (next a)) :
    Requires P (xs ++ ys) (step >>= next) := by
  intro r b t hrun x hx
  rw [Analyze.outcome_bind] at hrun
  rcases bind_eq_ok.1 hrun with ⟨⟨a, s⟩, hstep, hrest⟩
  rcases List.mem_append.1 hx with hx | hx
  · exact h r a s hstep x hx
  · exact hnext a s b t hrest x hx

theorem first (h : Requires P xs step) : Requires P xs (step >>= next) := by
  have hboth := h.bind fun a => (nil : Requires P [] (next a))
  rwa [List.append_nil] at hboth

theorem later (hnext : ∀ a, Requires P ys (next a)) : Requires P ys (step >>= next) :=
  (nil : Requires P [] step).bind hnext

end Analyze.Requires

/-! ## Steps that resolve references -/

/-- A step gives a result only if references have a meaning. -/
def Analyze.Resolves {α : Type} (scope : Scope) (cs : List ColumnRef) (step : Analyze α) : Prop :=
  ∀ r a s, step.outcome r = .ok (a, s) → ∀ c ∈ cs, ∃ column, scope.resolve c = .ok column

namespace Analyze.Resolves

variable {α β : Type} {scope : Scope} {cs ds : List ColumnRef} {step : Analyze α}
  {next : α → Analyze β}

theorem nil : Resolves scope [] step := Requires.nil

/-- The references of a step, and those of what follows it. -/
theorem bind (h : Resolves scope cs step) (hnext : ∀ a, Resolves scope ds (next a)) :
    Resolves scope (cs ++ ds) (step >>= next) := Requires.bind h hnext

theorem first (h : Resolves scope cs step) : Resolves scope cs (step >>= next) := Requires.first h

theorem later (hnext : ∀ a, Resolves scope ds (next a)) : Resolves scope ds (step >>= next) :=
  Requires.later hnext

theorem column (c : ColumnRef) : Resolves scope [c] (inferColumn scope c) := by
  refine first ?_
  intro r column s hrun d hd
  rw [List.mem_singleton.1 hd]
  unfold resolve at hrun
  cases hmeaning : scope.resolve c with
  | error e => simp [hmeaning] at hrun
  | ok found => exact ⟨found, rfl⟩

end Analyze.Resolves

/-! ## Expressions -/

section

open Analyze.Resolves

mutual

theorem resolves_expr (setting : Setting) (scope : Scope) (e : Expr) :
    (inferExpr setting scope e).Resolves scope e.columns := by
  match e with
  | .literal _ | .parameter _ | .star | .scalar _ | .hasRows _ => exact nil
  | .column c => exact column c
  | .paren inner => exact resolves_expr setting scope inner
  | .arithmetic _ left right | .compare _ left right | .like _ left right =>
    exact (resolves_expr setting scope left).bind fun _ =>
      first (resolves_expr setting scope right)
  | .and left right | .or left right =>
    exact (resolves_expr setting scope left).bind fun _ =>
      first (resolves_expr setting scope right)
  | .between _ value low high =>
    show Analyze.Resolves scope (value.columns ++ low.columns ++ high.columns) _
    rw [List.append_assoc]
    exact (resolves_expr setting scope value).bind fun _ =>
      (resolves_expr setting scope low).bind fun _ => first (resolves_expr setting scope high)
  | .inList _ value items =>
    refine (resolves_expr setting scope value).bind fun _ => later fun _ => ?_
    cases hsole : soleParameter? items with
    | none => exact first (resolves_all setting scope items)
    | some name =>
      obtain rfl := eq_of_soleParameter? hsole
      exact nil
  | .inQuery _ value _ => exact first (resolves_expr setting scope value)
  | .isNull _ value | .not value => exact first (resolves_expr setting scope value)
  | .call _ _ arguments => exact first (resolves_arguments setting scope arguments)
  | .case operand branches otherwise =>
    show Analyze.Resolves scope (Expr.columnsOfSome operand ++ Expr.columnsOfBranches branches ++
      Expr.columnsOfSome otherwise) _
    rw [List.append_assoc]
    refine (resolves_some setting scope operand).bind fun o => later fun result => ?_
    exact (resolves_branches setting scope o result branches).bind fun _ =>
      first (resolves_else setting scope result otherwise)

theorem resolves_all (setting : Setting) (scope : Scope) (es : List Expr) :
    (inferAll setting scope es).Resolves scope (Expr.columnsOfAll es) := by
  match es with
  | [] => exact nil
  | e :: rest =>
    exact (resolves_expr setting scope e).bind fun _ => first (resolves_all setting scope rest)

theorem resolves_arguments (setting : Setting) (scope : Scope) (es : List Expr) :
    (inferArguments setting scope es).Resolves scope (Expr.columnsOfAll es) := by
  match es with
  | [] => exact nil
  | e :: rest =>
    unfold inferArguments
    split
    case isTrue hstar =>
      -- a star refers to nothing
      have hnone : e.columns = [] := by
        cases e with
        | star => rfl
        | _ => cases hstar
      unfold Expr.columnsOfAll
      rw [hnone]
      exact resolves_arguments setting scope rest
    case isFalse =>
      exact (resolves_expr setting scope e).bind fun _ =>
        first (resolves_arguments setting scope rest)

theorem resolves_some (setting : Setting) (scope : Scope) (o : Option Expr) :
    (inferSome setting scope o).Resolves scope (Expr.columnsOfSome o) := by
  match o with
  | none => exact nil
  | some e => exact first (resolves_expr setting scope e)

theorem resolves_branches (setting : Setting) (scope : Scope) (operand : Option Inferred)
    (result : TypeVar) (branches : List WhenThen) :
    (inferBranches setting scope operand result branches).Resolves scope
      (Expr.columnsOfBranches branches) := by
  match branches with
  | [] => exact nil
  | ⟨condition, value⟩ :: rest =>
    show Analyze.Resolves scope (condition.columns ++ value.columns ++
      Expr.columnsOfBranches rest) _
    rw [List.append_assoc]
    refine (resolves_expr setting scope condition).bind fun _ => later fun _ => ?_
    exact (resolves_expr setting scope value).bind fun _ => later fun _ =>
      first (resolves_branches setting scope operand result rest)

theorem resolves_else (setting : Setting) (scope : Scope) (result : TypeVar) (o : Option Expr) :
    (inferElse setting scope result o).Resolves scope (Expr.columnsOfSome o) := by
  match o with
  | none => exact nil
  | some e => exact first (resolves_expr setting scope e)

end

end

/-- The references of an analysed expression have a meaning. -/
theorem resolved_of_inferExpr {setting : Setting} {scope : Scope} {e : Expr} {r s : Run}
    {inferred : Inferred} (h : (inferExpr setting scope e).outcome r = .ok (inferred, s))
    {c : ColumnRef} (hc : c ∈ e.columns) : ∃ column, scope.lookup? c = some column := by
  obtain ⟨column, hcolumn⟩ := resolves_expr setting scope e r inferred s h c hc
  exact ⟨column, by simp [Scope.lookup?, hcolumn, Except.toOption]⟩

/-! ## Parts of expressions -/

/-- The column that an expression is, is one that it refers to. -/
theorem mem_columns_of_column? {e : Expr} {c : ColumnRef} (h : e.column? = some c) :
    c ∈ e.columns := by
  unfold Expr.column? at h
  fun_induction Expr.bare e with
  | case1 inner ih => exact ih h
  | case2 e hbare =>
    cases e with
    | column d =>
      cases h
      exact List.mem_singleton_self _
    | _ => cases h

/-- Whatever the sides of an equation refer to, the whole refers to. -/
theorem columns_subset_of_equalities {e : Expr} {sides : Expr × Expr} (h : sides ∈ e.equalities) :
    sides.1.columns ⊆ e.columns ∧ sides.2.columns ⊆ e.columns := by
  fun_induction Expr.equalities e with
  | case1 inner ih => exact ih h
  | case2 left right ihl ihr =>
    rcases List.mem_append.1 h with h | h
    · exact ⟨List.subset_append_of_subset_left _ (ihl h).1,
        List.subset_append_of_subset_left _ (ihl h).2⟩
    · exact ⟨List.subset_append_of_subset_right _ (ihr h).1,
        List.subset_append_of_subset_right _ (ihr h).2⟩
  | case3 left right =>
    obtain rfl := List.mem_singleton.1 h
    exact ⟨List.subset_append_left _ _, List.subset_append_right _ _⟩
  | case4 => cases h

end QuerySignature
