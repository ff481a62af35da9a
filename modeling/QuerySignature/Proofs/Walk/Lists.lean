import QuerySignature.Analysis.Write

namespace QuerySignature

/-! # Lists in parts

A list of a text is analysed from its first item to its last. So what stands before a place in it is
analysed first, then what stands there, then what stands behind.

- `inferAll_append`, `inferCtes_append`, `inferItems_append`, ...: one for each list.
-/

section

variable (setting : Setting) (scope : Scope) (outer : List Level)

/-! ## Expressions -/

theorem inferAll_append (xs ys : List Expr) :
    inferAll setting scope (xs ++ ys) =
      inferAll setting scope xs >>= fun as => inferAll setting scope ys >>= fun bs =>
        pure (as ++ bs) := by
  induction xs with
  | nil => simp only [List.nil_append, inferAll, pure_bind, bind_pure]
  | cons x rest ih => simp only [List.cons_append, inferAll, ih, bind_assoc, pure_bind]

/-- A star among the arguments is none of them. -/
theorem inferArguments_append (xs ys : List Expr) :
    inferArguments setting scope (xs ++ ys) =
      inferArguments setting scope xs >>= fun as => inferArguments setting scope ys >>= fun bs =>
        pure (as ++ bs) := by
  induction xs with
  | nil => simp only [List.nil_append, inferArguments, pure_bind, bind_pure]
  | cons x rest ih =>
    simp only [List.cons_append, inferArguments, ih]
    split
    · rfl
    · simp only [bind_assoc, pure_bind, List.cons_append]

theorem inferBranches_append (operand : Option Inferred) (result : TypeVar)
    (xs ys : List WhenThen) :
    inferBranches setting scope operand result (xs ++ ys) =
      inferBranches setting scope operand result xs >>= fun a =>
        inferBranches setting scope operand result ys >>= fun b => pure (a && b) := by
  induction xs with
  | nil => simp only [List.nil_append, inferBranches, pure_bind, Bool.true_and, bind_pure]
  | cons x rest ih =>
    obtain ⟨condition, value⟩ := x
    simp only [List.cons_append, inferBranches, ih, bind_assoc, pure_bind, Bool.and_assoc]

/-! ## Queries -/

theorem inferCtes_append (xs ys : List Cte) :
    inferCtes setting outer (xs ++ ys) =
      inferCtes setting outer xs >>= fun _ => inferCtes setting outer ys := by
  induction xs with
  | nil => simp only [List.nil_append, inferCtes, pure_bind]
  | cons x rest ih =>
    obtain ⟨name, query⟩ := x
    simp only [List.cons_append, inferCtes, ih, bind_assoc]

theorem inferUnion_append (xs ys : List Branch) :
    inferUnion setting outer (xs ++ ys) =
      inferUnion setting outer xs >>= fun as => inferUnion setting outer ys >>= fun bs =>
        pure (as ++ bs) := by
  induction xs with
  | nil => simp only [List.nil_append, inferUnion, pure_bind, bind_pure]
  | cons x rest ih => simp only [List.cons_append, inferUnion, ih, bind_assoc, pure_bind]

theorem inferOrder_append (xs ys : List OrderTerm) :
    inferOrder setting scope (xs ++ ys) =
      inferOrder setting scope xs >>= fun _ => inferOrder setting scope ys := by
  induction xs with
  | nil => simp only [List.nil_append, inferOrder, pure_bind]
  | cons x rest ih =>
    obtain ⟨value, descending⟩ := x
    simp only [List.cons_append, inferOrder, ih]
    split
    · rfl
    · rw [bind_assoc]

/-! ## Branches -/

theorem inferItems_append (xs ys : List Item) :
    inferItems setting scope (xs ++ ys) =
      inferItems setting scope xs >>= fun as => inferItems setting scope ys >>= fun bs =>
        pure (as ++ bs) := by
  induction xs with
  | nil => simp only [List.nil_append, inferItems, pure_bind, bind_pure]
  | cons x rest ih =>
    simp only [List.cons_append, inferItems, ih, bind_assoc, pure_bind, List.append_assoc]

theorem inferSources_append (done : Sources) (xs ys : List Source) :
    inferSources setting done (xs ++ ys) =
      inferSources setting done xs >>= fun next => inferSources setting next ys := by
  induction xs generalizing done with
  | nil => simp only [List.nil_append, inferSources, pure_bind]
  | cons x rest ih => simp only [List.cons_append, inferSources, ih, bind_assoc]

/-- The source that the next join is behind. -/
def lastJoined (previous : String) : List Join → String
  | [] => previous
  | j :: rest => lastJoined j.source.visibleName rest

theorem inferJoins_append (done : Sources) (previous : String) (xs ys : List Join) :
    inferJoins setting outer done previous (xs ++ ys) =
      inferJoins setting outer done previous xs >>= fun next =>
        inferJoins setting outer next (lastJoined previous xs) ys := by
  induction xs generalizing done previous with
  | nil => simp only [List.nil_append, inferJoins, lastJoined, pure_bind]
  | cons x rest ih =>
    obtain ⟨kind, source, condition⟩ := x
    simp only [List.cons_append, inferJoins, lastJoined, ih, bind_assoc]

/-! ## Statements that write -/

theorem inferRows_append (targets : Level) (xs ys : List (List Expr)) :
    inferRows setting targets (xs ++ ys) =
      inferRows setting targets xs >>= fun _ => inferRows setting targets ys := by
  induction xs with
  | nil => simp only [List.nil_append, inferRows, pure_bind]
  | cons x rest ih =>
    simp only [List.cons_append, inferRows, ih]
    split <;> simp only [bind_assoc]

theorem inferAssignments_append (xs ys : List Assignment) :
    inferAssignments setting scope (xs ++ ys) =
      inferAssignments setting scope xs >>= fun _ => inferAssignments setting scope ys := by
  induction xs with
  | nil => simp only [List.nil_append, inferAssignments, pure_bind]
  | cons x rest ih => simp only [List.cons_append, inferAssignments, ih, bind_assoc]

end

end QuerySignature
