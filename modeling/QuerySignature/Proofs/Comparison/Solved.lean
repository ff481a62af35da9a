import QuerySignature.Proofs.Comparison.Steps
import QuerySignature.Proofs.Described
import QuerySignature.Proofs.Spelling.Columns

namespace QuerySignature

/-! # Solving what compared walks ask for

Solving looks at the numbers of variables and at what is known of them, and at texts only to report a
clash. So constraints that say the same of variables under the same numbers are solved alike, whatever
else is compared.

- `solve_compared`: the solution of such constraints.
- `OutputColumn.Compared.type`: the types of output columns.
-/

theorem Forest.find_relabelled {v v' : TypeVar} (h : v.Relabelled v') (forest : Forest) :
    forest.find v' = forest.find v := by
  unfold Forest.find Forest.enter
  rw [h.id, h.info]

section

variable {L : Likeness} (hL : ∀ v v', L.Var v v' → v.Relabelled v') {profile : Profile}

include hL

theorem Forest.merge_relabelled {c c' : Constraint} (hc : c.Compared L c')
    {pair pair' : TypeVar × TypeVar} (hleft : L.Var pair.1 pair'.1) (hright : L.Var pair.2 pair'.2)
    (forest : Forest) :
    Likewise (· = ·) (forest.merge profile c pair) (forest.merge profile c' pair') := by
  unfold Forest.merge
  simp only [Forest.find_relabelled (hL _ _ hleft), Forest.find_relabelled (hL _ _ hright),
    hc.strength, hc.coercion]
  split
  · exact .ok rfl
  · split
    · exact .ok rfl
    · -- only a clash tells the texts of the constraints
      split
      · exact .error _ _
      · exact .ok rfl

/-- Constraints that say the same are solved the same way, or both clash. -/
theorem solve_compared (profile : Profile) {cs cs' : List Constraint}
    (h : List.Forall₂ (Constraint.Compared L) cs cs') :
    Likewise (· = ·) (solve profile cs) (solve profile cs') := by
  have hforest : Likewise (· = ·) (Forest.constrainAll profile [] cs)
      (Forest.constrainAll profile [] cs') := by
    refine Likewise.foldlM h (fun forest _ c c' hforest hc => ?_) rfl
    refine Likewise.foldlM hc.equations (fun forest _ pair pair' hforest hpair => ?_) hforest
    rw [← hforest]
    exact Forest.merge_relabelled hL hc hpair.1 hpair.2 forest
  exact hforest.map fun _ _ hforest => congrArg Solution.ofForest hforest

end

/-- The equations of constraints that say the same are between variables that are compared. -/
theorem equationsOf_compared {L : Likeness} {cs cs' : List Constraint}
    (h : List.Forall₂ (Constraint.Compared L) cs cs') :
    List.Forall₂ (fun step step' => L.Var step.2.1 step'.2.1 ∧ L.Var step.2.2 step'.2.2)
      (equationsOf cs) (equationsOf cs') := by
  induction h with
  | nil => exact .nil
  | cons hc _ ih =>
    refine List.rel_append (List.rel_map (fun _ _ hpair => ?_) hc.equations) ih
    exact hpair

theorem TypeVar.Relabelled.carries_iff {v v' : TypeVar} (h : v.Relabelled v')
    {initial : Nat → TypeInfo} : v'.Carries initial ↔ v.Carries initial := by
  unfold TypeVar.Carries
  rw [h.id, h.info]

theorem Solution.typeOf_relabelled (solution : Solution) {v v' : TypeVar} (h : v.Relabelled v')
    (profile : Profile) : solution.typeOf profile v' = solution.typeOf profile v := by
  unfold Solution.typeOf Solution.infoOf
  rw [h.id, h.info]

/-- An output column has one type in both walks, when its variables do. -/
theorem OutputColumn.Compared.type {L : Likeness} {c c' : OutputColumn} (h : c.Compared L c')
    {solution solution' : Solution} {profile : Profile}
    (htypes : ∀ v v', L.Var v v' → v' ∈ c'.var :: c'.unionVars →
      solution'.typeOf profile v' = solution.typeOf profile v) :
    c'.type solution' profile = c.type solution profile := by
  have hunion := h.unionVars
  have htypesUnion : ∀ v v', L.Var v v' → v' ∈ c'.unionVars →
      solution'.typeOf profile v' = solution.typeOf profile v :=
    fun v v' hv hmem => htypes v v' hv (List.mem_cons_of_mem _ hmem)
  unfold OutputColumn.type
  rw [htypes _ _ h.var List.mem_cons_self]
  generalize solution.typeOf profile c.var = type
  generalize c.unionVars = vars, c'.unionVars = vars' at hunion htypesUnion
  induction hunion generalizing type with
  | nil => rfl
  | cons hv _ ih =>
    rw [List.foldl_cons, List.foldl_cons, htypesUnion _ _ hv List.mem_cons_self]
    exact ih _ fun v v' hv hmem => htypesUnion v v' hv (List.mem_cons_of_mem _ hmem)

end QuerySignature
