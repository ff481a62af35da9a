import Mathlib.Data.List.Induction
import Mathlib.Data.List.Perm.Basic
import Mathlib.Logic.Relation
import QuerySignature.Proofs.Solver.Agreement
import QuerySignature.Proofs.Solver.Partition

namespace QuerySignature

/-! # Components of equations

Equations connect variables. When none of them may be passed over, the classes of the solver are the
connected components, in whatever order the equations come and whichever side stands first; and when
nothing is coerced, what is known of a class is what one of its members was made with.

- `Classes.exists_step_of_error`: a run fails at one of its equations.
- `Classes.same_iff_connected`: two variables are in one class exactly when they are connected.
- `Classes.exists_member`: where the type of a class comes from.
- `Classes.holds_of_member`: what every merge takes over from either side, a class has from its members.
- `TypeTerm.equations_swap`: exchanging two terms exchanges the sides of their equations.
- `Reordered.connected_iff`: constraints in another order connect the same variables.
-/

/-- Two variables that some equation relates. -/
def Related (steps : List Equation) (i j : Nat) : Prop :=
  ∃ step ∈ steps, step.2.1.id = i ∧ step.2.2.id = j

/-- Two variables in one connected component of some equations. -/
def Connected (steps : List Equation) : Nat → Nat → Prop := Relation.EqvGen (Related steps)

namespace Connected

variable {steps steps' : List Equation} {i j k : Nat}

theorem refl (steps : List Equation) (i : Nat) : Connected steps i i :=
  Relation.EqvGen.refl i

theorem symm (h : Connected steps i j) : Connected steps j i := Relation.EqvGen.symm i j h

theorem trans (h : Connected steps i j) (h' : Connected steps j k) : Connected steps i k :=
  Relation.EqvGen.trans i j k h h'

theorem of_mem {step : Equation} (h : step ∈ steps) : Connected steps step.2.1.id step.2.2.id :=
  Relation.EqvGen.rel _ _ ⟨step, h, rfl, rfl⟩

/-- An equivalence that holds on every equation holds along connections. -/
theorem rec_equivalence {R : Nat → Nat → Prop} (hR : Equivalence R)
    (hstep : ∀ step ∈ steps, R step.2.1.id step.2.2.id) (h : Connected steps i j) : R i j := by
  induction h with
  | rel i j hij =>
    rcases hij with ⟨step, hmem, rfl, rfl⟩
    exact hstep step hmem
  | refl i => exact hR.refl i
  | symm i j _ ih => exact hR.symm ih
  | trans i j k _ _ ihij ihjk => exact hR.trans ihij ihjk

theorem equivalence (steps : List Equation) : Equivalence (Connected steps) :=
  ⟨refl steps, symm, trans⟩

theorem mono (hsub : steps ⊆ steps') (h : Connected steps i j) : Connected steps' i j :=
  h.rec_equivalence (equivalence steps') fun _ hmem => of_mem (hsub hmem)

/-- Connected variables are one variable, or both have what every variable of an equation has. -/
theorem eq_or_both {Q : Nat → Prop} (hQ : ∀ step ∈ steps, Q step.2.1.id ∧ Q step.2.2.id)
    (h : Connected steps i j) : i = j ∨ (Q i ∧ Q j) := by
  refine h.rec_equivalence (R := fun i j => i = j ∨ (Q i ∧ Q j)) ⟨?_, ?_, ?_⟩ fun step hmem => ?_
  · intro i
    exact Or.inl rfl
  · rintro i j (rfl | ⟨hi, hj⟩)
    · exact Or.inl rfl
    · exact Or.inr ⟨hj, hi⟩
  · rintro i j k (rfl | ⟨hi, hj⟩) (rfl | ⟨hj', hk⟩)
    · exact Or.inl rfl
    · exact Or.inr ⟨hj', hk⟩
    · exact Or.inr ⟨hi, hj⟩
    · exact Or.inr ⟨hi, hk⟩
  · exact Or.inr (hQ step hmem)

end Connected

namespace Classes

variable {profile : Profile} {initial : Nat → TypeInfo} {steps : List Equation} {s t : Classes}
  {i j : Nat}

theorem run_snoc (profile : Profile) (s : Classes) (done : List Equation) (step : Equation) :
    s.run profile (done ++ [step]) =
      (s.run profile done).bind fun between => between.merge profile step := by
  rw [run_append]
  refine congrArg _ (funext fun between => ?_)
  rw [run_cons]
  cases between.merge profile step <;> rfl

/-! ## Where a run fails -/

/-- A run that fails does so at some equation, behind equations that it has solved. -/
theorem exists_step_of_error {e : Clash} (h : s.run profile steps = .error e) :
    ∃ done step rest between, steps = done ++ step :: rest ∧ s.run profile done = .ok between ∧
      between.merge profile step = .error e := by
  induction steps generalizing s with
  | nil => cases h
  | cons step rest ih =>
    rw [run_cons] at h
    cases hstep : s.merge profile step with
    | error e' =>
      rw [hstep] at h
      cases h
      exact ⟨[], step, rest, s, rfl, rfl, hstep⟩
    | ok next =>
      rw [hstep] at h
      rcases ih h with ⟨done, failed, behind, between, rfl, hdone, hfailed⟩
      refine ⟨step :: done, failed, behind, between, rfl, ?_, hfailed⟩
      rw [run_cons, hstep]
      exact hdone

/-- Equations that are not strict can always be solved. -/
theorem exists_run (hsteps : ∀ step ∈ steps, step.1.strength ≠ .strict) :
    ∃ t, s.run profile steps = .ok t := by
  cases h : s.run profile steps with
  | ok t => exact ⟨t, rfl⟩
  | error e =>
    rcases exists_step_of_error h with ⟨done, step, rest, between, rfl, -, hstep⟩
    exact absurd (strict_of_error hstep).1 (hsteps step (by simp))

/-! ## Classes are components -/

/-- Members of one class are connected. -/
theorem connected_of_same (h : (start initial).run profile steps = .ok t)
    (hsame : t.label i = t.label j) : Connected steps i j := by
  -- on the last equation: what it brings together is connected through its two sides
  induction steps using List.reverseRecOn generalizing t i j with
  | nil =>
    cases h
    have hij : i = j := hsame
    exact hij ▸ .refl _ i
  | append_singleton done step ih =>
    rw [run_snoc] at h
    rcases bind_eq_ok.1 h with ⟨s, hs, hstep⟩
    have hold : ∀ {x y}, s.label x = s.label y → Connected (done ++ [step]) x y :=
      fun hxy => (ih hs hxy).mono (List.subset_append_left _ _)
    have hboth : Connected (done ++ [step]) step.2.1.id step.2.2.id := .of_mem (by simp)
    have hjoined : ∀ x, s.label x = s.label step.2.1.id ∨ s.label x = s.label step.2.2.id →
        Connected (done ++ [step]) x step.2.1.id := by
      rintro x (hx | hx)
      · exact hold hx
      · exact (hold hx).trans hboth.symm
    rcases merge_cases profile s step hstep with ⟨rfl, -⟩ | ⟨info, -, -, rfl⟩
    · exact hold hsame
    · rcases (join_same i j).1 hsame with hsame | ⟨hi, hj⟩
      · exact hold hsame
      · exact (hjoined i hi).trans (hjoined j hj).symm

/-- An equation of a run that may not be passed over has brought its two sides into one class, whatever
comes behind it. -/
theorem same_of_mem {step : Equation} (hmem : step ∈ steps) (hbinding : step.1.strength ≠ .bestEffort)
    (h : s.run profile steps = .ok t) : t.label step.2.1.id = t.label step.2.2.id := by
  rcases List.append_of_mem hmem with ⟨done, rest, rfl⟩
  rw [run_append] at h
  rcases bind_eq_ok.1 h with ⟨between, -, h⟩
  rw [run_cons] at h
  rcases bind_eq_ok.1 h with ⟨next, hstep, hrest⟩
  exact same_of_run (same_of_binding hbinding hstep) hrest

/-- When no equation may be passed over, the classes are the connected components. -/
theorem same_iff_connected (hbinding : ∀ step ∈ steps, step.1.strength ≠ .bestEffort)
    (h : (start initial).run profile steps = .ok t) :
    t.label i = t.label j ↔ Connected steps i j := by
  refine ⟨connected_of_same h, fun hij => ?_⟩
  refine hij.rec_equivalence (R := fun i j => t.label i = t.label j) ⟨fun _ => rfl, .symm, .trans⟩ ?_
  exact fun step hmem => same_of_mem hmem (hbinding step hmem) h

/-! ## Types of classes come from their members -/

/-- What is known of a class is what one of its members was made with, when nothing is coerced. -/
theorem exists_member (hplain : ∀ step ∈ steps, step.1.strength = .widest → step.1.coercion = none)
    (h : (start initial).run profile steps = .ok t) (i : Nat) :
    ∃ j, Connected steps i j ∧ t.infoOf i = initial j := by
  induction steps using List.reverseRecOn generalizing t i with
  | nil =>
    cases h
    exact ⟨i, .refl _ i, rfl⟩
  | append_singleton done step ih =>
    have hsub : done ⊆ done ++ [step] := List.subset_append_left _ _
    have hrun := h
    rw [run_snoc] at h
    rcases bind_eq_ok.1 h with ⟨s, hs, hstep⟩
    have hmember : ∀ x, ∃ j, Connected (done ++ [step]) x j ∧ s.infoOf x = initial j := by
      intro x
      rcases ih (fun other hmem => hplain other (hsub hmem)) hs x with ⟨j, hj, hinfo⟩
      exact ⟨j, hj.mono hsub, hinfo⟩
    rcases merge_cases profile s step hstep with ⟨rfl, -⟩ | ⟨info, -, hmerge, rfl⟩
    · exact hmember i
    · rw [infoOf_join]
      by_cases hi : s.label i = s.label step.2.1.id ∨ s.label i = s.label step.2.2.id
      · rw [if_pos hi]
        have hjoined : ∀ x, s.label x = s.label step.2.1.id ∨ s.label x = s.label step.2.2.id →
            Connected (done ++ [step]) i x :=
          fun x hx => connected_of_same hrun ((join_same i x).2 (Or.inr ⟨hi, hx⟩))
        rcases TypeInfo.merge?_eq_or (hplain step (by simp)) hmerge with rfl | rfl
        · rcases hmember step.2.1.id with ⟨j, hj, hinfo⟩
          exact ⟨j, (hjoined _ (Or.inl rfl)).trans hj, hinfo⟩
        · rcases hmember step.2.2.id with ⟨j, hj, hinfo⟩
          exact ⟨j, (hjoined _ (Or.inr rfl)).trans hj, hinfo⟩
      · rw [if_neg hi]
        exact hmember i

/-- Merging leaves no variable outside of some types when it was made with one of them and so were all
variables of the equations. -/
theorem stays_among {V : TypeInfo → Prop}
    (hplain : ∀ step ∈ steps, step.1.strength = .widest → step.1.coercion = none)
    (hV : ∀ step ∈ steps, V (initial step.2.1.id) ∧ V (initial step.2.2.id))
    (h : (start initial).run profile steps = .ok t) (hi : V (initial i)) : V (t.infoOf i) := by
  rcases exists_member hplain h i with ⟨j, hij, hinfo⟩
  rw [hinfo]
  rcases hij.eq_or_both (Q := fun id => V (initial id)) hV with rfl | ⟨-, hj⟩
  · exact hi
  · exact hj

/-- When every merge takes a property over from either side, a class has it as soon as a member was made
with it. Merges count only between some types, if all variables of the equations are of these. -/
theorem holds_of_member {V P : TypeInfo → Prop}
    (hplain : ∀ step ∈ steps, step.1.strength = .widest → step.1.coercion = none)
    (hV : ∀ step ∈ steps, V (initial step.2.1.id) ∧ V (initial step.2.2.id))
    (hP : ∀ step ∈ steps, ∀ left right info, V left → V right →
      TypeInfo.merge? profile step.1.strength step.1.coercion left right = some info →
      P left ∨ P right → P info)
    (h : (start initial).run profile steps = .ok t) (hsame : t.label i = t.label j)
    (hj : P (initial j)) : P (t.infoOf i) := by
  induction steps using List.reverseRecOn generalizing t i j with
  | nil =>
    cases h
    have hij : i = j := hsame
    exact hij ▸ hj
  | append_singleton done step ih =>
    have hsub : done ⊆ done ++ [step] := List.subset_append_left _ _
    have hmem : step ∈ done ++ [step] := by simp
    rw [run_snoc] at h
    rcases bind_eq_ok.1 h with ⟨s, hs, hstep⟩
    have hplainDone := fun other hother => hplain other (hsub hother)
    have hVDone := fun other hother => hV other (hsub hother)
    have hold : ∀ {x y}, s.label x = s.label y → P (initial y) → P (s.infoOf x) :=
      ih hplainDone hVDone (fun other hother => hP other (hsub hother)) hs
    have hleft : V (s.infoOf step.2.1.id) := stays_among hplainDone hVDone hs (hV step hmem).1
    have hright : V (s.infoOf step.2.2.id) := stays_among hplainDone hVDone hs (hV step hmem).2
    rcases merge_cases profile s step hstep with ⟨rfl, -⟩ | ⟨info, -, hmerge, rfl⟩
    · exact hold hsame hj
    · rw [infoOf_join]
      -- a member of either old class has brought the property into that class already
      have hinfo : s.label j = s.label step.2.1.id ∨ s.label j = s.label step.2.2.id → P info := by
        intro hside
        refine hP step hmem _ _ info hleft hright hmerge ?_
        rcases hside with hside | hside
        · exact Or.inl (hold hside.symm hj)
        · exact Or.inr (hold hside.symm hj)
      by_cases hi : s.label i = s.label step.2.1.id ∨ s.label i = s.label step.2.2.id
      · rw [if_pos hi]
        rcases (join_same i j).1 hsame with hsame | ⟨-, hside⟩
        · exact hinfo (hsame ▸ hi)
        · exact hinfo hside
      · rw [if_neg hi]
        rcases (join_same i j).1 hsame with hsame | ⟨hside, -⟩
        · exact hold hsame hj
        · exact absurd hside hi

end Classes

/-! ## Constraints in another order -/

namespace TypeTerm

mutual

/-- Exchanging two terms exchanges the sides of their equations. -/
theorem equations_swap : ∀ left right : TypeTerm,
    right.equations left = (left.equations right).map Prod.swap
  | .var v, .var w => rfl
  | .var v, .tuple items => by
    rw [equations, equations, List.map_map]
    rfl
  | .tuple items, .var w => by
    rw [equations, equations, List.map_map]
    rfl
  | .tuple lefts, .tuple rights => equationsOfAll_swap lefts rights

theorem equationsOfAll_swap : ∀ lefts rights : List TypeTerm,
    equationsOfAll rights lefts = (equationsOfAll lefts rights).map Prod.swap
  | left :: lefts, right :: rights => by
    rw [equationsOfAll, equationsOfAll, List.map_append, equations_swap left right,
      equationsOfAll_swap lefts rights]
  | [], [] => rfl
  | [], _ :: _ => rfl
  | _ :: _, [] => rfl

end

end TypeTerm

/-- The same constraint with its sides exchanged. -/
def Constraint.swap (c : Constraint) : Constraint := { c with left := c.right, right := c.left }

theorem Constraint.equations_swap (c : Constraint) :
    c.swap.equations = c.equations.map Prod.swap :=
  TypeTerm.equations_swap c.left c.right

/-- A constraint as it is or with its sides exchanged. -/
def Constraint.Turned (c d : Constraint) : Prop := d = c ∨ d = c.swap

theorem Constraint.Turned.symm {c d : Constraint} (h : c.Turned d) : d.Turned c := by
  rcases h with rfl | rfl
  · exact Or.inl rfl
  · exact Or.inr rfl

/-- The same constraints in any order, some of them with their sides exchanged. -/
def Reordered (constraints other : List Constraint) : Prop :=
  ∃ turned, List.Forall₂ Constraint.Turned constraints turned ∧ turned.Perm other

namespace Reordered

variable {constraints other : List Constraint}

theorem symm (h : Reordered constraints other) : Reordered other constraints := by
  rcases h with ⟨turned, hturned, hperm⟩
  have hback : List.Forall₂ Constraint.Turned turned constraints :=
    hturned.flip.imp fun _ _ h => Constraint.Turned.symm h
  exact List.perm_comp_forall₂ hperm.symm hback

/-- Every constraint comes from one of the constraints before. -/
theorem exists_turned (h : Reordered constraints other) {d : Constraint} (hd : d ∈ other) :
    ∃ c ∈ constraints, c.Turned d := by
  rcases h with ⟨turned, hturned, hperm⟩
  exact exists_partner hturned (hperm.mem_iff.2 hd)

/-- What a constraint has with either side on the left, all constraints keep. -/
theorem forall_of_swap {P : Constraint → Prop} (h : Reordered constraints other)
    (hswap : ∀ c, P c → P c.swap) (hP : ∀ c ∈ constraints, P c) : ∀ d ∈ other, P d := by
  intro d hd
  rcases h.exists_turned hd with ⟨c, hc, rfl | rfl⟩
  · exact hP d hc
  · exact hswap c (hP c hc)

/-- Constraints in another order have the same variables. -/
theorem mem_variablesOf (h : Reordered constraints other) {v : TypeVar} (hv : v ∈ variablesOf other) :
    v ∈ variablesOf constraints := by
  rcases List.mem_flatMap.1 hv with ⟨d, hd, hv⟩
  rcases h.exists_turned hd with ⟨c, hc, rfl | rfl⟩
  · exact List.mem_flatMap.2 ⟨d, hc, hv⟩
  · refine List.mem_flatMap.2 ⟨c, hc, ?_⟩
    exact List.mem_append.2 (List.mem_append.1 hv).symm

theorem connected (h : Reordered constraints other) {i j : Nat}
    (hij : Connected (equationsOf other) i j) : Connected (equationsOf constraints) i j := by
  refine hij.rec_equivalence (Connected.equivalence _) fun step hstep => ?_
  rcases List.mem_flatMap.1 hstep with ⟨d, hd, hstep⟩
  rcases List.mem_map.1 hstep with ⟨pair, hpair, rfl⟩
  have hmem : ∀ c ∈ constraints, ∀ pair ∈ c.equations, (c, pair) ∈ equationsOf constraints :=
    fun c hc pair hpair => List.mem_flatMap.2 ⟨c, hc, List.mem_map.2 ⟨pair, hpair, rfl⟩⟩
  rcases h.exists_turned hd with ⟨c, hc, rfl | rfl⟩
  · exact .of_mem (hmem d hc pair hpair)
  · rw [Constraint.equations_swap] at hpair
    rcases List.mem_map.1 hpair with ⟨back, hback, rfl⟩
    exact (Connected.of_mem (hmem c hc back hback)).symm

/-- Constraints in another order connect the same variables. -/
theorem connected_iff (h : Reordered constraints other) {i j : Nat} :
    Connected (equationsOf other) i j ↔ Connected (equationsOf constraints) i j :=
  ⟨h.connected, h.symm.connected⟩

end Reordered

/-- A list from the last constraint to the first, with all sides exchanged. -/
theorem reordered_swap_reverse (constraints : List Constraint) :
    Reordered constraints (constraints.map Constraint.swap).reverse := by
  refine ⟨constraints.map Constraint.swap, ?_, (List.reverse_perm _).symm⟩
  exact List.forall₂_map_right_iff.2 (List.forall₂_same.2 fun _ _ => Or.inr rfl)

end QuerySignature
