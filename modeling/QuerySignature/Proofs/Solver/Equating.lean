import QuerySignature.Proofs.Solver.Components

namespace QuerySignature

/-! # Equating in any order

An equation can hold between types of one group: numeric types and `number`, text and points in time,
binary types, JSON. Every merge stays in the group of both its sides, so whether strict constraints can
be solved does not depend on their order; it depends on the groups that meet in a component.

- `TypeInfo.equate_eq_none_iff`: two types clash exactly when they are of different groups.
- `Classes.holds_iff_member`: what an equation takes over from either side, a class has exactly when a
  member was made with it.
- `Classes.run_isOk_iff`: equations can be solved exactly when every component has one group.
- `solve_strict_any_order`: the order of strict constraints and the side of their terms change neither
  whether they can be solved nor the family of any variable.
-/

/-- The groups of types that can be equated with one another. -/
inductive TypeGroup where
  | numeric
  | textual
  | binary
  | json
  deriving DecidableEq, Repr

/-- The group of a family; text and points in time compare. -/
def TypeFamily.group : TypeFamily → TypeGroup
  | numeric => .numeric
  | text | temporal => .textual
  | binary => .binary
  | json => .json

namespace SqlType

theorem compatible_iff_group {a b : SqlType} :
    a.compatible b = true ↔ a.family.group = b.family.group := by
  unfold compatible
  cases a.family <;> cases b.family <;> decide

theorem isNumeric_iff_group {t : SqlType} : t.isNumeric = true ↔ t.family.group = .numeric := by
  unfold isNumeric
  cases t.family <;> decide

end SqlType

/-! ## Equating two types -/

namespace TypeInfo

/-- The family of what is known, unless nothing is. -/
def family? : TypeInfo → Option TypeFamily
  | exact t => some t.family
  | number => some .numeric
  | unknown => none

/-- The group of what is known, unless nothing is. -/
def group? (info : TypeInfo) : Option TypeGroup := info.family?.map TypeFamily.group

variable {left right info : TypeInfo} {g : TypeGroup}

@[simp] theorem group?_exact (t : SqlType) : (exact t).group? = some t.family.group := rfl

@[simp] theorem group?_number : number.group? = some .numeric := rfl

@[simp] theorem group?_unknown : unknown.group? = none := rfl

theorem group?_eq_none_iff : info.group? = none ↔ info = unknown := by
  cases info <;> simp

/-- Two types clash exactly when both are known and they are of different groups. -/
theorem equate_eq_none_iff : equate left right = none ↔
    ∃ g g', left.group? = some g ∧ right.group? = some g' ∧ g ≠ g' := by
  cases left with
  | unknown => simp
  | number =>
    cases right with
    | unknown => simp
    | number => simp
    | exact t =>
      have hiff : ¬ t.family.group = .numeric ↔ ¬ TypeGroup.numeric = t.family.group :=
        not_congr eq_comm
      simpa [equate, SqlType.isNumeric_iff_group] using hiff
  | exact a =>
    cases right with
    | unknown => simp
    | number => simp [equate, SqlType.isNumeric_iff_group]
    | exact b =>
      by_cases hgroup : a.family.group = b.family.group
      · simp only [equate, SqlType.compatible_iff_group, hgroup, if_true, group?_exact]
        split <;> simp
      · simp [equate, SqlType.compatible_iff_group, hgroup]

/-- Two types that can be equated are of one group. -/
theorem group_eq_of_equate (h : equate left right = some info) {g g' : TypeGroup}
    (hleft : left.group? = some g) (hright : right.group? = some g') : g = g' := by
  by_contra hne
  rw [equate_eq_none_iff.2 ⟨g, g', hleft, hright, hne⟩] at h
  cases h

/-- An equation stays in the group of either side. -/
theorem group_of_equate (h : equate left right = some info)
    (hg : left.group? = some g ∨ right.group? = some g) : info.group? = some g := by
  cases hleft : left.group? with
  | none =>
    rw [group?_eq_none_iff] at hleft
    subst hleft
    rw [equate_unknown_left, Option.some.injEq] at h
    exact h ▸ hg.resolve_left (by simp)
  | some l =>
    cases hright : right.group? with
    | none =>
      rw [group?_eq_none_iff] at hright
      subst hright
      rw [equate_unknown_right, Option.some.injEq] at h
      exact h ▸ hg.resolve_right (by simp)
    | some r =>
      have hsame := group_eq_of_equate h hleft hright
      have hl : l = g := by
        rcases hg with hg | hg
        · exact Option.some.inj (hleft.symm.trans hg)
        · exact hsame.trans (Option.some.inj (hright.symm.trans hg))
      rcases equate_eq_or h with rfl | rfl
      · exact hl ▸ hleft
      · exact hl ▸ hsame ▸ hright

theorem group_of_temporal (h : info.family? = some .temporal) : info.group? = some .textual := by
  rw [group?, h]
  rfl

/-- A point in time wins over text, on either side. -/
theorem temporal_of_equate (h : equate left right = some info)
    (htemporal : left.family? = some .temporal ∨ right.family? = some .temporal) :
    info.family? = some .temporal := by
  cases left with
  | unknown =>
    rw [equate_unknown_left, Option.some.injEq] at h
    exact h ▸ htemporal.resolve_left (by simp [family?])
  | number =>
    have hright := htemporal.resolve_left (by simp [family?])
    cases group_eq_of_equate h rfl (group_of_temporal hright)
  | exact a =>
    cases right with
    | unknown =>
      rw [equate_unknown_right, Option.some.injEq] at h
      exact h ▸ htemporal.resolve_right (by simp [family?])
    | number =>
      have hleft := htemporal.resolve_right (by simp [family?])
      cases group_eq_of_equate h (group_of_temporal hleft) rfl
    | exact b =>
      have hgroup : a.family.group = b.family.group := group_eq_of_equate h rfl rfl
      simp only [equate, SqlType.compatible_iff_group.2 hgroup, if_true] at h
      simp only [family?, Option.some.injEq] at htemporal
      by_cases hwins : (b.family == .temporal && a.family == .text) = true
      · rw [if_pos hwins] at h
        cases h
        rw [Bool.and_eq_true, beq_iff_eq] at hwins
        exact congrArg some hwins.1
      · rw [if_neg hwins] at h
        cases h
        refine congrArg some ?_
        revert hgroup htemporal hwins
        cases a.family <;> cases b.family <;> decide

/-- The family is known from the group and from whether it is temporal. -/
theorem family?_eq_of_group {a b : TypeInfo} (hgroup : ∀ g, a.group? = some g ↔ b.group? = some g)
    (htemporal : a.family? = some .temporal ↔ b.family? = some .temporal) :
    a.family? = b.family? := by
  have hgroup := Option.ext hgroup
  unfold group? at hgroup
  revert hgroup htemporal
  rcases a.family? with _ | x <;> rcases b.family? with _ | y
  · exact fun _ _ => rfl
  · exact fun _ h => nomatch h
  · exact fun _ h => nomatch h
  · cases x <;> cases y <;> decide

end TypeInfo

/-- In every connected component, all known types are of one group. -/
def OneGroup (initial : Nat → TypeInfo) (steps : List Equation) : Prop :=
  ∀ i, ∃ g, ∀ j, Connected steps i j → initial j ≠ .unknown → (initial j).group? = some g

theorem OneGroup.eq {initial : Nat → TypeInfo} {steps : List Equation} (h : OneGroup initial steps)
    {i j : Nat} (hij : Connected steps i j) {g g' : TypeGroup}
    (hi : (initial i).group? = some g) (hj : (initial j).group? = some g') : g = g' := by
  rcases h i with ⟨common, hcommon⟩
  have known : ∀ {j g}, (initial j).group? = some g → initial j ≠ .unknown := by
    rintro j g hg heq
    rw [heq] at hg
    cases hg
  have hi' := hcommon i (.refl steps i) (known hi)
  have hj' := hcommon j hij (known hj)
  exact Option.some.inj ((hi.symm.trans hi').trans (hj'.symm.trans hj))

/-! ## Runs of equations -/

namespace Classes

variable {profile : Profile} {initial : Nat → TypeInfo} {steps : List Equation} {s t : Classes}
  {i : Nat}

/-- What an equation takes over from either side, a class has exactly when one of its members was made
with it. -/
theorem holds_iff_member {P : TypeInfo → Prop} (hstrict : ∀ step ∈ steps, step.1.strength = .strict)
    (hP : ∀ {left right info}, TypeInfo.equate left right = some info → P left ∨ P right → P info)
    (h : (start initial).run profile steps = .ok t) :
    P (t.infoOf i) ↔ ∃ j, Connected steps i j ∧ P (initial j) := by
  have hplain : ∀ step ∈ steps, step.1.strength = .widest → step.1.coercion = none := by
    intro step hmem hwidest
    rw [hstrict step hmem] at hwidest
    cases hwidest
  have hbinding : ∀ step ∈ steps, step.1.strength ≠ .bestEffort := by
    intro step hmem
    simp [hstrict step hmem]
  constructor
  · intro hi
    rcases exists_member hplain h i with ⟨j, hj, hinfo⟩
    exact ⟨j, hj, hinfo ▸ hi⟩
  · rintro ⟨j, hij, hj⟩
    refine holds_of_member (V := fun _ => True) hplain (fun _ _ => ⟨trivial, trivial⟩) ?_ h
      ((same_iff_connected hbinding h).2 hij) hj
    intro step hmem left right info _ _ hmerge
    rw [hstrict step hmem] at hmerge
    exact hP hmerge

theorem group_infoOf_iff (hstrict : ∀ step ∈ steps, step.1.strength = .strict)
    (h : (start initial).run profile steps = .ok t) {g : TypeGroup} :
    (t.infoOf i).group? = some g ↔ ∃ j, Connected steps i j ∧ (initial j).group? = some g :=
  holds_iff_member (P := fun info => info.group? = some g) hstrict TypeInfo.group_of_equate h

theorem temporal_infoOf_iff (hstrict : ∀ step ∈ steps, step.1.strength = .strict)
    (h : (start initial).run profile steps = .ok t) :
    (t.infoOf i).family? = some .temporal ↔
      ∃ j, Connected steps i j ∧ (initial j).family? = some .temporal :=
  holds_iff_member (P := fun info => info.family? = some .temporal) hstrict
    TypeInfo.temporal_of_equate h

/-- Strict equations can be solved exactly when every connected component has one group. -/
theorem run_isOk_iff (hstrict : ∀ step ∈ steps, step.1.strength = .strict) :
    ((start initial).run profile steps).isOk = true ↔ OneGroup initial steps := by
  constructor
  · intro hok
    rcases exists_of_isOk hok with ⟨t, h⟩
    intro i
    have hmember : ∀ {j g}, Connected steps i j → (initial j).group? = some g →
        (t.infoOf i).group? = some g :=
      fun hij hj => (group_infoOf_iff hstrict h).2 ⟨_, hij, hj⟩
    -- the group is the one that the class has in the end; a class without one has no known member
    cases hi : (t.infoOf i).group? with
    | some g =>
      refine ⟨g, fun j hij hknown => ?_⟩
      rcases Option.ne_none_iff_exists'.1 (mt TypeInfo.group?_eq_none_iff.1 hknown) with ⟨g', hj⟩
      rw [← hi, hmember hij hj, hj]
    | none =>
      refine ⟨.json, fun j hij hknown => ?_⟩
      rcases Option.ne_none_iff_exists'.1 (mt TypeInfo.group?_eq_none_iff.1 hknown) with ⟨g', hj⟩
      rw [hmember hij hj] at hi
      cases hi
  · intro hone
    cases h : (start initial).run profile steps with
    | ok t => rfl
    | error e =>
      rcases exists_step_of_error h with ⟨done, step, rest, s, rfl, hdone, hstep⟩
      have hmem : step ∈ done ++ step :: rest := by simp
      have hsub : done ⊆ done ++ step :: rest := List.subset_append_left _ _
      have hstrictDone := fun other hother => hstrict other (hsub hother)
      rcases strict_of_error hstep with ⟨hstrictStep, hclash⟩
      rw [hstrictStep] at hclash
      rcases TypeInfo.equate_eq_none_iff.1 hclash with ⟨g, g', hleft, hright, hne⟩
      rcases (group_infoOf_iff hstrictDone hdone).1 hleft with ⟨i, hi, hgi⟩
      rcases (group_infoOf_iff hstrictDone hdone).1 hright with ⟨j, hj, hgj⟩
      -- the members that brought the two groups in are in one component
      have hij : Connected (done ++ step :: rest) i j :=
        ((hi.mono hsub).symm.trans (.of_mem hmem)).trans (hj.mono hsub)
      exact absurd (hone.eq hij hgi hgj) hne

end Classes

/-! ## Any order -/

theorem strict_of_mem_equationsOf {constraints : List Constraint}
    (hstrict : ∀ c ∈ constraints, c.strength = .strict) :
    ∀ step ∈ equationsOf constraints, step.1.strength = .strict :=
  fun _ hstep => hstrict _ (mem_variablesOf_of_mem_equationsOf hstep).1

theorem OneGroup.reordered {initial : Nat → TypeInfo} {constraints other : List Constraint}
    (h : Reordered constraints other) :
    OneGroup initial (equationsOf other) ↔ OneGroup initial (equationsOf constraints) := by
  unfold OneGroup
  simp only [h.connected_iff]

section

variable {profile : Profile} {initial : Nat → TypeInfo} {constraints other : List Constraint}

theorem solve_strict_isOk_iff (profile : Profile) (hstrict : ∀ c ∈ constraints, c.strength = .strict)
    (hcarries : ∀ v ∈ variablesOf constraints, v.Carries initial) :
    (solve profile constraints).isOk = true ↔ OneGroup initial (equationsOf constraints) := by
  rw [(solve_alike profile (carries_of_mem_equationsOf hcarries)).isOk_eq,
    Classes.run_isOk_iff (strict_of_mem_equationsOf hstrict)]

/-- The group and the family of a variable, after strict constraints, come from its component. -/
theorem infoOf_of_solve_strict (hstrict : ∀ c ∈ constraints, c.strength = .strict)
    (hcarries : ∀ v ∈ variablesOf constraints, v.Carries initial) {solution : Solution}
    (hsolved : solve profile constraints = .ok solution) {v : TypeVar} (hv : v.Carries initial) :
    (∀ g, (solution.infoOf v).group? = some g ↔
        ∃ id, Connected (equationsOf constraints) v.id id ∧ (initial id).group? = some g) ∧
      ((solution.infoOf v).family? = some .temporal ↔
        ∃ id, Connected (equationsOf constraints) v.id id ∧
          (initial id).family? = some .temporal) := by
  have hstrictSteps := strict_of_mem_equationsOf hstrict
  rcases exists_classes (carries_of_mem_equationsOf hcarries) hsolved with ⟨t, ht, hinfo⟩
  rw [hinfo v hv]
  exact ⟨fun _ => Classes.group_infoOf_iff hstrictSteps ht,
    Classes.temporal_infoOf_iff hstrictSteps ht⟩

/-- Strict constraints, in which every variable always carries one type, can be solved exactly when the
known types of every connected component are of one group. So they are solved or refused alike in any
order and with the sides of any of them exchanged, and every variable has the same family then; it is
temporal exactly when a variable connected to it is. -/
theorem solve_strict_any_order (profile : Profile) {initial : Nat → TypeInfo}
    {constraints : List Constraint} (hstrict : ∀ c ∈ constraints, c.strength = .strict)
    (hcarries : ∀ v ∈ variablesOf constraints, v.Carries initial) :
    ((solve profile constraints).isOk = true ↔ OneGroup initial (equationsOf constraints)) ∧
      (∀ other, Reordered constraints other →
        (solve profile other).isOk = (solve profile constraints).isOk ∧
        ∀ solution solution', solve profile constraints = .ok solution →
          solve profile other = .ok solution' → ∀ v : TypeVar, v.Carries initial →
            (solution'.infoOf v).family? = (solution.infoOf v).family?) ∧
      ∀ solution, solve profile constraints = .ok solution → ∀ v : TypeVar, v.Carries initial →
        ((solution.infoOf v).family? = some .temporal ↔
          ∃ id, Connected (equationsOf constraints) v.id id ∧
            (initial id).family? = some .temporal) := by
  refine ⟨solve_strict_isOk_iff profile hstrict hcarries, fun other hother => ?_, ?_⟩
  · have hstrictOther : ∀ c ∈ other, c.strength = .strict :=
      hother.forall_of_swap (fun _ hc => hc) hstrict
    have hcarriesOther : ∀ v ∈ variablesOf other, v.Carries initial :=
      fun v hv => hcarries v (hother.mem_variablesOf hv)
    refine ⟨?_, fun solution solution' hsolved hsolved' v hv => ?_⟩
    · rw [Bool.eq_iff_iff, solve_strict_isOk_iff profile hstrictOther hcarriesOther,
        solve_strict_isOk_iff profile hstrict hcarries, OneGroup.reordered hother]
    · rcases infoOf_of_solve_strict hstrict hcarries hsolved hv with ⟨hgroup, htemporal⟩
      rcases infoOf_of_solve_strict hstrictOther hcarriesOther hsolved' hv with
        ⟨hgroup', htemporal'⟩
      refine TypeInfo.family?_eq_of_group (fun g => ?_) ?_
      · rw [hgroup, hgroup']
        simp only [hother.connected_iff]
      · rw [htemporal, htemporal']
        simp only [hother.connected_iff]
  · intro solution hsolved v hv
    exact (infoOf_of_solve_strict hstrict hcarries hsolved hv).2

/-- The types of a placeholder, a text, a date, a number and an integer. -/
def datedTypes : Nat → TypeInfo
  | 2 => .exact .varchar
  | 3 => .exact .date
  | 4 => .number
  | 5 => .exact .int
  | _ => .unknown

/-- `(?, n) = ('a', m)` and `d = ?`. -/
def datedRows : List Constraint :=
  let v := fun id => TypeTerm.var (.made datedTypes id)
  [.strict "(?, n) = ('a', m)" (.tuple [v 1, v 4]) (.tuple [v 2, v 5]), .strict "d = ?" (v 3) (v 1)]

/-- `? = d` and `('a', m) = (?, n)`. -/
def datedRowsBack : List Constraint := (datedRows.map Constraint.swap).reverse

theorem solve_strict_any_order_datedRows :
    (∀ c ∈ datedRows, c.strength = .strict) ∧ (∀ v ∈ variablesOf datedRows, v.Carries datedTypes) ∧
      OneGroup datedTypes (equationsOf datedRows) ∧ Reordered datedRows datedRowsBack ∧
      ∃ solution, solve .mysql datedRowsBack = .ok solution ∧
        (solution.infoOf (.made datedTypes 2)).family? = some .temporal := by
  have hstrict : ∀ c ∈ datedRows, c.strength = .strict := by decide
  have hcarries : ∀ v ∈ variablesOf datedRows, v.Carries datedTypes := by decide
  have hback := reordered_swap_reverse datedRows
  have hsolved : solve .mysql datedRows = .ok ⟨[(1, .exact .date), (2, .exact .date),
      (4, .exact .int), (5, .exact .int), (3, .exact .date)]⟩ := by
    decide
  rcases solve_strict_any_order .mysql hstrict hcarries with ⟨hone, hany, -⟩
  rcases hany datedRowsBack hback with ⟨hok, hfamily⟩
  have hokBack : (solve .mysql datedRowsBack).isOk = true := by
    rw [hok, hsolved]
    rfl
  rcases exists_of_isOk hokBack with ⟨solution, hsolvedBack⟩
  refine ⟨hstrict, hcarries, hone.1 (by rw [hsolved]; rfl), hback, solution, hsolvedBack, ?_⟩
  rw [hfamily _ solution hsolved hsolvedBack (.made datedTypes 2) rfl]
  decide

end

end QuerySignature
