import Mathlib.Data.Nat.Find
import QuerySignature.Proofs.Solver.Agreement

namespace QuerySignature

/-! # Classes that stay numeric

An equation keeps its two sides within a family, and what a coercion makes of a side is numeric or
unknown. So once a class is numeric, only a widening that takes its sides as they are can take it to
a type that is not.

- `TypeInfo.isNumeric_of_merge?`: what two sides become is numeric if one of them is.
- `Classes.isNumeric_of_run`: equations other than plain widenings leave a class numeric.
- `isNumeric_typeOf_iff`: a variable made as a number has a numeric type at the end if and only if no
  plain widening takes it out of the numeric types for good.
- `infoOf_of_widening`: two variables that are widened with each other have one type.
-/

/-! ## Types -/

/-- Whether a number is known, of whatever type. -/
def TypeInfo.isNumeric : TypeInfo → Bool
  | exact t => t.isNumeric
  | number => true
  | unknown => false

/-- A widening that takes its sides as they are. -/
def Constraint.isPlainWidening (c : Constraint) : Bool :=
  c.strength == .widest && c.coercion.isNone

/-- A profile in which numbers of which no more is known, and sums of integers, have a numeric type,
and in which a text has none. -/
structure Profile.CountsInNumbers (profile : Profile) : Prop where
  float : profile.floatType.isNumeric = true
  sumInteger : profile.sumIntegerType.isNumeric = true
  text : profile.textType.isNumeric = false

theorem Dialect.countsInNumbers (d : Dialect) : (Profile.ofDialect d).CountsInNumbers := by
  cases d with
  | mysql => exact ⟨rfl, rfl, rfl⟩
  | sqlite => exact ⟨rfl, rfl, rfl⟩

theorem SqlType.isNumeric_of_compatible {a b : SqlType} (h : a.compatible b = true)
    (hnumeric : a.isNumeric = true ∨ b.isNumeric = true) :
    a.isNumeric = true ∧ b.isNumeric = true := by
  simp only [compatible, isNumeric, Bool.or_eq_true, Bool.and_eq_true, beq_iff_eq] at h hnumeric ⊢
  -- a numeric type is neither a text nor a point in time
  rcases h with (h | ⟨ha, hb⟩) | ⟨ha, hb⟩
  · rw [h] at hnumeric ⊢
    exact ⟨hnumeric.elim id id, hnumeric.elim id id⟩
  · rcases hnumeric with hnumeric | hnumeric
    · cases ha.symm.trans hnumeric
    · cases hb.symm.trans hnumeric
  · rcases hnumeric with hnumeric | hnumeric
    · cases ha.symm.trans hnumeric
    · cases hb.symm.trans hnumeric

namespace TypeInfo

variable {profile : Profile} {left right info : TypeInfo}

/-- Two sides of an equation that holds are numeric together. -/
theorem isNumeric_of_equate (h : equate left right = some info)
    (hnumeric : left.isNumeric = true ∨ right.isNumeric = true) : info.isNumeric = true := by
  revert h
  fun_cases equate left right with
  | case1 =>
    rintro ⟨⟩
    exact hnumeric.resolve_left Bool.false_ne_true
  | case2 =>
    rintro ⟨⟩
    exact hnumeric.resolve_right Bool.false_ne_true
  | case3 =>
    rintro ⟨⟩
    rfl
  | case4 t ht =>
    rintro ⟨⟩
    exact ht
  | case5 => rintro ⟨⟩
  | case6 t ht =>
    rintro ⟨⟩
    exact ht
  | case7 => rintro ⟨⟩
  | case8 a b hcompatible =>
    rintro ⟨⟩
    exact (SqlType.isNumeric_of_compatible hcompatible hnumeric).2
  | case9 a b hcompatible =>
    rintro ⟨⟩
    exact (SqlType.isNumeric_of_compatible hcompatible hnumeric).1
  | case10 => rintro ⟨⟩

/-- The type of a sum is numeric, whatever is summed. -/
theorem isNumeric_sumType (hprofile : profile.CountsInNumbers) (t : SqlType) :
    (sumType profile t).isNumeric = true := by
  fun_cases sumType profile t with
  | case8 => rfl
  | case9 => rfl
  | case10 => exact hprofile.float
  | _ => exact hprofile.sumInteger

/-- A coercion makes a numeric type of every type. -/
theorem isNumeric_coerce_exact (hprofile : profile.CountsInNumbers) (coercion : Coercion)
    (t : SqlType) : (coerce profile (some coercion) (exact t)).isNumeric = true := by
  cases coercion with
  | sumFunction => exact isNumeric_sumType hprofile t
  | sum =>
    by_cases ht : t.isNumeric = true
    · simp only [coerce, if_pos ht]
      exact ht
    · simp only [coerce, if_neg ht]
      exact hprofile.float

theorem isNumeric_coerce (hprofile : profile.CountsInNumbers) (coercion : Coercion)
    (h : info.isNumeric = true) : (coerce profile (some coercion) info).isNumeric = true := by
  cases info with
  | exact t => exact isNumeric_coerce_exact hprofile coercion t
  | number => rfl
  | unknown => cases h

/-- What a coercion makes of a side is numeric, unless nothing is known of it. -/
theorem coerce_eq_unknown_or (hprofile : profile.CountsInNumbers) (coercion : Coercion)
    (info : TypeInfo) : coerce profile (some coercion) info = unknown ∨
      (coerce profile (some coercion) info).isNumeric = true := by
  cases info with
  | exact t => exact .inr (isNumeric_coerce_exact hprofile coercion t)
  | number => exact .inr rfl
  | unknown => exact .inl rfl

/-- The wider of two sides is numeric if one of them is and the other is not of another type. -/
theorem isNumeric_widest (hleft : left = unknown ∨ left.isNumeric = true)
    (hright : right = unknown ∨ right.isNumeric = true)
    (hnumeric : left.isNumeric = true ∨ right.isNumeric = true) :
    (widest profile left right).isNumeric = true := by
  rcases hleft with rfl | hleft
  · rw [widest]
    exact hnumeric.resolve_left Bool.false_ne_true
  · rcases hright with rfl | hright
    · have hsame : widest profile left unknown = left := by cases left <;> rfl
      rw [hsame]
      exact hleft
    · rcases widest_eq_or profile left right with heq | heq
      · rw [heq]
        exact hleft
      · rw [heq]
        exact hright

/-- What two sides become is numeric if one of them is, but for a plain widening. -/
theorem isNumeric_of_merge? (hprofile : profile.CountsInNumbers) {strength : Strength}
    {coercion : Option Coercion} (hplain : strength = .widest → coercion ≠ none)
    (h : merge? profile strength coercion left right = some info)
    (hnumeric : left.isNumeric = true ∨ right.isNumeric = true) : info.isNumeric = true := by
  cases strength with
  | strict => exact isNumeric_of_equate h hnumeric
  | bestEffort => exact isNumeric_of_equate h hnumeric
  | widest =>
    obtain ⟨c, rfl⟩ := Option.ne_none_iff_exists'.1 (hplain rfl)
    cases h
    refine isNumeric_widest (coerce_eq_unknown_or hprofile c left)
      (coerce_eq_unknown_or hprofile c right) ?_
    exact hnumeric.imp (isNumeric_coerce hprofile c) (isNumeric_coerce hprofile c)

end TypeInfo

/-! ## Classes -/

theorem Constraint.isPlainWidening_eq_false_iff {c : Constraint} :
    c.isPlainWidening = false ↔ (c.strength = .widest → c.coercion ≠ none) := by
  simp [isPlainWidening, ← Bool.not_eq_true, Option.isNone_iff_eq_none]

namespace Classes

variable {profile : Profile} {s t : Classes} {step : Equation} {id : Nat}

/-- One equation that is no plain widening. -/
theorem isNumeric_of_merge (hprofile : profile.CountsInNumbers)
    (hplain : step.1.isPlainWidening = false) (hs : (s.infoOf id).isNumeric = true)
    (h : s.merge profile step = .ok t) : (t.infoOf id).isNumeric = true := by
  rcases merge_cases profile s step h with ⟨rfl, -⟩ | ⟨info, -, hmerge, rfl⟩
  · exact hs
  · rw [infoOf_join]
    split
    · next hjoined =>
      -- the class is one of the two sides
      have hside : (s.infoOf step.2.1.id).isNumeric = true ∨
          (s.infoOf step.2.2.id).isNumeric = true := by
        rcases hjoined with heq | heq
        · exact .inl (infoOf_of_same heq ▸ hs)
        · exact .inr (infoOf_of_same heq ▸ hs)
      exact TypeInfo.isNumeric_of_merge? hprofile
        (Constraint.isPlainWidening_eq_false_iff.1 hplain) hmerge hside
    · exact hs

/-- Equations among which there is no plain widening. -/
theorem isNumeric_of_run (hprofile : profile.CountsInNumbers) {steps : List Equation}
    (hplain : ∀ step ∈ steps, step.1.isPlainWidening = false) (hs : (s.infoOf id).isNumeric = true)
    (h : s.run profile steps = .ok t) : (t.infoOf id).isNumeric = true := by
  induction steps generalizing s with
  | nil =>
    cases h
    exact hs
  | cons step rest ih =>
    rw [run_cons] at h
    rcases bind_eq_ok.1 h with ⟨between, hmerge, h⟩
    obtain ⟨hfirst, hrest⟩ := List.forall_mem_cons.1 hplain
    exact ih hrest (isNumeric_of_merge hprofile hfirst hs hmerge) h

end Classes

/-! ## Solutions -/

/-- The type that constraints give to a variable, if they can be solved. -/
def typeBy (profile : Profile) (constraints : List Constraint) (v : TypeVar) : Option SqlType :=
  (solve profile constraints).toOption.map fun solution => solution.typeOf profile v

/-- A widening that some choices ask for takes a variable out of the numeric types for good: by the
constraints in front of it the type is numeric, and by no more of them than these. -/
def Outgrows (profile : Profile) (choices : List String) (constraints : List Constraint)
    (v : TypeVar) : Prop :=
  ∃ n c, constraints[n]? = some c ∧ c.isPlainWidening = true ∧ c.label ∈ choices ∧
    (typeBy profile (constraints.take n) v).any SqlType.isNumeric = true ∧
    ∀ m, n < m → m ≤ constraints.length →
      (typeBy profile (constraints.take m) v).any SqlType.isNumeric = false

section

variable {profile : Profile} {initial : Nat → TypeInfo} {constraints : List Constraint}
  {solution : Solution} {v w : TypeVar}

theorem isNumeric_typeOf (hprofile : profile.CountsInNumbers) :
    (solution.typeOf profile v).isNumeric = (solution.infoOf v).isNumeric := by
  unfold Solution.typeOf
  cases solution.infoOf v with
  | exact t => rfl
  | number => exact hprofile.float
  | unknown => exact hprofile.text

theorem typeBy_eq (h : solve profile constraints = .ok solution) (v : TypeVar) :
    typeBy profile constraints v = some (solution.typeOf profile v) := by
  unfold typeBy
  rw [h]
  rfl

/-- Constraints that can be solved can be solved as far as one likes. -/
theorem exists_solution_of_append {first second : List Constraint}
    (h : solve profile (first ++ second) = .ok solution) :
    ∃ between, solve profile first = .ok between := by
  unfold solve at h ⊢
  rw [Forest.constrainAll_append] at h
  cases hfirst : Forest.constrainAll profile [] first with
  | error clash =>
    rw [hfirst] at h
    cases h
  | ok forest => exact ⟨.ofForest forest, rfl⟩

theorem mem_equationsOf_singleton {c : Constraint} {step : Equation}
    (h : step ∈ equationsOf [c]) : step.1 = c := by
  unfold equationsOf at h
  rw [List.flatMap_singleton] at h
  obtain ⟨pair, -, rfl⟩ := List.mem_map.1 h
  rfl

theorem mem_equationsOf_append_left {first second : List Constraint} {step : Equation}
    (h : step ∈ equationsOf first) : step ∈ equationsOf (first ++ second) := by
  rw [equationsOf_append]
  exact List.mem_append_left _ h

theorem mem_equationsOf_of_take {n : Nat} {step : Equation}
    (h : step ∈ equationsOf (constraints.take n)) : step ∈ equationsOf constraints := by
  rw [← List.take_append_drop n constraints]
  exact mem_equationsOf_append_left h

/-- One more constraint that is no plain widening. -/
theorem isNumeric_typeOf_concat (hprofile : profile.CountsInNumbers) {c : Constraint}
    (hsteps : ∀ step ∈ equationsOf (constraints ++ [c]), step.Carries initial)
    (hv : v.Carries initial) (hplain : c.isPlainWidening = false) {after : Solution}
    (hsolve : solve profile constraints = .ok solution)
    (hafter : solve profile (constraints ++ [c]) = .ok after)
    (h : (solution.typeOf profile v).isNumeric = true) :
    (after.typeOf profile v).isNumeric = true := by
  have hearlier : ∀ step ∈ equationsOf constraints, step.Carries initial :=
    fun step hstep => hsteps step (mem_equationsOf_append_left hstep)
  obtain ⟨s, hs, hinfo⟩ := exists_classes hearlier hsolve
  obtain ⟨t, ht, hinfo'⟩ := exists_classes hsteps hafter
  rw [isNumeric_typeOf hprofile, hinfo v hv] at h
  rw [isNumeric_typeOf hprofile, hinfo' v hv]
  rw [equationsOf_append, Classes.run_append, hs, ok_bind] at ht
  refine Classes.isNumeric_of_run hprofile (fun step hstep => ?_) h ht
  rw [mem_equationsOf_singleton hstep]
  exact hplain

/-- So far into constraints that can be solved, one more of them that is no plain widening. -/
theorem isNumeric_typeBy_succ (hprofile : profile.CountsInNumbers)
    (hsteps : ∀ step ∈ equationsOf constraints, step.Carries initial) (hv : v.Carries initial)
    (hsolve : solve profile constraints = .ok solution) {n : Nat} (hn : n < constraints.length)
    (hplain : constraints[n].isPlainWidening = false)
    (h : (typeBy profile (constraints.take n) v).any SqlType.isNumeric = true) :
    (typeBy profile (constraints.take (n + 1)) v).any SqlType.isNumeric = true := by
  have hnext : constraints.take (n + 1) = constraints.take n ++ [constraints[n]] :=
    List.take_succ_eq_append_getElem hn
  rw [← List.take_append_drop (n + 1) constraints] at hsolve
  obtain ⟨after, hafter⟩ := exists_solution_of_append hsolve
  rw [hnext] at hafter
  obtain ⟨between, hbetween⟩ := exists_solution_of_append hafter
  rw [typeBy_eq hbetween] at h
  rw [hnext, typeBy_eq hafter]
  refine isNumeric_typeOf_concat hprofile ?_ hv hplain hbetween hafter h
  intro step hstep
  rw [← hnext] at hstep
  exact hsteps step (mem_equationsOf_of_take hstep)

/-- What holds at first and not at last holds for the last time somewhere. -/
theorem exists_last {P : Nat → Prop} {k : Nat} (hfirst : P 0) (hlast : ¬ P k) :
    ∃ n, n < k ∧ P n ∧ ∀ m, n < m → m ≤ k → ¬ P m := by
  classical
  have hspec : P (Nat.findGreatest P k) := Nat.findGreatest_spec (Nat.zero_le k) hfirst
  have hle : Nat.findGreatest P k ≤ k := Nat.findGreatest_le k
  have hne : Nat.findGreatest P k ≠ k := fun heq => hlast (heq ▸ hspec)
  refine ⟨Nat.findGreatest P k, Nat.lt_of_le_of_ne hle hne, hspec, ?_⟩
  intro m hm hmk
  exact Nat.findGreatest_is_greatest hm hmk

/-- By no constraints at all, a variable has the type that it was made with. -/
theorem isNumeric_typeBy_nil (hprofile : profile.CountsInNumbers) (hnumber : v.info = .number) :
    (typeBy profile [] v).any SqlType.isNumeric = true := by
  have hempty : solve profile [] = .ok (.ofForest []) := rfl
  rw [typeBy_eq hempty]
  show ((Solution.ofForest []).typeOf profile v).isNumeric = true
  have hinfo : (Solution.ofForest []).infoOf v = .number := hnumber
  rw [isNumeric_typeOf hprofile, hinfo]
  rfl

/-- A variable that was made as a number has a numeric type unless it outgrows the numbers, by one of
the choices that ask for plain widenings. -/
theorem isNumeric_typeOf_iff (hprofile : profile.CountsInNumbers)
    (hsteps : ∀ step ∈ equationsOf constraints, step.Carries initial) (hv : v.Carries initial)
    (hnumber : v.info = .number) {choices : List String}
    (hchoices : ∀ c ∈ constraints, c.isPlainWidening = true → c.label ∈ choices)
    (hsolve : solve profile constraints = .ok solution) :
    (solution.typeOf profile v).isNumeric = true ↔ ¬ Outgrows profile choices constraints v := by
  have hwhole : (typeBy profile (constraints.take constraints.length) v).any SqlType.isNumeric =
      (solution.typeOf profile v).isNumeric := by
    rw [List.take_length, typeBy_eq hsolve]
    rfl
  constructor
  · rintro hnumeric ⟨n, c, hc, -, -, -, hlater⟩
    have hlast := hlater constraints.length (List.getElem?_eq_some_iff.1 hc).1 (Nat.le_refl _)
    rw [hwhole, hnumeric] at hlast
    cases hlast
  · intro hnot
    by_contra hnumeric
    apply hnot
    obtain ⟨n, hn, hlast, hlater⟩ := exists_last
      (P := fun n => (typeBy profile (constraints.take n) v).any SqlType.isNumeric = true)
      (isNumeric_typeBy_nil hprofile hnumber) (k := constraints.length) (hwhole ▸ hnumeric)
    have hmem : constraints[n] ∈ constraints := List.getElem_mem hn
    have hwidening : constraints[n].isPlainWidening = true := by
      by_contra hplain
      -- any other constraint would leave the type numeric
      apply hlater (n + 1) (Nat.lt_succ_self n) hn
      exact isNumeric_typeBy_succ hprofile hsteps hv hsolve hn (Bool.eq_false_iff.2 hplain) hlast
    refine ⟨n, constraints[n], List.getElem?_eq_getElem hn, hwidening, hchoices _ hmem hwidening,
      hlast, ?_⟩
    exact fun m hm hle => Bool.eq_false_iff.2 (hlater m hm hle)

/-- Two variables that are widened with each other have one type in the end. -/
theorem infoOf_of_widening {label : String} {coercion : Option Coercion}
    (hsteps : ∀ step ∈ equationsOf constraints, step.Carries initial)
    (hmem : Constraint.widest label coercion w v ∈ constraints)
    (hsolve : solve profile constraints = .ok solution) :
    w.Carries initial ∧ solution.infoOf v = solution.infoOf w := by
  obtain ⟨before, after, rfl⟩ := List.append_of_mem hmem
  have hall : equationsOf (before ++ .widest label coercion w v :: after) =
      equationsOf before ++ (.widest label coercion w v, w, v) :: equationsOf after := by
    rw [equationsOf_append]
    rfl
  have hboth := hsteps _ (hall ▸ List.mem_append_right _ List.mem_cons_self)
  obtain ⟨s, hrun, hinfo⟩ := exists_classes hsteps hsolve
  rw [hall, Classes.run_append] at hrun
  rcases bind_eq_ok.1 hrun with ⟨s₁, -, hrun⟩
  rw [Classes.run_cons] at hrun
  rcases bind_eq_ok.1 hrun with ⟨s₂, hmerge, hrun⟩
  have hbinding : (Constraint.widest label coercion w v).strength ≠ .bestEffort := by
    simp [Constraint.widest]
  have hsame := Classes.same_of_run (Classes.same_of_binding hbinding hmerge) hrun
  refine ⟨hboth.1, ?_⟩
  rw [hinfo w hboth.1, hinfo v hboth.2]
  exact Classes.infoOf_of_same hsame.symm

end

end QuerySignature
