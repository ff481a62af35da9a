import QuerySignature.Proofs.Solver.Agreement

namespace QuerySignature

/-! # Equations that spare variables

What is known of a variable can change only when its class is merged with another one. An equation
is harmless to some variables if such a merge gives back what was known of the class, and does not
bring two of them together; equations spare them if each is harmless when its turn comes.

Two states may differ in some variables and agree on others. They go on to agree on these as long as
every equation lies among them or keeps away from their classes.

- `Classes.Spares.agree`: equations that spare variables leave the state in agreement with itself.
- `Represents.spares_iff`: whether equations spare variables can be computed on a forest.
- `Follows.run`: solving equations that keep apart on both sides keeps the agreement.
- `Classes.Fresh.spares_of_aside`: equations that only link new variables to earlier ones, or are
  between new ones, spare all that there have been before.
- `Represents.keepsApart`: whether equations are such can be computed on a forest.
-/

namespace Forest

/-- What is known of a variable's class. -/
def infoOf (forest : Forest) (v : TypeVar) : TypeInfo := (Solution.ofForest forest).infoOf v

/-- Whether one of some variables is in the class of a root. -/
def holds (forest : Forest) (watched : List Nat) (root : Nat) : Bool :=
  watched.any fun id => forest.root id == root

/-- Whether an equation is harmless to some variables. -/
def harmless (profile : Profile) (watched : List Nat) (forest : Forest) (step : Equation) : Bool :=
  let left := forest.root step.2.1.id
  let right := forest.root step.2.2.id
  if left = right then true
  else
    match TypeInfo.merge? profile step.1.strength step.1.coercion (forest.infoOf step.2.1)
        (forest.infoOf step.2.2) with
    | none => true
    | some info =>
      (!forest.holds watched left || info == forest.infoOf step.2.1) &&
      (!forest.holds watched right || info == forest.infoOf step.2.2) &&
      !(forest.holds watched left && forest.holds watched right)

/-- Whether equations, solved in their order, spare some variables. -/
def spares (profile : Profile) (watched : List Nat) (forest : Forest) : List Equation → Bool
  | [] => true
  | step :: rest =>
    forest.harmless profile watched step &&
      match forest.merge profile step.1 step.2 with
      | .ok next => next.spares profile watched rest
      | .error _ => true

end Forest

/-! ## On classes -/

namespace Classes

/-- An equation is harmless to some variables if, when it merges the class of one of them, what is
known of that class stays, and the other class holds none of them. -/
def Harmless (profile : Profile) (O : Nat → Prop) (s : Classes) (step : Equation) : Prop :=
  s.label step.2.1.id ≠ s.label step.2.2.id → ∀ info,
    TypeInfo.merge? profile step.1.strength step.1.coercion (s.infoOf step.2.1.id)
      (s.infoOf step.2.2.id) = some info →
    (∀ x, O x → s.label x = s.label step.2.1.id → info = s.infoOf step.2.1.id) ∧
    (∀ x, O x → s.label x = s.label step.2.2.id → info = s.infoOf step.2.2.id) ∧
    ∀ x y, O x → O y → s.label x = s.label step.2.1.id → s.label y ≠ s.label step.2.2.id

/-- Equations spare some variables if, solved in their order, each is harmless to them. -/
def Spares (profile : Profile) (O : Nat → Prop) : Classes → List Equation → Prop
  | _, [] => True
  | s, step :: rest =>
    s.Harmless profile O step ∧ ∀ t, s.merge profile step = .ok t → Spares profile O t rest

theorem Harmless.agree {profile : Profile} {O : Nat → Prop} {s t : Classes} {step : Equation}
    (h : s.Harmless profile O step) (ht : s.merge profile step = .ok t) : Agree id O s t := by
  rcases merge_cases profile s step ht with ⟨rfl, -⟩ | ⟨info, hne, hmerge, rfl⟩
  · exact .refl O t
  · rcases h hne info hmerge with ⟨hleft, hright, hapart⟩
    refine .joined (fun x hx hheld => ?_) hapart
    rcases hheld with hxl | hxr
    · rw [hleft x hx hxl]
      exact infoOf_of_same hxl
    · rw [hright x hx hxr]
      exact infoOf_of_same hxr

/-- Equations that spare some variables change neither their classes among each other nor what is
known of them. -/
theorem Spares.agree {profile : Profile} {O : Nat → Prop} {s t : Classes} {steps : List Equation}
    (h : s.Spares profile O steps) (ht : s.run profile steps = .ok t) : Agree id O s t := by
  induction steps generalizing s with
  | nil =>
    cases ht
    exact .refl O t
  | cons step rest ih =>
    rw [run_cons] at ht
    rcases bind_eq_ok.1 ht with ⟨between, hmerge, ht⟩
    have hfirst := h.1.agree hmerge
    have hrest := ih (h.2 between hmerge) ht
    exact hfirst.trans hrest fun x hx => hx

end Classes

/-! ## On forests -/

namespace Represents

variable {initial : Nat → TypeInfo} {forest : Forest} {s : Classes} {profile : Profile}
  {watched : List Nat}

theorem holds_iff (h : Represents initial forest s) {root : Nat} :
    forest.holds watched root = true ↔ ∃ id ∈ watched, s.label id = root := by
  unfold Forest.holds
  simp only [List.any_eq_true, h.labelled.root_eq, beq_iff_eq]

theorem not_holds_iff (h : Represents initial forest s) {root : Nat} :
    forest.holds watched root = false ↔ ∀ id ∈ watched, s.label id ≠ root := by
  rw [← Bool.not_eq_true, h.holds_iff]
  simp only [not_exists, not_and, ne_eq]

/-- What a forest says of an equation is so of the classes that it stands for. -/
theorem harmless_iff (h : Represents initial forest s) {step : Equation}
    (hstep : step.Carries initial) :
    forest.harmless profile watched step = true ↔ s.Harmless profile (· ∈ watched) step := by
  have hleft : forest.infoOf step.2.1 = s.infoOf step.2.1.id := h.infoOf_ofForest fun _ => hstep.1
  have hright : forest.infoOf step.2.2 = s.infoOf step.2.2.id := h.infoOf_ofForest fun _ => hstep.2
  unfold Forest.harmless Classes.Harmless
  simp only [h.labelled.root_eq, hleft, hright]
  by_cases hsame : s.label step.2.1.id = s.label step.2.2.id
  · simp [hsame]
  cases hmerge : TypeInfo.merge? profile step.1.strength step.1.coercion (s.infoOf step.2.1.id)
      (s.infoOf step.2.2.id) with
  | none => simp [hsame]
  | some info =>
    simp only [if_neg hsame, Bool.and_eq_true, Bool.or_eq_true, Bool.not_eq_true', beq_iff_eq,
      Bool.and_eq_false_iff, h.not_holds_iff]
    constructor
    · rintro ⟨⟨hkeepLeft, hkeepRight⟩, hapart⟩ - _ ⟨⟩
      refine ⟨fun x hx hlabel => ?_, fun x hx hlabel => ?_, fun x y hx hy hlabelX hlabelY => ?_⟩
      · exact hkeepLeft.resolve_left fun hnone => hnone x hx hlabel
      · exact hkeepRight.resolve_left fun hnone => hnone x hx hlabel
      · exact hapart.elim (fun hnone => hnone x hx hlabelX) fun hnone => hnone y hy hlabelY
    · intro hharmless
      obtain ⟨hkeepLeft, hkeepRight, hapart⟩ := hharmless hsame info rfl
      refine ⟨⟨?_, ?_⟩, ?_⟩
      · by_contra! hheld
        obtain ⟨⟨x, hx, hlabel⟩, hother⟩ := hheld
        exact hother (hkeepLeft x hx hlabel)
      · by_contra! hheld
        obtain ⟨⟨x, hx, hlabel⟩, hother⟩ := hheld
        exact hother (hkeepRight x hx hlabel)
      · by_contra! hheld
        obtain ⟨⟨x, hx, hlabelX⟩, y, hy, hlabelY⟩ := hheld
        exact hapart x y hx hy hlabelX hlabelY

/-- What a forest says of equations is so of the classes that it stands for. -/
theorem spares_iff (h : Represents initial forest s) {steps : List Equation}
    (hsteps : ∀ step ∈ steps, step.Carries initial) :
    forest.spares profile watched steps = true ↔ s.Spares profile (· ∈ watched) steps := by
  induction steps generalizing forest s with
  | nil => exact iff_of_true rfl trivial
  | cons step rest ih =>
    have hstep := hsteps step List.mem_cons_self
    have hrest := fun other hother => hsteps other (List.mem_cons_of_mem step hother)
    simp only [Forest.spares, Bool.and_eq_true, Classes.Spares]
    refine and_congr (h.harmless_iff hstep) ?_
    have halike := h.merge profile hstep
    cases hnext : forest.merge profile step.1 step.2 with
    | error e =>
      refine iff_of_true rfl fun t ht => ?_
      rw [halike.of_error hnext] at ht
      cases ht
    | ok next =>
      rcases halike.of_ok hnext with ⟨t, ht, hrepresents⟩
      simp only [ht, Except.ok.injEq, forall_eq']
      exact ih hrepresents hrest

end Represents

/-! ## States that follow one another -/

/-- The first state agrees with the second on those of some variables whose numbers are watched in the
second, and ties no other of the variables to them that the second does not. -/
structure Follows (ρ : Nat → Nat) (S W : Nat → Prop) (s s' : Classes) : Prop where
  agree : Agree ρ (fun x => S x ∧ W (ρ x)) s s'
  tied : ∀ z x, S z → S x → W (ρ x) → s.label z = s.label x → s'.label (ρ z) = s'.label (ρ x)

namespace Classes

/-- An equation keeps away from the classes of some variables. -/
def Apart (O : Nat → Prop) (s : Classes) (step : Equation) : Prop :=
  ∀ x, O x → s.label x ≠ s.label step.2.1.id ∧ s.label x ≠ s.label step.2.2.id

/-- Equations lie among some variables or keep away from their classes, when they are solved in their
order. -/
def KeepsApart (profile : Profile) (O : Nat → Prop) : Classes → List Equation → Prop
  | _, [] => True
  | s, step :: rest =>
    (step.Within O ∨ s.Apart O step) ∧
      ∀ t, s.merge profile step = .ok t → KeepsApart profile O t rest

theorem Apart.harmless {profile : Profile} {O : Nat → Prop} {s : Classes} {step : Equation}
    (h : s.Apart O step) : s.Harmless profile O step := by
  refine fun _ _ _ => ⟨?_, ?_, ?_⟩
  · exact fun x hx hlabel => absurd hlabel (h x hx).1
  · exact fun x hx hlabel => absurd hlabel (h x hx).2
  · exact fun x _ hx _ hlabel => absurd hlabel (h x hx).1

end Classes

namespace Follows

variable {ρ : Nat → Nat} {S W : Nat → Prop} {s s' t t' : Classes} {profile : Profile}
  {step step' : Equation}

theorem merge_within (h : Follows ρ S W s s') (hstep : step.Renumbered ρ step')
    (hS : step.Within S) (hW : step'.Within W) (ht : s.merge profile step = .ok t)
    (ht' : s'.merge profile step' = .ok t') : Follows ρ S W t t' := by
  have hleft : S step.2.1.id ∧ W (ρ step.2.1.id) := ⟨hS.1, hstep.left ▸ hW.1⟩
  have hright : S step.2.2.id ∧ W (ρ step.2.2.id) := ⟨hS.2, hstep.right ▸ hW.2⟩
  have hagree : Agree ρ (fun x => S x ∧ W (ρ x)) t t' := by
    have halike := h.agree.merge profile hstep ⟨hleft, hright⟩
    rw [ht, ht'] at halike
    exact halike
  refine ⟨hagree, fun z x hz hx hw hsame => ?_⟩
  have hold : ∀ z y, S z → S y ∧ W (ρ y) → s.label z = s.label y →
      t'.label (ρ z) = t'.label (ρ y) :=
    fun z y hz hy hzy => Classes.same_of_merge (h.tied z y hz hy.1 hy.2 hzy) ht'
  rcases Classes.merge_cases profile s step ht with ⟨rfl, -⟩ | ⟨info, -, -, rfl⟩
  · exact hold z x hz ⟨hx, hw⟩ hsame
  · have hboth : t'.label (ρ step.2.1.id) = t'.label (ρ step.2.2.id) := by
      refine (hagree.same _ _ hleft hright).1 ((Classes.join_same _ _).2 (Or.inr ⟨?_, ?_⟩))
      · exact Or.inl rfl
      · exact Or.inr rfl
    have hjoined : ∀ y, S y → s.label y = s.label step.2.1.id ∨ s.label y = s.label step.2.2.id →
        t'.label (ρ y) = t'.label (ρ step.2.1.id) := by
      rintro y hy (hyl | hyr)
      · exact hold y _ hy hleft hyl
      · exact (hold y _ hy hright hyr).trans hboth.symm
    rcases (Classes.join_same z x).1 hsame with hsame | ⟨hzc, hxc⟩
    · exact hold z x hz ⟨hx, hw⟩ hsame
    · exact (hjoined z hz hzc).trans (hjoined x hx hxc).symm

theorem merge_apart (h : Follows ρ S W s s') (hstep : step.Renumbered ρ step')
    (hS : step.Within S) (hapart : s'.Apart W step') (ht : s.merge profile step = .ok t)
    (ht' : s'.merge profile step' = .ok t') : Follows ρ S W t t' := by
  have hfirst : s.Apart (fun x => S x ∧ W (ρ x)) step := by
    rintro x ⟨hx, hw⟩
    rcases hapart (ρ x) hw with ⟨hleft, hright⟩
    rw [hstep.left] at hleft
    rw [hstep.right] at hright
    exact ⟨fun heq => hleft (h.tied _ x hS.1 hx hw heq.symm).symm,
      fun heq => hright (h.tied _ x hS.2 hx hw heq.symm).symm⟩
  have hkept := hfirst.harmless.agree ht
  have hkept' := hapart.harmless.agree ht'
  refine ⟨⟨?_, ?_⟩, ?_⟩
  · intro x y hx hy
    have hxy := hkept.same x y hx hy
    have hxy' := hkept'.same (ρ x) (ρ y) hx.2 hy.2
    exact hxy.symm.trans ((h.agree.same x y hx hy).trans hxy')
  · intro x hx
    exact (hkept.info x hx).symm.trans ((h.agree.info x hx).trans (hkept'.info (ρ x) hx.2))
  · intro z x hz hx hw hsame
    rcases Classes.merge_cases profile s step ht with ⟨rfl, -⟩ | ⟨info, -, -, rfl⟩
    · exact Classes.same_of_merge (h.tied z x hz hx hw hsame) ht'
    · rcases (Classes.join_same z x).1 hsame with hsame | ⟨-, hx' | hx'⟩
      · exact Classes.same_of_merge (h.tied z x hz hx hw hsame) ht'
      · exact absurd hx' (hfirst x ⟨hx, hw⟩).1
      · exact absurd hx' (hfirst x ⟨hx, hw⟩).2

/-- Solving equations that lie among the watched variables or keep away from them. -/
theorem run (h : Follows ρ S W s s') {steps steps' : List Equation}
    (hsteps : List.Forall₂ (Equation.Renumbered ρ) steps steps') (hS : ∀ step ∈ steps, step.Within S)
    (hkeeps : s'.KeepsApart profile W steps') (ht : s.run profile steps = .ok t)
    (ht' : s'.run profile steps' = .ok t') : Follows ρ S W t t' := by
  induction hsteps generalizing s s' with
  | nil =>
    cases ht
    cases ht'
    exact h
  | @cons step step' _ _ hhead _ ih =>
    rw [Classes.run_cons] at ht ht'
    rcases bind_eq_ok.1 ht with ⟨u, hu, ht⟩
    rcases bind_eq_ok.1 ht' with ⟨u', hu', ht'⟩
    have hstep := hS step List.mem_cons_self
    have hnext : Follows ρ S W u u' := by
      rcases hkeeps.1 with hwithin | hapart
      · exact h.merge_within hhead hstep hwithin hu hu'
      · exact h.merge_apart hhead hstep hapart hu hu'
    exact ih hnext (fun other hother => hS other (List.mem_cons_of_mem _ hother))
      (hkeeps.2 u' hu') ht ht'

end Follows

/-! ## Equations aside -/

/-- Equations that are asked for when there are `n` variables, until there are `m`. Each links a new
variable, of which nothing is known, to an earlier one, or is an equation between new variables. -/
inductive Aside : Nat → List Equation → Nat → Prop
  | nil {n m : Nat} (hle : n ≤ m) : Aside n [] m
  | link {n m : Nat} {label : String} {u v : TypeVar} {rest : List Equation} (hnew : n < u.id)
      (hunknown : u.info = .unknown) (hearlier : v.id < u.id) (hrest : Aside u.id rest m) :
      Aside n ((.bestEffort label u v, u, v) :: rest) m
  | between {n k m : Nat} {step : Equation} {rest : List Equation}
      (hnew : step.Within fun id => n < id ∧ id ≤ k) (hrest : Aside k rest m) :
      Aside n (step :: rest) m

namespace Aside

variable {n k m : Nat} {steps later : List Equation}

theorem le (h : Aside n steps m) : n ≤ m := by
  induction h with
  | nil hle => exact hle
  | link hnew _ _ _ ih => exact Nat.le_trans (Nat.le_of_lt hnew) ih
  | between hnew _ ih => exact Nat.le_trans (Nat.le_of_lt hnew.1.1) (Nat.le_trans hnew.1.2 ih)

theorem of_le (hle : n ≤ k) (h : Aside k steps m) : Aside n steps m := by
  cases h with
  | nil hkm => exact .nil (Nat.le_trans hle hkm)
  | link hnew hunknown hearlier hrest =>
    exact .link (Nat.lt_of_le_of_lt hle hnew) hunknown hearlier hrest
  | between hnew hrest =>
    refine .between ⟨⟨?_, hnew.1.2⟩, ?_, hnew.2.2⟩ hrest
    · exact Nat.lt_of_le_of_lt hle hnew.1.1
    · exact Nat.lt_of_le_of_lt hle hnew.2.1

theorem append (h : Aside n steps k) (hlater : Aside k later m) : Aside n (steps ++ later) m := by
  induction h with
  | nil hle => exact hlater.of_le hle
  | link hnew hunknown hearlier _ ih => exact .link hnew hunknown hearlier (ih hlater)
  | between hnew _ ih => exact .between hnew (ih hlater)

end Aside

namespace Classes.Fresh

variable {n m : Nat} {initial : Nat → TypeInfo} {s : Classes} {profile : Profile} {O : Nat → Prop}

/-- A link leaves what is known of the earlier variables. -/
theorem link_harmless (h : s.Fresh n initial) (hO : ∀ x, O x → x ≤ n) {label : String} {u v : TypeVar}
    (hnew : n < u.id) (hunknown : initial u.id = .unknown) :
    s.Harmless profile O (.bestEffort label u v, u, v) := by
  have halone : ∀ x, O x → s.label x ≠ s.label u.id := by
    intro x hx
    rw [(h.alone u.id hnew).1]
    exact Nat.ne_of_lt (Nat.lt_of_le_of_lt (h.below x (hO x hx)) hnew)
  intro _ info hmerge
  have hinfo : info = s.infoOf v.id := by
    have hmerge : TypeInfo.equate (s.infoOf u.id) (s.infoOf v.id) = some info := hmerge
    rw [h.infoOf hnew, hunknown] at hmerge
    simpa using hmerge.symm
  refine ⟨fun x hx hlabel => absurd hlabel (halone x hx), fun _ _ _ => hinfo, ?_⟩
  exact fun x _ hx _ hlabel => absurd hlabel (halone x hx)

/-- An equation between new variables keeps away from the earlier ones. -/
theorem apart_of_new (h : s.Fresh n initial) (hO : ∀ x, O x → x ≤ n) {step : Equation}
    (hnew : step.Within (n < ·)) : s.Apart O step := by
  intro x hx
  have hlabel := h.below x (hO x hx)
  rw [(h.alone _ hnew.1).1, (h.alone _ hnew.2).1]
  exact ⟨Nat.ne_of_lt (Nat.lt_of_le_of_lt hlabel hnew.1),
    Nat.ne_of_lt (Nat.lt_of_le_of_lt hlabel hnew.2)⟩

/-- Equations that go aside spare the variables that there have been before. -/
theorem spares_of_aside {steps : List Equation} (h : s.Fresh n initial) (haside : Aside n steps m)
    (hcarries : ∀ step ∈ steps, step.Carries initial) (hO : ∀ x, O x → x ≤ n) :
    s.Spares profile O steps := by
  -- behind each equation, the state is fresh from the number on that the equation has reached
  induction haside generalizing s with
  | nil => exact trivial
  | @link n m label u v rest hnew hunknown hearlier _ ih =>
    have hstep := hcarries _ List.mem_cons_self
    have hrest := fun other hother => hcarries other (List.mem_cons_of_mem _ hother)
    have hunknown : initial u.id = .unknown := hstep.1.symm.trans hunknown
    obtain ⟨t, ht, hfresh, -⟩ := (h.mono (Nat.le_sub_one_of_lt hnew)).link profile label (u := u)
      (v := v) (by omega) hunknown (by omega)
    rw [Nat.sub_add_cancel (Nat.one_le_of_lt hnew)] at hfresh
    refine ⟨h.link_harmless hO hnew hunknown, fun t' ht' => ?_⟩
    cases ht.symm.trans ht'
    exact ih hfresh hrest fun x hx => Nat.le_trans (hO x hx) (Nat.le_of_lt hnew)
  | @between n k m step rest hnew _ ih =>
    have hrest := fun other hother => hcarries other (List.mem_cons_of_mem _ hother)
    have hnk : n ≤ k := Nat.le_trans (Nat.le_of_lt hnew.1.1) hnew.1.2
    refine ⟨(h.apart_of_new hO ⟨hnew.1.1, hnew.2.1⟩).harmless, fun t ht => ?_⟩
    have hfresh := (h.mono hnk).merge ⟨hnew.1.2, hnew.2.2⟩ ht
    exact ih hfresh hrest fun x hx => Nat.le_trans (hO x hx) hnk

end Classes.Fresh

/-! ## On forests -/

/-- Whether equations lie among some variables or keep away from their classes. -/
def Forest.keepsApart (profile : Profile) (watched : List Nat) (forest : Forest) :
    List Equation → Bool
  | [] => true
  | step :: rest =>
    ((watched.contains step.2.1.id && watched.contains step.2.2.id) ||
      (!forest.holds watched (forest.root step.2.1.id) &&
        !forest.holds watched (forest.root step.2.2.id))) &&
      match forest.merge profile step.1 step.2 with
      | .ok next => next.keepsApart profile watched rest
      | .error _ => true

/-- What a forest says of equations holds of the classes that it stands for. -/
theorem Represents.keepsApart {initial : Nat → TypeInfo} {forest : Forest} {s : Classes}
    {profile : Profile} {watched : List Nat} (h : Represents initial forest s) {steps : List Equation}
    (hsteps : ∀ step ∈ steps, step.Carries initial)
    (hkeeps : forest.keepsApart profile watched steps = true) :
    s.KeepsApart profile (· ∈ watched) steps := by
  induction steps generalizing forest s with
  | nil => exact trivial
  | cons step rest ih =>
    simp only [Forest.keepsApart, Bool.and_eq_true, Bool.or_eq_true, List.contains_iff_mem,
      Bool.not_eq_true', h.labelled.root_eq, h.not_holds_iff] at hkeeps
    rcases hkeeps with ⟨hhead, hrest⟩
    refine ⟨hhead.imp (fun hwithin => hwithin) ?_, fun t ht => ?_⟩
    · rintro ⟨hleft, hright⟩ x hx
      exact ⟨hleft x hx, hright x hx⟩
    · obtain ⟨next, hnext, hrepresents⟩ :=
        (h.merge profile (hsteps step List.mem_cons_self)).to_ok ht
      rw [hnext] at hrest
      exact ih hrepresents (fun other hother => hsteps other (List.mem_cons_of_mem _ hother)) hrest

end QuerySignature
