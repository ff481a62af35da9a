import QuerySignature.Proofs.Solver.Solving

namespace QuerySignature

/-! # States of the solver that agree

Two states agree on some variables, those of the second under other numbers, when they put the
same of them into one class and know the same of them. Solving the same equations keeps states in
agreement.

- `Classes.merge_cases`, `Classes.strict_of_error`: what solving one equation comes to.
- `Agree.joined`: when joining two classes leaves some variables as they are.
- `Agree.run`: solving the same equations fails alike or leaves states that agree.
- `Classes.Fresh.run`: solving leaves variables alone that no equation mentions yet.
-/

namespace Classes

variable {s : Classes} {upper lower : Nat} {info : TypeInfo}

theorem join_same (x y : Nat) :
    (s.join upper lower info).label x = (s.join upper lower info).label y ↔
      s.label x = s.label y ∨
        ((s.label x = upper ∨ s.label x = lower) ∧ (s.label y = upper ∨ s.label y = lower)) := by
  unfold join
  simp only
  by_cases hx : s.label x = lower
  · by_cases hy : s.label y = lower
    · simp [hx, hy]
    · simp [hx, hy, eq_comm, Ne.symm hy]
  · by_cases hy : s.label y = lower
    · simp [hx, hy]
    · simp only [hx, hy, if_false, or_false]
      constructor
      · exact Or.inl
      · rintro (h | ⟨hx', hy'⟩)
        · exact h
        · exact hx'.trans hy'.symm

/-- What is known of a variable is known of its class. -/
theorem infoOf_of_same {x y : Nat} (h : s.label x = s.label y) : s.infoOf x = s.infoOf y :=
  congrArg s.info h

theorem infoOf_join (x : Nat) :
    (s.join upper lower info).infoOf x =
      if s.label x = upper ∨ s.label x = lower then info else s.infoOf x := by
  unfold join infoOf
  simp only
  by_cases hlow : s.label x = lower
  · simp [hlow]
  · by_cases hup : s.label x = upper
    · simp [hup]
    · simp [hlow, hup]

/-! ### One equation -/

section

variable {profile : Profile} {step : Equation}

theorem merge_of_same (hsame : s.label step.2.1.id = s.label step.2.2.id) :
    s.merge profile step = .ok s :=
  if_pos hsame

theorem merge_of_some (hne : s.label step.2.1.id ≠ s.label step.2.2.id)
    (hmerge : TypeInfo.merge? profile step.1.strength step.1.coercion (s.infoOf step.2.1.id)
      (s.infoOf step.2.2.id) = some info) :
    s.merge profile step = .ok (s.join (s.label step.2.1.id) (s.label step.2.2.id) info) := by
  unfold infoOf at hmerge
  unfold merge
  simp only [if_neg hne, hmerge]

theorem merge_of_none (hne : s.label step.2.1.id ≠ s.label step.2.2.id)
    (hmerge : TypeInfo.merge? profile step.1.strength step.1.coercion (s.infoOf step.2.1.id)
      (s.infoOf step.2.2.id) = none) :
    s.merge profile step =
      match step.1.strength with
      | .strict => .error ⟨s.infoOf step.2.1.id, s.infoOf step.2.2.id, step.1.label⟩
      | _ => .ok s := by
  unfold infoOf at hmerge
  unfold merge
  simp only [if_neg hne, hmerge]
  rfl

/-- What solving an equation comes to: it leaves the state as it is, for the two sides are in one class
or cannot be merged and need not be, or it joins their classes. -/
theorem merge_cases (profile : Profile) (s : Classes) (step : Equation) {t : Classes}
    (h : s.merge profile step = .ok t) :
    (t = s ∧ (s.label step.2.1.id = s.label step.2.2.id ∨ step.1.strength = .bestEffort)) ∨
      ∃ info, s.label step.2.1.id ≠ s.label step.2.2.id ∧
        TypeInfo.merge? profile step.1.strength step.1.coercion (s.infoOf step.2.1.id)
          (s.infoOf step.2.2.id) = some info ∧
        t = s.join (s.label step.2.1.id) (s.label step.2.2.id) info := by
  by_cases hsame : s.label step.2.1.id = s.label step.2.2.id
  · rw [merge_of_same hsame] at h
    cases h
    exact .inl ⟨rfl, .inl hsame⟩
  · cases hmerge : TypeInfo.merge? profile step.1.strength step.1.coercion (s.infoOf step.2.1.id)
        (s.infoOf step.2.2.id) with
    | some info =>
      rw [merge_of_some hsame hmerge] at h
      cases h
      exact .inr ⟨info, hsame, rfl, rfl⟩
    | none =>
      rw [merge_of_none hsame hmerge] at h
      cases hstrength : step.1.strength with
      | strict => simp [hstrength] at h
      | bestEffort =>
        simp only [hstrength, Except.ok.injEq] at h
        exact .inl ⟨h.symm, .inr rfl⟩
      | widest => simp [TypeInfo.merge?, hstrength] at hmerge

/-- An equation fails when it is strict and what is known of its two sides cannot be merged. -/
theorem strict_of_error {e : Clash} (h : s.merge profile step = .error e) :
    step.1.strength = .strict ∧
      TypeInfo.merge? profile step.1.strength step.1.coercion (s.infoOf step.2.1.id)
        (s.infoOf step.2.2.id) = none := by
  by_cases hsame : s.label step.2.1.id = s.label step.2.2.id
  · rw [merge_of_same hsame] at h
    cases h
  · cases hmerge : TypeInfo.merge? profile step.1.strength step.1.coercion (s.infoOf step.2.1.id)
        (s.infoOf step.2.2.id) with
    | some info =>
      rw [merge_of_some hsame hmerge] at h
      cases h
    | none =>
      rw [merge_of_none hsame hmerge] at h
      cases hstrength : step.1.strength <;> simp only [hstrength] at h <;> cases h
      exact ⟨rfl, rfl⟩

/-- An equation that may not be passed over brings its two sides into one class. -/
theorem same_of_binding {t : Classes} (hbinding : step.1.strength ≠ .bestEffort)
    (h : s.merge profile step = .ok t) : t.label step.2.1.id = t.label step.2.2.id := by
  rcases merge_cases profile s step h with ⟨rfl, hsame | hpassed⟩ | ⟨info, -, -, rfl⟩
  · exact hsame
  · exact absurd hpassed hbinding
  · exact (join_same _ _).2 (.inr ⟨.inl rfl, .inr rfl⟩)

end

theorem same_of_merge {profile : Profile} {s t : Classes} {step : Equation} {x y : Nat}
    (hsame : s.label x = s.label y) (h : s.merge profile step = .ok t) : t.label x = t.label y := by
  rcases merge_cases profile s step h with ⟨rfl, -⟩ | ⟨info, -, -, rfl⟩
  · exact hsame
  · exact (join_same x y).2 (Or.inl hsame)

/-- What has been brought into one class stays in one class. -/
theorem same_of_run {profile : Profile} {s t : Classes} {steps : List Equation} {x y : Nat}
    (hsame : s.label x = s.label y) (h : s.run profile steps = .ok t) : t.label x = t.label y := by
  induction steps generalizing s with
  | nil =>
    cases h
    exact hsame
  | cons step rest ih =>
    rw [run_cons] at h
    rcases bind_eq_ok.1 h with ⟨between, hmerge, h⟩
    exact ih (same_of_merge hsame hmerge) h

end Classes

/-! ## Agreement -/

/-- Two states agree on some variables, which the second knows under other numbers. -/
structure Agree (ρ : Nat → Nat) (O : Nat → Prop) (s s' : Classes) : Prop where
  same : ∀ x y, O x → O y → (s.label x = s.label y ↔ s'.label (ρ x) = s'.label (ρ y))
  info : ∀ x, O x → s.infoOf x = s'.infoOf (ρ x)

/-- The same equation between variables under other numbers. -/
structure Equation.Renumbered (ρ : Nat → Nat) (step step' : Equation) : Prop where
  label : step'.1.label = step.1.label
  strength : step'.1.strength = step.1.strength
  coercion : step'.1.coercion = step.1.coercion
  left : step'.2.1.id = ρ step.2.1.id
  right : step'.2.2.id = ρ step.2.2.id

/-- An equation between two of some variables. -/
def Equation.Within (O : Nat → Prop) (step : Equation) : Prop := O step.2.1.id ∧ O step.2.2.id

namespace Agree

variable {ρ : Nat → Nat} {O : Nat → Prop} {s s' : Classes}

/-- Joining the classes of two variables on both sides. -/
theorem join (h : Agree ρ O s s') {a b : Nat} (ha : O a) (hb : O b) (info : TypeInfo) :
    Agree ρ O (s.join (s.label a) (s.label b) info)
      (s'.join (s'.label (ρ a)) (s'.label (ρ b)) info) := by
  refine ⟨?_, ?_⟩
  · intro x y hx hy
    rw [Classes.join_same, Classes.join_same, h.same x y hx hy, h.same x a hx ha,
      h.same x b hx hb, h.same y a hy ha, h.same y b hy hb]
  · intro x hx
    simp only [Classes.infoOf_join, h.same x a hx ha, h.same x b hx hb, h.info x hx]

/-- Joining two classes changes nothing for some variables when not both classes hold any of them, and
what is known of those in either class stays. -/
theorem joined {upper lower : Nat} {info : TypeInfo}
    (hinfo : ∀ x, O x → s.label x = upper ∨ s.label x = lower → s.infoOf x = info)
    (hapart : ∀ x y, O x → O y → s.label x = upper → s.label y ≠ lower) :
    Agree id O s (s.join upper lower info) := by
  refine ⟨fun x y hx hy => ?_, fun x hx => ?_⟩
  · rw [id, id, Classes.join_same]
    constructor
    · exact Or.inl
    · rintro (heq | ⟨hx' | hx', hy' | hy'⟩)
      · exact heq
      · exact hx'.trans hy'.symm
      · exact absurd hy' (hapart x y hx hy hx')
      · exact absurd hx' (hapart y x hy hx hy')
      · exact hx'.trans hy'.symm
  · rw [id, Classes.infoOf_join]
    split
    · next hheld => exact hinfo x hx hheld
    · rfl

theorem merge (h : Agree ρ O s s') (profile : Profile) {step step' : Equation}
    (hstep : step.Renumbered ρ step') (hO : step.Within O) :
    Alike (Agree ρ O) (s.merge profile step) (s'.merge profile step') := by
  rcases hO with ⟨hleft, hright⟩
  have hinfoLeft := h.info _ hleft
  have hinfoRight := h.info _ hright
  unfold Classes.infoOf at hinfoLeft hinfoRight
  unfold Classes.merge
  simp only [hstep.left, hstep.right, hstep.strength, hstep.coercion, hstep.label, hinfoLeft,
    hinfoRight]
  have hsame := h.same _ _ hleft hright
  by_cases heq : s.label step.2.1.id = s.label step.2.2.id
  · rw [if_pos heq, if_pos (hsame.1 heq)]
    exact h
  · rw [if_neg heq, if_neg fun heq' => heq (hsame.2 heq')]
    cases TypeInfo.merge? profile step.1.strength step.1.coercion
        (s'.info (s'.label (ρ step.2.1.id))) (s'.info (s'.label (ρ step.2.2.id))) with
    | some info => exact h.join hleft hright info
    | none =>
      cases step.1.strength with
      | strict => exact rfl
      | bestEffort => exact h
      | widest => exact h

/-- Solving the same equations on states that agree. -/
theorem run (h : Agree ρ O s s') (profile : Profile) {steps steps' : List Equation}
    (hsteps : List.Forall₂ (Equation.Renumbered ρ) steps steps')
    (hO : ∀ step ∈ steps, step.Within O) :
    Alike (Agree ρ O) (s.run profile steps) (s'.run profile steps') := by
  induction hsteps generalizing s s' with
  | nil => exact h
  | @cons step step' _ _ hhead _ ih =>
    rw [Classes.run_cons, Classes.run_cons]
    refine (h.merge profile hhead (hO step List.mem_cons_self)).bind fun t t' ht => ?_
    exact ih ht fun other hother => hO other (List.mem_cons_of_mem _ hother)

theorem mono {O' : Nat → Prop} (h : Agree ρ O s s') (hO : ∀ x, O' x → O x) : Agree ρ O' s s' :=
  ⟨fun x y hx hy => h.same x y (hO x hx) (hO y hy), fun x hx => h.info x (hO x hx)⟩

theorem refl (O : Nat → Prop) (s : Classes) : Agree id O s s :=
  ⟨fun _ _ _ _ => Iff.rfl, fun _ _ => rfl⟩

theorem trans {ρ' : Nat → Nat} {t : Classes} {O' : Nat → Prop} (h : Agree ρ O s s')
    (h' : Agree ρ' O' s' t) (hO : ∀ x, O x → O' (ρ x)) : Agree (fun x => ρ' (ρ x)) O s t := by
  refine ⟨?_, ?_⟩
  · intro x y hx hy
    rw [h.same x y hx hy, h'.same _ _ (hO x hx) (hO y hy)]
  · intro x hx
    rw [h.info x hx, h'.info _ (hO x hx)]

end Agree

/-! ## Variables not met yet -/

namespace Classes

/-- Behind a number, every variable is alone and as it was made. -/
structure Fresh (n : Nat) (initial : Nat → TypeInfo) (s : Classes) : Prop where
  alone : ∀ id, n < id → s.label id = id ∧ s.info id = initial id
  below : ∀ id, id ≤ n → s.label id ≤ n

namespace Fresh

variable {n : Nat} {initial : Nat → TypeInfo} {s : Classes}

theorem start (n : Nat) (initial : Nat → TypeInfo) : Fresh n initial (Classes.start initial) :=
  ⟨fun _ _ => ⟨rfl, rfl⟩, fun _ hid => hid⟩

theorem mono (h : Fresh n initial s) {m : Nat} (hnm : n ≤ m) : Fresh m initial s := by
  refine ⟨fun id hid => h.alone id (Nat.lt_of_le_of_lt hnm hid), fun id hid => ?_⟩
  rcases Nat.lt_or_ge n id with hn | hn
  · rw [(h.alone id hn).1]
    exact hid
  · exact Nat.le_trans (h.below id hn) hnm

theorem infoOf (h : Fresh n initial s) {id : Nat} (hid : n < id) : s.infoOf id = initial id := by
  unfold Classes.infoOf
  rw [(h.alone id hid).1, (h.alone id hid).2]

theorem merge (h : Fresh n initial s) {profile : Profile} {step : Equation}
    (hstep : step.Within (· ≤ n)) {t : Classes} (ht : s.merge profile step = .ok t) :
    Fresh n initial t := by
  rcases merge_cases profile s step ht with ⟨rfl, -⟩ | ⟨info, hne, _, rfl⟩
  · exact h
  · have hleft := h.below _ hstep.1
    have hright := h.below _ hstep.2
    refine ⟨?_, ?_⟩
    · intro id hid
      rcases h.alone id hid with ⟨hlabel, hinfo⟩
      have hnotLower : ¬ id = s.label step.2.2.id := by omega
      have hnotUpper : ¬ id = s.label step.2.1.id := by omega
      exact ⟨by simp [join, hlabel, hnotLower], by simp [join, hnotUpper, hinfo]⟩
    · intro id hid
      unfold join
      simp only
      split
      · exact hleft
      · exact h.below id hid

/-- Solving equations between earlier variables. -/
theorem run (h : Fresh n initial s) {profile : Profile} {steps : List Equation}
    (hsteps : ∀ step ∈ steps, step.Within (· ≤ n)) {t : Classes}
    (ht : s.run profile steps = .ok t) : Fresh n initial t := by
  induction steps generalizing s with
  | nil =>
    cases ht
    exact h
  | cons step rest ih =>
    rw [run_cons] at ht
    rcases bind_eq_ok.1 ht with ⟨between, hmerge, ht⟩
    have hbetween := h.merge (hsteps step List.mem_cons_self) hmerge
    exact ih hbetween (fun other hother => hsteps other (List.mem_cons_of_mem _ hother)) ht

/-- Linking a new variable of which nothing is known to an earlier one: the new one joins the class
of the earlier one, and what is known of it. -/
theorem link (h : Fresh n initial s) (profile : Profile) (label : String) {u v : TypeVar}
    (hu : u.id = n + 1) (hunknown : initial u.id = .unknown) (hv : v.id ≤ n) :
    ∃ t, s.merge profile (.bestEffort label u v, u, v) = .ok t ∧ Fresh (n + 1) initial t ∧
      Agree id (· ≤ n) s t ∧ t.label u.id = t.label v.id ∧ t.infoOf u.id = s.infoOf v.id := by
  rcases h.alone u.id (by omega) with ⟨hlabel, hinfo⟩
  have hbelow := h.below v.id hv
  have hne : s.label u.id ≠ s.label v.id := by omega
  have hmerge : s.merge profile (.bestEffort label u v, u, v) =
      .ok (s.join (s.label u.id) (s.label v.id) (s.infoOf v.id)) := by
    refine merge_of_some hne ?_
    show TypeInfo.equate (s.infoOf u.id) (s.infoOf v.id) = some (s.infoOf v.id)
    simp [hlabel, hinfo, hunknown, Classes.infoOf]
  -- the new variable is alone in its class
  have hnew : ∀ x, x ≤ n → s.label x ≠ s.label u.id := by
    intro x hx
    have hxn := h.below x hx
    omega
  have hagree : Agree id (· ≤ n) s (s.join (s.label u.id) (s.label v.id) (s.infoOf v.id)) :=
    .joined (fun x hx hheld => infoOf_of_same (hheld.resolve_left (hnew x hx)))
      fun x _ hx _ hxu => absurd hxu (hnew x hx)
  refine ⟨_, hmerge, ⟨?_, ?_⟩, hagree, ?_, ?_⟩
  · intro id hid
    rcases h.alone id (by omega) with ⟨hlabelId, hinfoId⟩
    have hnotLower : ¬ id = s.label v.id := by omega
    have hnotUpper : ¬ id = u.id := by omega
    exact ⟨by simp [join, hlabelId, hnotLower], by simp [join, hlabel, hnotUpper, hinfoId]⟩
  · intro id hid
    unfold join
    simp only
    split
    · omega
    · by_cases hidn : id ≤ n
      · have := h.below id hidn
        omega
      · have := (h.alone id (by omega)).1
        omega
  · rw [join_same]
    exact Or.inr ⟨Or.inl rfl, Or.inr rfl⟩
  · rw [infoOf_join, if_pos (Or.inl rfl)]

end Fresh

end Classes

end QuerySignature
