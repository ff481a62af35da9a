import QuerySignature.Proofs.Comparison.Solved
import QuerySignature.Proofs.Mirrored.Crossing
import QuerySignature.Proofs.Solver.Equating
import QuerySignature.Proofs.Solver.Interleaving

namespace QuerySignature

/-! # Solving past a comparison

A comparison and its mirror ask the same of the same variables, under other numbers and in another
order. What is found out in the end is the same if the order does not count: neither the order of the
operands, nor that of the two sides of the equation. It may count for variables that nobody asks about
any more.

- `Passing.Interchangeable`: the order of the operands does not count.
- `Passing.interchangeable_of_apart`: so it is when they meet in no class.
- `Passing.Indifferent`: the order of the sides does not count.
- `Passing.indifferent_of_balanced`: so it is when they are of no two types of one family.
- `Passing.Crossed.solve`: the solutions behind two walks that have crossed.
-/

/-! ## Equations with their sides exchanged -/

/-- Equating is symmetric, but for different types of one family. -/
theorem TypeInfo.equate_comm {left right : TypeInfo}
    (h : ∀ a b, left = exact a → right = exact b → a.family = b.family → a = b) :
    equate left right = equate right left := by
  cases left with
  | unknown => simp
  | number => cases right <;> rfl
  | exact a =>
    cases right with
    | unknown => simp
    | number => rfl
    | exact b =>
      by_cases hfamily : a.family = b.family
      · rw [h a b rfl rfl hfamily]
      · have hcompatible : a.compatible b = b.compatible a := by
          rw [Bool.eq_iff_iff, SqlType.compatible_iff_group, SqlType.compatible_iff_group, eq_comm]
        simp only [equate, hcompatible]
        revert hfamily
        unfold SqlType.compatible
        cases a.family <;> cases b.family <;> simp

/-- Two types that can be equated, can be equated the other way round. -/
theorem TypeInfo.exists_equate_flip {left right info : TypeInfo} (h : equate left right = some info) :
    ∃ info', equate right left = some info' := by
  cases hflip : equate right left with
  | some info' => exact ⟨info', rfl⟩
  | none =>
    obtain ⟨g, g', hright, hleft, hne⟩ := equate_eq_none_iff.1 hflip
    rw [equate_eq_none_iff.2 ⟨g', g, hleft, hright, hne.symm⟩] at h
    cases h

/-- The types of the sides of an equation can be exchanged: they are not two of one family. -/
def Classes.Balanced (s : Classes) (step : Equation) : Prop :=
  ∀ a b, s.infoOf step.2.1.id = .exact a → s.infoOf step.2.2.id = .exact b → a.family = b.family →
    a = b

/-- A strict equation between two classes joins them, if their types can be equated. -/
theorem Classes.merge_strict {profile : Profile} {s t : Classes} {step : Equation}
    (hstrict : step.1.strength = .strict) (hne : s.label step.2.1.id ≠ s.label step.2.2.id) :
    s.merge profile step = .ok t ↔ ∃ info,
      TypeInfo.equate (s.infoOf step.2.1.id) (s.infoOf step.2.2.id) = some info ∧
        t = s.join (s.label step.2.1.id) (s.label step.2.2.id) info := by
  unfold merge infoOf TypeInfo.merge?
  simp only [if_neg hne, hstrict]
  cases TypeInfo.equate (s.info (s.label step.2.1.id)) (s.info (s.label step.2.2.id)) with
  | none => simp
  | some info => simp [eq_comm]

/-- Two classes are joined under either label. -/
theorem Agree.join_comm {s : Classes} {upper lower : Nat} {info info' : TypeInfo} {O : Nat → Prop}
    (h : info = info' ∨ ∀ x, O x → s.label x ≠ upper ∧ s.label x ≠ lower) :
    Agree id O (s.join upper lower info) (s.join lower upper info') := by
  refine ⟨fun x y _ _ => ?_, fun x hx => ?_⟩
  · rw [id, id, Classes.join_same, Classes.join_same]
    exact or_congr Iff.rfl (and_congr or_comm or_comm)
  · rw [Classes.infoOf_join, Classes.infoOf_join]
    rcases h with rfl | hO
    · exact if_congr or_comm rfl rfl
    · rw [id, if_neg (not_or.2 (hO x hx)), if_neg (not_or.2 (hO x hx).symm)]

/-- A strict equation can be solved with its sides exchanged. That does the same, unless the sides are
of two types of one family; in any case it does the same to variables that are in neither class. -/
theorem Classes.merge_exchanged {profile : Profile} {s t : Classes} {step step' : Equation}
    (hstrict : step.1.strength = .strict) (hstrict' : step'.1.strength = .strict)
    (hsides : step'.2 = (step.2.2, step.2.1)) {O : Nat → Prop}
    (h : s.Balanced step ∨ s.Apart O step) (ht : s.merge profile step = .ok t) :
    ∃ t', s.merge profile step' = .ok t' ∧ Agree id O t t' := by
  obtain ⟨c, v, w⟩ := step
  obtain ⟨c', _⟩ := step'
  obtain rfl := hsides
  by_cases hsame : s.label v.id = s.label w.id
  · have hrefl : s.merge profile (c, v, w) = .ok s := if_pos hsame
    rw [hrefl] at ht
    cases ht
    exact ⟨s, if_pos hsame.symm, .refl O s⟩
  · obtain ⟨info, hinfo, rfl⟩ := (merge_strict hstrict hsame).1 ht
    obtain ⟨info', hinfo'⟩ := TypeInfo.exists_equate_flip hinfo
    refine ⟨_, (merge_strict hstrict' (Ne.symm hsame)).2 ⟨info', hinfo', rfl⟩, .join_comm ?_⟩
    rcases h with hbalanced | hapart
    · rw [TypeInfo.equate_comm hbalanced, hinfo'] at hinfo
      exact .inl (Option.some.inj hinfo).symm
    · exact .inr hapart

/-! ## Lists of equations that meet in no class -/

/-- Two states that have the same parts agree. -/
theorem Divided.agree {A B : Nat → Prop} {t t' t₁ t₂ : Classes} (h : Divided A B t t₁ t₂)
    (h' : Divided A B t' t₁ t₂) (hAB : ∀ x, A x ∨ B x) : Agree id (fun _ => True) t t' := by
  refine ⟨fun x y _ _ => ?_, fun x _ => ?_⟩
  · rcases hAB x with hx | hx <;> rcases hAB y with hy | hy
    · exact (h.left.same x y hx hy).trans (h'.left.same x y hx hy).symm
    · exact iff_of_false (h.apart x y hx hy) (h'.apart x y hx hy)
    · exact iff_of_false (h.apart y x hy hx).symm (h'.apart y x hy hx).symm
    · exact (h.right.same x y hx hy).trans (h'.right.same x y hx hy).symm
  · rcases hAB x with hx | hx
    · exact (h.left.info x hx).trans (h'.left.info x hx).symm
    · exact (h.right.info x hx).trans (h'.right.info x hx).symm

/-- The classes that equations speak of. -/
def Classes.Meets (s : Classes) (steps : List Equation) (id : Nat) : Prop :=
  ∃ step ∈ steps, s.label id = s.label step.2.1.id ∨ s.label id = s.label step.2.2.id

/-- Two lists of equations that meet in no class of a state can be solved in either order. -/
theorem Classes.run_exchanged {profile : Profile} {s t : Classes} {first second : List Equation}
    (hapart : ∀ step ∈ first, step.Within fun id => ¬ s.Meets second id)
    (ht : s.run profile (first ++ second) = .ok t) :
    ∃ t', s.run profile (second ++ first) = .ok t' ∧ Agree id (fun _ => True) t t' := by
  have hdivided : Divided (fun id => ¬ s.Meets second id) (s.Meets second) s s s := by
    refine ⟨.refl _ s, .refl _ s, fun x y hx hy heq => hx ?_⟩
    unfold Meets at hy ⊢
    rwa [heq]
  have hsecond : ∀ step ∈ second, step.Within (s.Meets second) :=
    fun step hstep => ⟨⟨step, hstep, .inl rfl⟩, ⟨step, hstep, .inr rfl⟩⟩
  have hlikewise := (hdivided.run profile (.append first second) hapart hsecond).likewise
    (hdivided.run profile (Interleaved.append second first).symm hapart hsecond)
    fun _ _ _ _ h h' => h.agree h' fun x => (Classical.em (s.Meets second x)).symm
  generalize s.run profile (second ++ first) = swapped at hlikewise
  rw [ht] at hlikewise
  cases hlikewise with
  | ok hagree => exact ⟨_, rfl, hagree⟩

namespace Passing

variable {setting : Setting}

section

variable (p : Passing setting)

/-! ## When the order does not count -/

/-- A state in which the solver comes to what the operands ask for. -/
structure Reached (initial : Nat → TypeInfo) (s : Classes) : Prop where
  carries : ∀ step ∈ equationsOf p.asked, step.Carries initial
  run : (Classes.start initial).run setting.profile (equationsOf p.before.constraints) = .ok s

/-- What the operands ask for comes to the same in either order. -/
def Interchangeable : Prop :=
  ∀ initial s t, p.Reached initial s →
    s.run setting.profile (equationsOf p.leftAsked ++ equationsOf p.rightAsked) = .ok t →
      ∃ t', s.run setting.profile (equationsOf p.rightAsked ++ equationsOf p.leftAsked) = .ok t' ∧
        Agree id (fun _ => True) t t'

/-- The variables of the comparison's surroundings and of the placeholders in its operands. -/
def Outside (id : Nat) : Prop :=
  0 < id ∧ (id ≤ p.before.issued ∨ ∃ v ∈ p.leftVars ++ p.rightVars, v.id = id)

/-- The equation of the comparison comes to the same with its sides exchanged: they are not of two
types of one family, or no placeholder and nothing around the comparison is in a class with them. -/
def Indifferent : Prop :=
  ∀ initial s t, p.Reached initial s →
    s.run setting.profile (equationsOf p.leftAsked ++ equationsOf p.rightAsked) = .ok t →
      t.Balanced p.equation ∨ t.Apart p.Outside p.equation

variable {p}

/-- Operands that meet in no class can be solved in either order. -/
theorem interchangeable_of_apart
    (h : ∀ initial s, p.Reached initial s →
      ∀ step ∈ equationsOf p.leftAsked, step.Within fun id => ¬ s.Meets (equationsOf p.rightAsked) id) :
    p.Interchangeable :=
  fun initial s _ hs ht => Classes.run_exchanged (h initial s hs) ht

/-- The sides can be exchanged of which the solver knows no two types of one family. -/
theorem indifferent_of_balanced (hmiddle : p.middle.constraints = p.before.constraints ++ p.leftAsked)
    (hbehind : p.behind.constraints = p.middle.constraints ++ p.rightAsked)
    (h : ∀ solution, solve setting.profile p.behind.constraints = .ok solution →
      ∀ a b, solution.infoOf p.leftFound.var = .exact a → solution.infoOf p.rightFound.var = .exact b →
        a.family = b.family → a = b) : p.Indifferent := by
  intro initial s t hs ht
  have hrun : (Classes.start initial).run setting.profile (equationsOf p.behind.constraints) =
      .ok t := by
    rw [hbehind, hmiddle, List.append_assoc, equationsOf_append, Classes.run_append, hs.run, ok_bind,
      equationsOf_append]
    exact ht
  have hcarries := hs.carries
  rw [equationsOf_asked] at hcarries
  obtain ⟨solution, hsolve, hinfo⟩ := exists_solution
    (fun step hstep => hcarries step (List.mem_append_left _ hstep)) hrun
  obtain ⟨hleft, hright⟩ := hcarries p.equation (by simp)
  exact .inl fun a b ha hb hfamily =>
    h solution hsolve a b ((hinfo _ hleft).trans ha) ((hinfo _ hright).trans hb) hfamily

end

/-! ## Numbers -/

variable {p p' : Passing setting}

/-- The variables that are spoken of behind the comparison keep their numbers. -/
theorem Orderly.number_eq (h : p.Orderly) {id : Nat}
    (hid : id ≤ p.before.issued ∨ p.behind.issued < id) : p.number id = id := by
  have hmiddle := h.middleIssued
  have hbehind := h.behindIssued
  unfold number
  split_ifs <;> omega

theorem Orderly.number_injective (h : p.Orderly) : Function.Injective p.number := by
  intro x y heq
  have hmiddle := h.middleIssued
  have hbehind := h.behindIssued
  unfold number at heq
  split_ifs at heq <;> omega

/-! ## Solving up to the comparison and past it -/

theorem Orderly.equations (h : p.Orderly) :
    equationsOf p.asked = equationsOf p.before.constraints ++
      ((equationsOf p.leftAsked ++ equationsOf p.rightAsked) ++ [p.equation]) := by
  rw [equationsOf_asked, h.behind, h.middle]
  simp only [equationsOf_append, List.append_assoc]

/-- What is spoken of behind the comparison, and the placeholders in its operands. -/
def Told (p : Passing setting) (id : Nat) : Prop := p.Outside id ∨ p.behind.issued < id

namespace Traded

variable (h : p.Traded p')

include h

/-- The types of the mirrored walk, under the numbers of the first one. -/
theorem carries {initial : Nat → TypeInfo} (h' : ∀ step ∈ equationsOf p'.asked, step.Carries initial) :
    ∀ step ∈ equationsOf p.asked, step.Carries fun id => initial (p.number id) := by
  have hback : ∀ {steps steps' : List Equation}, List.Forall₂ (Equation.Paired p.number) steps steps' →
      (∀ step' ∈ steps', step' ∈ equationsOf p'.asked) →
      ∀ step ∈ steps, step.Carries fun id => initial (p.number id) := by
    intro steps steps' hsteps hsub step hstep
    obtain ⟨step', hstep', hpair⟩ := exists_partner hsteps.flip hstep
    have hcarries := h' step' (hsub step' hstep')
    exact ⟨hpair.left.carries hcarries.1, hpair.right.carries hcarries.2⟩
  have hequations := h.orderly'.equations
  rw [h.before] at hequations
  intro step hstep
  rw [h.orderly.equations] at hstep
  simp only [List.mem_append, List.mem_singleton] at hstep
  rcases hstep with hstep | (hstep | hstep) | rfl
  · -- before the comparison both walks speak of the same variables
    have hcarries := h' step (by simp [hequations, hstep])
    have hwithin := h.orderly.beforeWithin step hstep
    unfold Equation.Carries TypeVar.Carries at hcarries ⊢
    dsimp only
    rwa [h.orderly.number_eq (.inl hwithin.1), h.orderly.number_eq (.inl hwithin.2)]
  · exact hback h.leftAsked (fun step' hstep' => by simp [hequations, hstep']) step hstep
  · exact hback h.rightAsked (fun step' hstep' => by simp [hequations, hstep']) step hstep
  · have hcarries := h' p'.equation (by simp [hequations])
    exact ⟨h.leftFound.carries hcarries.2, h.rightFound.carries hcarries.1⟩

/-- Where the sides of the equation are in no class with anything around the comparison, they are in no
class with anything that is made later. -/
theorem apart_told {initial : Nat → TypeInfo} {s : Classes}
    (hs : (Classes.start initial).run setting.profile (equationsOf p.behind.constraints) = .ok s)
    (hapart : s.Apart p.Outside p.equation) : s.Apart p.Told p.equation := by
  have hwithin : ∀ step ∈ equationsOf p.behind.constraints ++ [p.equation],
      step.Within (· ≤ p.behind.issued) := p.equationsOf_asked ▸ h.orderly.within
  have hfresh := (Classes.Fresh.start p.behind.issued initial).run
    (fun step hstep => hwithin step (List.mem_append_left _ hstep)) hs
  obtain ⟨hleft, hright⟩ := hwithin p.equation (by simp)
  rintro id (hid | hid)
  · exact hapart id hid
  · have hleftLabel := hfresh.below _ hleft
    have hrightLabel := hfresh.below _ hright
    rw [(hfresh.alone id hid).1]
    omega

/-- Solving what is asked before the comparison. -/
theorem run_before {initial : Nat → TypeInfo} {s : Classes}
    (hs : (Classes.start fun id => initial (p.number id)).run setting.profile
      (equationsOf p.before.constraints) = .ok s) :
    ∃ s', (Classes.start initial).run setting.profile (equationsOf p.before.constraints) = .ok s' ∧
      Agree p.number (fun _ => True) s s' := by
  have hstart : Agree p.number (fun _ => True) (Classes.start fun id => initial (p.number id))
      (Classes.start initial) :=
    ⟨fun x y _ _ => h.orderly.number_injective.eq_iff.symm, fun _ _ => rfl⟩
  have hsame : List.Forall₂ (Equation.Renumbered p.number) (equationsOf p.before.constraints)
      (equationsOf p.before.constraints) := by
    refine List.forall₂_same.2 fun step hstep => ⟨rfl, rfl, rfl, ?_, ?_⟩
    · exact (h.orderly.number_eq (.inl (h.orderly.beforeWithin step hstep).1)).symm
    · exact (h.orderly.number_eq (.inl (h.orderly.beforeWithin step hstep).2)).symm
  exact (hstart.run setting.profile hsame fun _ _ => ⟨trivial, trivial⟩).of_ok hs

/-- Solving what the operands ask for, in the other order. -/
theorem run_operands (hoperands : p.Interchangeable) {initial : Nat → TypeInfo} {s s' t : Classes}
    (hs : p.Reached initial s) (hagree : Agree p.number (fun _ => True) s s')
    (ht : s.run setting.profile (equationsOf p.leftAsked ++ equationsOf p.rightAsked) = .ok t) :
    ∃ t', s'.run setting.profile (equationsOf p'.leftAsked ++ equationsOf p'.rightAsked) = .ok t' ∧
      Agree p.number (fun _ => True) t t' := by
  obtain ⟨u, hu, hflip⟩ := hoperands initial s t hs ht
  have hasked : List.Forall₂ (Equation.Renumbered p.number)
      (equationsOf p.rightAsked ++ equationsOf p.leftAsked)
      (equationsOf p'.leftAsked ++ equationsOf p'.rightAsked) :=
    List.rel_append (h.rightAsked.imp fun _ _ hstep => hstep.renumbered)
      (h.leftAsked.imp fun _ _ hstep => hstep.renumbered)
  obtain ⟨t', ht', hsame⟩ :=
    (hagree.run setting.profile hasked fun _ _ => ⟨trivial, trivial⟩).of_ok hu
  exact ⟨t', ht', hflip.trans hsame fun _ _ => trivial⟩

/-- Solving the equation, with its sides exchanged. -/
theorem run_equation {s s' t : Classes} (hagree : Agree p.number (fun _ => True) s s')
    (hside : s.Balanced p.equation ∨ s.Apart p.Told p.equation)
    (ht : s.merge setting.profile p.equation = .ok t) :
    ∃ t', s'.merge setting.profile p'.equation = .ok t' ∧ Agree p.number p.Told t t' := by
  let exchanged : Equation := (p'.equation.1, p.equation.2.2, p.equation.2.1)
  have hexchanged : exchanged.2 = (p.equation.2.2, p.equation.2.1) := rfl
  have hstrict : exchanged.1.strength = .strict := rfl
  obtain ⟨u, hu, hflip⟩ := Classes.merge_exchanged rfl hstrict hexchanged hside ht
  have hrenumbered : exchanged.Renumbered p.number p'.equation :=
    ⟨rfl, rfl, rfl, h.rightFound.id, h.leftFound.id⟩
  obtain ⟨t', ht', hend⟩ :=
    (hagree.merge setting.profile hrenumbered ⟨trivial, trivial⟩).of_ok hu
  exact ⟨t', ht', hflip.trans hend fun _ _ => trivial⟩

/-- Solving what is asked up to the comparison and in it. -/
theorem run (hoperands : p.Interchangeable) (hsides : p.Indifferent) {initial : Nat → TypeInfo}
    (h' : ∀ step ∈ equationsOf p'.asked, step.Carries initial) {s : Classes}
    (hs : (Classes.start fun id => initial (p.number id)).run setting.profile
      (equationsOf p.asked) = .ok s) :
    ∃ s', (Classes.start initial).run setting.profile (equationsOf p'.asked) = .ok s' ∧
      Agree p.number p.Told s s' := by
  have hequations := h.orderly'.equations
  rw [h.before] at hequations
  rw [equationsOf_asked, Classes.run_append] at hs
  obtain ⟨s₂, hbehind, hs⟩ := bind_eq_ok.1 hs
  have hsplit := hbehind
  rw [h.orderly.behind, h.orderly.middle, List.append_assoc, equationsOf_append,
    Classes.run_append, equationsOf_append] at hsplit
  obtain ⟨s₁, hs₁, hs₂⟩ := bind_eq_ok.1 hsplit
  rw [Classes.run_cons] at hs
  obtain ⟨s₃, hs₃, hs⟩ := bind_eq_ok.1 hs
  cases hs
  have hreached : p.Reached _ s₁ := ⟨h.carries h', hs₁⟩
  obtain ⟨s₁', hs₁', hagree₁⟩ := h.run_before hs₁
  obtain ⟨s₂', hs₂', hagree₂⟩ := h.run_operands hoperands hreached hagree₁ hs₂
  have hside : s₂.Balanced p.equation ∨ s₂.Apart p.Told p.equation :=
    (hsides _ s₁ s₂ hreached hs₂).imp_right (h.apart_told hbehind)
  obtain ⟨s', hs', hagree⟩ := h.run_equation hagree₂ hside hs₃
  refine ⟨s', ?_, hagree⟩
  rw [hequations, Classes.run_append, hs₁', ok_bind, Classes.run_append, hs₂', ok_bind,
    Classes.run_cons, hs']
  rfl

end Traded

/-! ## Solving behind the comparison -/

/-- What is said behind the comparison says the same if anything may be spoken of. -/
theorem stands_all {N : Naming} {c c' : Constraint} (hc : c.Stands (p.outlook N) c') :
    c.Stands (.all N) c' :=
  ⟨trivial, hc.strength, hc.coercion, hc.equations.imp fun _ _ hpair =>
    ⟨⟨trivial, hpair.1.relabelled⟩, ⟨trivial, hpair.2.relabelled⟩⟩⟩

namespace Crossed

variable {N : Naming} {r s s' : Run} {made : List TypeInfo} (h : p.Crossed p' N r s s')
  (htraded : p.Traded p') (hsound : s'.Sound made)

include h htraded hsound

/-- What two walks that have crossed ask for: up to the comparison and in it, and behind it. What they
ask behind it is between variables that keep their numbers. -/
theorem asked :
    ∃ later, s.constraints = p.asked ++ later ∧
      List.Forall₂ (Constraint.Stands (.all N)) (p'.asked ++ later) s'.constraints ∧
      (∀ step ∈ equationsOf (p'.asked ++ later), step.Carries (initialOf made)) ∧
      ∀ step ∈ equationsOf later, step.Within fun id => p.Told id ∧ p.number id = id := by
  obtain ⟨asked', later, later', hs, hs', hasked, hlater⟩ := h.constraints
  have hall : List.Forall₂ (Constraint.Stands (.all N)) (p'.asked ++ later) s'.constraints :=
    hs' ▸ List.rel_append hasked (hlater.imp fun _ _ => stands_all)
  refine ⟨later, hs, hall, fun step hstep => ?_, fun step hstep => ?_⟩
  · obtain ⟨step', hstep', hleft, hright⟩ := exists_partner (equationsOf_compared hall).flip hstep
    have hcarries := hsound.carries step' hstep'
    exact ⟨hleft.relabelled.carries_iff.1 hcarries.1, hright.relabelled.carries_iff.1 hcarries.2⟩
  · obtain ⟨step', hstep', hleft, hright⟩ := exists_partner (equationsOf_compared hlater).flip hstep
    have hissued := hsound.steps step' (by
      rw [hs', equationsOf_append]
      exact List.mem_append_right _ hstep')
    have htold : ∀ v v' : TypeVar, v.Stands (p.outlook N) v' → v'.Issued made →
        p.Told v.id ∧ p.number v.id = v.id := by
      intro v v' hv hv'
      have hmade : 0 < v.id := hv.relabelled.id ▸ hv'.1
      exact ⟨hv.seen.imp (fun hid => ⟨hmade, .inl hid⟩) id, htraded.orderly.number_eq hv.seen⟩
    exact ⟨htold _ _ hleft hissued.1, htold _ _ hright hissued.2⟩

/-- What can be solved behind a comparison can be solved behind its mirror. The same is found out of
what is spoken of behind the comparison, and of the placeholders in its operands. -/
theorem solve (hoperands : p.Interchangeable) (hsides : p.Indifferent) {solution : Solution}
    (hsolve : QuerySignature.solve setting.profile s.constraints = .ok solution) :
    ∃ solution', QuerySignature.solve setting.profile s'.constraints = .ok solution' ∧
      ∀ v v' : TypeVar, v.Paired p.number v' → p.Told v.id → v'.Carries (initialOf made) →
        solution'.infoOf v' = solution.infoOf v := by
  obtain ⟨later, hs, hall, hcarries', hlater⟩ := h.asked htraded hsound
  rw [hs] at hsolve
  rw [equationsOf_append] at hcarries'
  have hasked' := fun step hstep => hcarries' step (List.mem_append_left _ hstep)
  have hcarries : ∀ step ∈ equationsOf (p.asked ++ later),
      step.Carries fun id => initialOf made (p.number id) := by
    rw [equationsOf_append]
    refine List.forall_mem_append.2 ⟨htraded.carries hasked', fun step hstep => ?_⟩
    have hown := hcarries' step (List.mem_append_right _ hstep)
    unfold Equation.Carries TypeVar.Carries at hown ⊢
    dsimp only
    rwa [(hlater step hstep).1.2, (hlater step hstep).2.2]
  -- up to the comparison and in it, then behind it
  obtain ⟨t, ht, hsolution⟩ := exists_classes hcarries hsolve
  rw [equationsOf_append, Classes.run_append] at ht
  obtain ⟨t₀, ht₀, ht⟩ := bind_eq_ok.1 ht
  obtain ⟨u₀, hu₀, hagree₀⟩ := htraded.run hoperands hsides hasked' ht₀
  have hrenumbered : List.Forall₂ (Equation.Renumbered p.number) (equationsOf later)
      (equationsOf later) :=
    List.forall₂_same.2 fun step hstep =>
      ⟨rfl, rfl, rfl, (hlater step hstep).1.2.symm, (hlater step hstep).2.2.symm⟩
  obtain ⟨u, hu, hagree⟩ := (hagree₀.run setting.profile hrenumbered fun step hstep =>
    ⟨(hlater step hstep).1.1, (hlater step hstep).2.1⟩).of_ok ht
  -- the second walk labels its constraints in its own way
  rw [← equationsOf_append] at hcarries'
  have hrun' : (Classes.start (initialOf made)).run setting.profile
      (equationsOf (p'.asked ++ later)) = .ok u := by
    rw [equationsOf_append, Classes.run_append, hu₀, ok_bind, hu]
  obtain ⟨solution', hsolve', hsolution'⟩ := exists_solution hcarries' hrun'
  have hlikewise := solve_compared (L := (Outlook.all N).likeness)
    (fun _ _ hv => TypeVar.Stands.relabelled hv) setting.profile hall
  rw [hsolve'] at hlikewise
  generalize QuerySignature.solve setting.profile s'.constraints = solved at hlikewise
  cases hlikewise with
  | ok heq =>
    subst heq
    refine ⟨solution', rfl, fun v v' hv hid hv' => ?_⟩
    calc
      solution'.infoOf v' = u.infoOf v'.id := hsolution' v' hv'
      _ = u.infoOf (p.number v.id) := by rw [hv.id]
      _ = t.infoOf v.id := (hagree.info v.id hid).symm
      _ = solution.infoOf v := (hsolution v (hv.carries hv')).symm

end Crossed

end Passing

end QuerySignature
