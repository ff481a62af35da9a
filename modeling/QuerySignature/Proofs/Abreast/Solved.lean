import QuerySignature.Proofs.Abreast.Steps
import QuerySignature.Proofs.Described

namespace QuerySignature

/-! # Solving what walks abreast add

Constraints that stand for one another say the same of variables under other numbers. So they are
solved alike, and the same is found out of variables that stand for one another.

- `run_paired`: solving equations that stand for one another.
- `FirstsCarry.of_paired`: the types with which variables occur first.
- `OutputColumn.Abreast.result`: output columns that stand for one another are described alike.
-/

/-- Different variables have different numbers. -/
def Separates (number : Nat → Nat) : Prop :=
  ∀ x y, 0 < x → 0 < y → number x = number y → x = y

/-- An equation, and the same one between variables under other numbers. -/
structure Equation.Paired (number : Nat → Nat) (step step' : Equation) : Prop where
  label : step'.1.label = step.1.label
  strength : step'.1.strength = step.1.strength
  coercion : step'.1.coercion = step.1.coercion
  left : step.2.1.Paired number step'.2.1
  right : step.2.2.Paired number step'.2.2

section

variable {number : Nat → Nat}

theorem TypeVar.Paired.carries {v v' : TypeVar} (h : v.Paired number v') {initial : Nat → TypeInfo}
    (hv' : v'.Carries initial) : v.Carries fun id => initial (number id) := by
  unfold TypeVar.Carries at hv' ⊢
  rw [h.info, h.id] at hv'
  exact hv'

theorem Equation.Paired.renumbered {step step' : Equation} (h : step.Paired number step') :
    step.Renumbered number step' :=
  ⟨h.label, h.strength, h.coercion, h.left.id, h.right.id⟩

theorem Equation.Paired.made {step step' : Equation} (h : step.Paired number step') :
    step.Within (0 < ·) :=
  ⟨h.left.made, h.right.made⟩

/-- An equation behind `n` variables is none between these. -/
theorem Equation.Paired.beyond {n : Nat} {step step' : Equation} (h : step.Paired (· + n) step') :
    step'.Within (n < ·) := by
  have hleft := h.left.id
  have hright := h.right.id
  have hmade := h.made
  constructor
  · have hpos := hmade.1
    omega
  · have hpos := hmade.2
    omega

theorem equationsOf_paired {cs cs' : List Constraint}
    (h : List.Forall₂ (Constraint.Paired number) cs cs') :
    List.Forall₂ (Equation.Paired number) (equationsOf cs) (equationsOf cs') := by
  induction h with
  | nil => exact .nil
  | @cons c c' rest rest' hc _ ih =>
    refine List.rel_append (List.rel_map (fun p p' hp => ?_) hc.equations) ih
    exact ⟨hc.label, hc.strength, hc.coercion, hp.1, hp.2⟩

theorem occurrences_paired {steps steps' : List Equation}
    (h : List.Forall₂ (Equation.Paired number) steps steps') :
    List.Forall₂ (TypeVar.Paired number) (occurrences steps) (occurrences steps') := by
  induction h with
  | nil => exact .nil
  | cons hstep _ ih => exact .cons hstep.left (.cons hstep.right ih)

/-- Variables occur first at the same places. -/
theorem firstOf_paired (hnumber : Separates number) {vars vars' : List TypeVar}
    (h : List.Forall₂ (TypeVar.Paired number) vars vars') {id : Nat} (hid : 0 < id) :
    Option.Rel (TypeVar.Paired number) (firstOf vars id) (firstOf vars' (number id)) := by
  induction h with
  | nil => exact .none
  | @cons v v' _ _ hv _ ih =>
    rw [firstOf_cons, firstOf_cons, hv.id]
    by_cases hsame : v.id = id
    · rw [if_pos hsame, if_pos (by rw [hsame])]
      exact .some hv
    · rw [if_neg hsame, if_neg fun heq => hsame (hnumber _ _ hv.made hid heq)]
      exact ih

/-- What variables under other numbers carry where they occur first, the variables carry there. -/
theorem FirstsCarry.of_paired (hnumber : Separates number) {initial : Nat → TypeInfo}
    {vars vars' : List TypeVar} (h : FirstsCarry initial vars')
    (hvars : List.Forall₂ (TypeVar.Paired number) vars vars') :
    FirstsCarry (fun id => initial (number id)) vars := by
  intro id v hv
  have hvid : v.id = id := by simpa using List.find?_some hv
  -- only numbers of variables that have been made are kept apart
  have hmade : 0 < id := by
    rcases exists_partner hvars.flip (List.mem_of_find?_eq_some hv) with ⟨v', -, hpair⟩
    rw [← hvid]
    exact hpair.made
  have hfirst := firstOf_paired hnumber hvars hmade
  rw [hv] at hfirst
  generalize hfound : firstOf vars' (number id) = found at hfirst
  cases hfirst with
  | @some _ v' hpair => exact hpair.carries (h _ v' hfound)

/-- Where a variable does not occur, neither does the one that stands for it. -/
theorem TypeVar.Paired.not_mem {v v' : TypeVar} (h : v.Paired number v') {vars vars' : List TypeVar}
    (hvars : List.Forall₂ (TypeVar.Paired number) vars vars') (hnumber : Separates number)
    (hv : ¬ ∃ w ∈ vars, w.id = v.id) : ¬ ∃ w ∈ vars', w.id = v'.id := by
  rintro ⟨w', hw', heq⟩
  rcases exists_partner hvars hw' with ⟨w, hw, hpair⟩
  rw [hpair.id, h.id] at heq
  exact hv ⟨w, hw, hnumber _ _ hpair.made h.made heq⟩

/-- Solving equations that stand for one another. -/
theorem run_paired (hnumber : Separates number) (profile : Profile) (initial : Nat → TypeInfo)
    {steps steps' : List Equation} (hsteps : List.Forall₂ (Equation.Paired number) steps steps') :
    Alike (Agree number (0 < ·)) ((Classes.start fun id => initial (number id)).run profile steps)
      ((Classes.start initial).run profile steps') := by
  have hstart : Agree number (0 < ·) (Classes.start fun id => initial (number id))
      (Classes.start initial) := by
    refine ⟨fun x y hx hy => ?_, fun x _ => rfl⟩
    show x = y ↔ number x = number y
    constructor
    · intro heq
      rw [heq]
    · exact hnumber x y hx hy
  refine hstart.run profile (hsteps.imp fun _ _ hstep => hstep.renumbered) ?_
  intro step hstep
  rcases exists_partner hsteps.flip hstep with ⟨_, -, hpair⟩
  exact hpair.made

end

/-! ## Descriptions -/

section

variable {solution solution' : Solution} {profile : Profile}

/-- An output column is described alike in both walks, when the same is known of its variables. -/
theorem OutputColumn.Abreast.result {P : Pasts} {c c' : OutputColumn} (h : c.Abreast P c')
    (hinfo : ∀ v v', v.Paired P.number v' → solution'.infoOf v' = solution.infoOf v) :
    c'.result solution' profile = c.result solution profile := by
  have htype : ∀ v v', v.Paired P.number v' →
      solution'.typeOf profile v' = solution.typeOf profile v :=
    fun v v' hv => typeOf_eq (hinfo v v' hv)
  -- the type of a column is widened by its types in the other branches, one after the other
  have hfold : ∀ vs vs' : List TypeVar, List.Forall₂ (TypeVar.Paired P.number) vs vs' →
      ∀ first : SqlType,
        vs'.foldl (fun type var => type.widest (solution'.typeOf profile var)) first =
          vs.foldl (fun type var => type.widest (solution.typeOf profile var)) first := by
    intro vs vs' hvs
    induction hvs with
    | nil => exact fun _ => rfl
    | cons hv _ ih =>
      intro first
      rw [List.foldl_cons, List.foldl_cons, htype _ _ hv]
      exact ih _
  unfold OutputColumn.result OutputColumn.type
  rw [h.name, h.notNull, h.table, htype _ _ h.var, hfold _ _ h.unionVars]

end

end QuerySignature
