import QuerySignature.Proofs.Abreast.Solved
import QuerySignature.Proofs.Abreast.Steps
import QuerySignature.Proofs.Abreast.Walk
import QuerySignature.Proofs.Mirrored.Syntax

namespace QuerySignature

/-! # Two operands in the other order

Behind one run, two operands can be analysed in either order. Each of them makes the same variables, asks
the same of them and collects the same placeholders wherever it comes; only the numbers change places.

- `Passing.number`: the numbers that the variables have in the other order.
- `Passing.Traded`: the walk over the mirrored comparison, beside the walk over the comparison.
- `Passing.exists_traded`: there is such a walk.
-/

namespace Passing

variable {setting : Setting} (p : Passing setting)

/-- What the left operand asks for. -/
def leftAsked : List Constraint := p.middle.constraints.drop p.before.constraints.length

/-- What the right operand asks for. -/
def rightAsked : List Constraint := p.behind.constraints.drop p.middle.constraints.length

/-- The variables of the placeholders in the left operand. -/
def leftVars : List TypeVar := p.middle.vars.drop p.before.vars.length

/-- The variables of the placeholders in the right operand. -/
def rightVars : List TypeVar := p.behind.vars.drop p.middle.vars.length

/-- All constraints behind the comparison. -/
def asked : List Constraint :=
  p.behind.constraints ++
    [.strict p.comparison.text (.var p.leftFound.var) (.var p.rightFound.var)]

/-- The equation of the comparison. -/
def equation : Equation :=
  (.strict p.comparison.text (.var p.leftFound.var) (.var p.rightFound.var), p.leftFound.var,
    p.rightFound.var)

/-- The numbers of the variables when the right operand is analysed first. -/
def number (id : Nat) : Nat :=
  if id ≤ p.before.issued then id
  else if id ≤ p.middle.issued then id + (p.behind.issued - p.middle.issued)
  else if id ≤ p.behind.issued then id - (p.middle.issued - p.before.issued)
  else id

/-- The operands only add to the run. -/
structure Orderly (p : Passing setting) : Prop where
  middleIssued : p.before.issued ≤ p.middle.issued
  behindIssued : p.middle.issued ≤ p.behind.issued
  middle : p.middle.constraints = p.before.constraints ++ p.leftAsked
  behind : p.behind.constraints = p.middle.constraints ++ p.rightAsked
  middleVars : p.middle.vars = p.before.vars ++ p.leftVars
  behindVars : p.behind.vars = p.middle.vars ++ p.rightVars
  ctes : p.behind.ctes = p.before.ctes
  beforeWithin : ∀ step ∈ equationsOf p.before.constraints, step.Within (· ≤ p.before.issued)
  within : ∀ step ∈ equationsOf p.asked, step.Within (· ≤ p.behind.issued)

/-- The walk over the mirrored comparison, from the same run. -/
structure Traded (p p' : Passing setting) : Prop where
  comparison : p'.comparison = p.mirrored
  scope : p'.scope = p.scope
  before : p'.before = p.before
  issued : p'.behind.issued = p.behind.issued
  orderly : p.Orderly
  orderly' : p'.Orderly
  leftAsked : List.Forall₂ (Equation.Paired p.number) (equationsOf p.leftAsked)
    (equationsOf p'.rightAsked)
  rightAsked : List.Forall₂ (Equation.Paired p.number) (equationsOf p.rightAsked)
    (equationsOf p'.leftAsked)
  leftVars : List.Forall₂ (TypeVar.Paired p.number) p.leftVars p'.rightVars
  rightVars : List.Forall₂ (TypeVar.Paired p.number) p.rightVars p'.leftVars
  leftFound : p.leftFound.var.Paired p.number p'.rightFound.var
  rightFound : p.rightFound.var.Paired p.number p'.leftFound.var

theorem equationsOf_asked :
    equationsOf p.asked = equationsOf p.behind.constraints ++ [p.equation] :=
  equationsOf_append _ _

/-- A comparison asks between variables that have been made when its operands do. -/
theorem within_asked {made made' : List TypeInfo} (hbehind : p.behind.Sound made')
    (hgrows : made <+: made') (hleft : p.leftFound.var.Issued made)
    (hright : p.rightFound.var.Issued made') :
    ∀ step ∈ equationsOf p.asked, step.Within (· ≤ p.behind.issued) := by
  intro step hstep
  rw [equationsOf_asked] at hstep
  rcases List.mem_append.1 hstep with hstep | hstep
  · exact hbehind.within step hstep
  · obtain rfl := List.mem_singleton.1 hstep
    exact ⟨hbehind.issued ▸ (hleft.mono hgrows).le, hbehind.issued ▸ hright.le⟩

end Passing

/-- An expression is analysed alike behind a run and behind one that has made some more variables. -/
theorem Abreast.expr_parted {setting : Setting} {scope : Scope} {made : List TypeInfo}
    {before behind : Run} {more : Nat} (h : before.Sound made)
    (hscope : scope.Matches .none made scope) (hissued : behind.issued = before.issued + more)
    (hctes : behind.ctes = before.ctes) (e : Expr) :
    Alike (Arrived (.parted before behind more hissued)
        (Inferred.Compared (Pasts.parted before behind more hissued).likeness) before behind)
      ((inferExpr setting scope e).outcome before) ((inferExpr setting scope e).outcome behind) := by
  have hle : made.length ≤ before.issued := Nat.le_of_eq h.issued.symm
  have hseen : Scope.Related (Pasts.parted before behind more hissued).Columns scope scope :=
    ⟨hscope.issued.paired hle, List.forall₂_same.2 fun l hl => (hscope.outer.issued l hl).paired hle⟩
  exact Abreast.expr setting e (Parallel.reads_all _) hseen before behind (.start _)
    fun name _ => Pasts.parted_seesAlike h behind hissued hctes name

/-- What two steps abreast add. -/
structure Added (number : Nat → Nat) (r r' s s' : Run) : Prop where
  issued : ∃ k, s.issued = r.issued + k ∧ s'.issued = r'.issued + k
  constraints : s.constraints = r.constraints ++ s.constraints.drop r.constraints.length
  constraints' : s'.constraints = r'.constraints ++ s'.constraints.drop r'.constraints.length
  asked : List.Forall₂ (Equation.Paired number)
    (equationsOf (s.constraints.drop r.constraints.length))
    (equationsOf (s'.constraints.drop r'.constraints.length))
  vars : s.vars = r.vars ++ s.vars.drop r.vars.length
  vars' : s'.vars = r'.vars ++ s'.vars.drop r'.vars.length
  collected : List.Forall₂ (fun v v' => TypeVar.Paired number v v' ∧ v.id ≤ s.issued)
    (s.vars.drop r.vars.length) (s'.vars.drop r'.vars.length)

theorem Run.Abreast.added {P : Pasts} {s s' : Run} (h : s.Abreast P s') :
    Added P.number P.first P.second s s' := by
  obtain ⟨cs, cs', hcs, hcs', hpairs⟩ := h.constraints
  obtain ⟨ps, ps', hps, hps', hpairs'⟩ := h.placeholders
  have hvars : s.vars = P.first.vars ++ ps.map (·.var) := by
    unfold Run.vars
    rw [hps, List.map_append]
  have hvars' : s'.vars = P.second.vars ++ ps'.map (·.var) := by
    unfold Run.vars
    rw [hps', List.map_append]
  refine ⟨h.issued, ?_, ?_, ?_, ?_, ?_, ?_⟩
  · rw [hcs, List.drop_left]
  · rw [hcs', List.drop_left]
  · rw [hcs, hcs', List.drop_left, List.drop_left]
    exact equationsOf_paired hpairs
  · rw [hvars, List.drop_left]
  · rw [hvars', List.drop_left]
  · rw [hvars, hvars', List.drop_left, List.drop_left]
    exact List.rel_map (fun _ _ hp => ⟨hp.var, hp.le⟩) hpairs'

namespace Passing

variable {setting : Setting}

section Numbers

variable {p : Passing setting}

/-- A variable of the left operand, behind the right one in the other order. -/
theorem paired_left {more : Nat} (hbehind : p.behind.issued = p.middle.issued + more)
    {v v' : TypeVar} (h : v.Paired (Renaming.mk p.before.issued more).apply v')
    (hle : v.id ≤ p.middle.issued) : v.Paired p.number v' := by
  have hnumber : p.number v.id = (Renaming.mk p.before.issued more).apply v.id := by
    unfold number Renaming.apply
    dsimp only
    split_ifs <;> omega
  refine ⟨h.made, ?_⟩
  rw [hnumber]
  exact h.eq

/-- A variable of the right operand, in front of the left one in the other order. -/
theorem paired_right {more : Nat} (hmiddle : p.middle.issued = p.before.issued + more)
    {w w' : TypeVar} (h : w'.Paired (Renaming.mk p.before.issued more).apply w)
    (hle : w'.id + more ≤ p.behind.issued) : w.Paired p.number w' := by
  have hmade := h.made
  have hid := h.id
  unfold Renaming.apply at hid
  dsimp only at hid
  have hnumber : p.number w.id = w'.id := by
    unfold number
    split_ifs at hid ⊢ <;> omega
  refine ⟨?_, ?_⟩
  · split_ifs at hid <;> omega
  · rw [hnumber, h.eq]

/-- An equation of the left operand. -/
theorem equation_left {more : Nat} (hbehind : p.behind.issued = p.middle.issued + more)
    {step step' : Equation} (hwithin : step.Within (· ≤ p.middle.issued))
    (h : step.Paired (Renaming.mk p.before.issued more).apply step') : step.Paired p.number step' :=
  ⟨h.label, h.strength, h.coercion, paired_left hbehind h.left hwithin.1,
    paired_left hbehind h.right hwithin.2⟩

/-- An equation of the right operand. -/
theorem equation_right {more : Nat} (hmiddle : p.middle.issued = p.before.issued + more)
    {step step' : Equation} (hwithin : step'.Within (· + more ≤ p.behind.issued))
    (h : step'.Paired (Renaming.mk p.before.issued more).apply step) : step.Paired p.number step' :=
  ⟨h.label.symm, h.strength.symm, h.coercion.symm, paired_right hmiddle h.left hwithin.1,
    paired_right hmiddle h.right hwithin.2⟩

end Numbers

/-- The runs behind the operands are sound. -/
structure Made (p : Passing setting) (made made' : List TypeInfo) : Prop where
  middle : p.middle.Sound made
  behind : p.behind.Sound made'
  left : p.leftFound.var.Issued made
  right : p.rightFound.var.Issued made'
  ctes : p.middle.ctes = p.before.ctes
  orderly : p.Orderly

theorem Made.leftWithin {p : Passing setting} {made made' : List TypeInfo} (h : p.Made made made') :
    ∀ step ∈ equationsOf p.leftAsked, step.Within (· ≤ p.middle.issued) := by
  intro step hstep
  refine h.middle.within step ?_
  rw [h.orderly.middle, equationsOf_append]
  exact List.mem_append_right _ hstep

/-- The placeholders of an operand come behind those of the run. -/
theorem vars_of_operand {scope : Scope} {made : List TypeInfo} {e : Expr} {found : Inferred}
    {r s : Run} (h : r.Sound made) (hscope : scope.Matches .none made scope)
    (hrun : (inferExpr setting scope e).outcome r = .ok (found, s)) :
    s.vars = r.vars ++ s.vars.drop r.vars.length := by
  obtain ⟨_, -, harrived⟩ := (Abreast.expr_parted h hscope (Nat.add_zero _).symm rfl e).of_ok hrun
  exact harrived.runs.added.vars

/-- Behind a sound run, the operands of a comparison only add to it. -/
theorem exists_made (p : Passing setting) {made : List TypeInfo} (h : p.before.Sound made)
    (hscope : p.scope.Matches .none made p.scope) : ∃ made₁ made₂, p.Made made₁ made₂ := by
  obtain ⟨made₁, hgrows₁, hmiddle, hasked₁, hctes₁, hleft⟩ :=
    h.advance (.expr setting p.left (Parallel.reads_all _) hscope) p.walkLeft
  have hscope₁ := hscope.mono hgrows₁
  obtain ⟨made₂, hgrows₂, hbehind, hasked₂, hctes₂, hright⟩ :=
    hmiddle.advance (.expr setting p.right (Parallel.reads_all _) hscope₁) p.walkRight
  have hle₁ : p.before.issued ≤ p.middle.issued := by
    rw [h.issued, hmiddle.issued]
    exact hgrows₁.length_le
  have hle₂ : p.middle.issued ≤ p.behind.issued := by
    rw [hmiddle.issued, hbehind.issued]
    exact hgrows₂.length_le
  refine ⟨made₁, made₂, hmiddle, hbehind, hleft.var.issued, hright.var.issued, hctes₁, hle₁, hle₂,
    (List.prefix_iff_eq_append.1 hasked₁).symm, (List.prefix_iff_eq_append.1 hasked₂).symm,
    vars_of_operand h hscope p.walkLeft, vars_of_operand hmiddle hscope₁ p.walkRight,
    hctes₂.trans hctes₁, h.within, ?_⟩
  exact p.within_asked hbehind hgrows₂ hleft.var.issued hright.var.issued

/-- The operands can be analysed in the other order. -/
theorem exists_traded (p : Passing setting) {made : List TypeInfo} (h : p.before.Sound made)
    (hscope : p.scope.Matches .none made p.scope) : ∃ p' : Passing setting, p.Traded p' := by
  obtain ⟨made₁, made₂, hp⟩ := p.exists_made h hscope
  obtain ⟨a, ha⟩ := Nat.exists_eq_add_of_le hp.orderly.middleIssued
  obtain ⟨b, hb⟩ := Nat.exists_eq_add_of_le hp.orderly.behindIssued
  -- the right operand from the run in which the left one is analysed
  obtain ⟨⟨rightFound, middle⟩, hwalkRight, hrights⟩ :=
    (Abreast.expr_parted h hscope ha hp.ctes p.right).to_ok p.walkRight
  have haddedRight := hrights.runs.added
  obtain ⟨k, hk, hk'⟩ := haddedRight.issued
  dsimp only [Pasts.parted] at hk hk'
  have hmiddle : middle.issued = p.before.issued + b := by omega
  -- and the left one behind it
  obtain ⟨⟨leftFound, behind⟩, hwalkLeft, hlefts⟩ :=
    (Abreast.expr_parted h hscope hmiddle hrights.ctes p.left).of_ok p.walkLeft
  have haddedLeft := hlefts.runs.added
  obtain ⟨j, hj, hj'⟩ := haddedLeft.issued
  dsimp only [Pasts.parted] at hj hj'
  let p' : Passing setting := ⟨p.op.mirror, p.right, p.left, p.scope, p.before, rightFound, middle,
    leftFound, behind, hwalkRight, hwalkLeft⟩
  obtain ⟨made₃, made₄, hp'⟩ := p'.exists_made h hscope
  have hissued : behind.issued = p.behind.issued := by omega
  have hfits : ∀ id, id ≤ middle.issued → id + a ≤ p.behind.issued := by
    intro id hid
    omega
  have hleftAsked : List.Forall₂ (Equation.Paired p.number) (equationsOf p.leftAsked)
      (equationsOf p'.rightAsked) :=
    ((List.forall₂_and_left _ _).2 ⟨hp.leftWithin, haddedLeft.asked⟩).imp
      fun _ _ hstep => equation_left hb hstep.1 hstep.2
  have hrightAsked : List.Forall₂ (Equation.Paired p.number) (equationsOf p.rightAsked)
      (equationsOf p'.leftAsked) :=
    (((List.forall₂_and_left _ _).2 ⟨hp'.leftWithin, haddedRight.asked⟩).imp fun _ _ hstep =>
      equation_right ha ⟨hfits _ hstep.1.1, hfits _ hstep.1.2⟩ hstep.2).flip
  have hleftVars : List.Forall₂ (TypeVar.Paired p.number) p.leftVars p'.rightVars :=
    haddedLeft.collected.imp fun _ _ hv => paired_left hb hv.1 hv.2
  have hrightVars : List.Forall₂ (TypeVar.Paired p.number) p.rightVars p'.leftVars :=
    (haddedRight.collected.imp fun _ _ hv => paired_right ha hv.1 (hfits _ hv.2)).flip
  have hleft : p.leftFound.var.id ≤ p.middle.issued := hp.middle.issued ▸ hp.left.le
  have hright : rightFound.var.id ≤ middle.issued := hp'.middle.issued ▸ hp'.left.le
  exact ⟨p', rfl, rfl, rfl, hissued, hp.orderly, hp'.orderly, hleftAsked, hrightAsked, hleftVars,
    hrightVars, paired_left hb hlefts.values.var hleft,
    paired_right ha hrights.values.var (hfits _ hright)⟩

end Passing

end QuerySignature
