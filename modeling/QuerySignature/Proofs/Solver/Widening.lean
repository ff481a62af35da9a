import QuerySignature.Proofs.Solver.Components

namespace QuerySignature

/-! # Widening in any order

The types of a dialect that widen into one another are in a line: below all of them is what is not
known, and `number` has its place right above the type of doubles. Widening two of them takes the upper
one, so constraints that only widen give every variable the uppermost type of its component.

- `TypeInfo.place_widest`: widening takes the upper of two places.
- `Classes.isWidestOf_infoOf`: the type of a class is the uppermost of its members' types.
- `solve_widest_any_order`: the order of widening constraints and the side of their terms change no
  type.
-/

/-- The types of a dialect that widen into one another, from the narrowest to the widest. -/
def Dialect.rankedTypes : Dialect → List SqlType
  | mysql => [.tinyInt, .smallInt, .mediumInt, .int, .bigInt, .float, .double, .decimal, .varchar]
  | sqlite => [.storageInteger, .storageReal, .storageNumeric, .storageText]

namespace Dialect

variable {d : Dialect} {a b : SqlType}

theorem exists_rank (ha : a ∈ d.rankedTypes) : ∃ r, a.rank = some r := by
  have h : ∀ t ∈ d.rankedTypes, t.rank.isSome := by cases d <;> decide
  exact Option.isSome_iff_exists.1 (h a ha)

/-- Ranks tell the types of a dialect apart. -/
theorem eq_of_rank (ha : a ∈ d.rankedTypes) (hb : b ∈ d.rankedTypes) (h : a.rank = b.rank) :
    a = b := by
  have hinj : ∀ t ∈ d.rankedTypes, ∀ u ∈ d.rankedTypes, t.rank = u.rank → t = u := by
    cases d <;> decide
  exact hinj a ha b hb h

theorem exists_floatRank (d : Dialect) : ∃ f, (Profile.ofDialect d).floatType.rank = some f := by
  cases d <;> exact ⟨6, rfl⟩

end Dialect

/-! ## Places -/

namespace TypeInfo

/-- What takes part in widening: a type with a rank, `number`, and what is not known. -/
def Ranked (d : Dialect) : TypeInfo → Prop
  | exact t => t ∈ d.rankedTypes
  | number | unknown => True

instance (d : Dialect) (info : TypeInfo) : Decidable (info.Ranked d) :=
  match info with
  | exact t => inferInstanceAs (Decidable (t ∈ d.rankedTypes))
  | number | unknown => inferInstanceAs (Decidable True)

/-- The place in the order of widening. Types stand by their ranks, what is not known below all of them,
and `number` between the type of doubles and the next one. -/
def place (profile : Profile) : TypeInfo → Nat
  | unknown => 0
  | exact t => 2 * t.rank.getD 0 + 1
  | number => 2 * profile.floatType.rank.getD 0 + 2

variable {d : Dialect} {left right : TypeInfo}

/-- Widening takes the upper of two places. -/
theorem place_widest (hleft : left.Ranked d) (hright : right.Ranked d) :
    (widest (.ofDialect d) left right).place (.ofDialect d) =
      max (left.place (.ofDialect d)) (right.place (.ofDialect d)) := by
  rcases d.exists_floatRank with ⟨f, hf⟩
  cases left with
  | unknown => cases right <;> simp [widest, place]
  | number =>
    cases right with
    | unknown => simp [widest, place]
    | number => simp [widest]
    | exact b =>
      rcases Dialect.exists_rank hright with ⟨r, hr⟩
      simp only [widest, rankAbove, hf, hr, decide_eq_true_eq]
      split <;> simp only [place, hf, hr, Option.getD_some] <;> omega
  | exact a =>
    rcases Dialect.exists_rank hleft with ⟨l, hl⟩
    cases right with
    | unknown => simp [widest, place]
    | number =>
      simp only [widest, rankAbove, hf, hl, Option.isNone_some, Bool.false_or, decide_eq_true_eq]
      split <;> simp only [place, hf, hl, Option.getD_some] <;> omega
    | exact b =>
      rcases Dialect.exists_rank hright with ⟨r, hr⟩
      simp only [widest, SqlType.widest, hl, hr, place]
      split <;> simp only [hl, hr, Option.getD_some] <;> omega

/-- A place belongs to one type. -/
theorem eq_of_place (hleft : left.Ranked d) (hright : right.Ranked d)
    (h : left.place (.ofDialect d) = right.place (.ofDialect d)) : left = right := by
  cases left with
  | unknown => cases right <;> simp [place] at h ⊢
  | number =>
    cases right with
    | unknown => simp [place] at h
    | number => rfl
    | exact b =>
      simp only [place] at h
      omega
  | exact a =>
    cases right with
    | unknown => simp [place] at h
    | number =>
      simp only [place] at h
      omega
    | exact b =>
      rcases Dialect.exists_rank hleft with ⟨l, hl⟩
      rcases Dialect.exists_rank hright with ⟨r, hr⟩
      simp only [place, hl, hr, Option.getD_some] at h
      have hrank : a.rank = b.rank := by
        rw [hl, hr]
        exact congrArg some (by omega)
      exact congrArg exact (Dialect.eq_of_rank hleft hright hrank)

example : [unknown, exact .tinyInt, exact .smallInt, exact .mediumInt, exact .int, exact .bigInt,
    exact .float, exact .double, number, exact .decimal, exact .varchar].Pairwise
      (fun a b => a.place .mysql < b.place .mysql) := by
  decide

example : [unknown, exact .storageInteger, exact .storageReal, number, exact .storageNumeric,
    exact .storageText].Pairwise (fun a b => a.place .sqlite < b.place .sqlite) := by
  decide

end TypeInfo

/-- The uppermost of the types in the component of a variable. -/
structure IsWidestOf (profile : Profile) (initial : Nat → TypeInfo) (steps : List Equation) (i : Nat)
    (info : TypeInfo) : Prop where
  mem : ∃ j, Connected steps i j ∧ initial j = info
  le : ∀ j, Connected steps i j → (initial j).place profile ≤ info.place profile

theorem IsWidestOf.reordered {profile : Profile} {initial : Nat → TypeInfo}
    {constraints other : List Constraint} {i : Nat} {info : TypeInfo}
    (h : IsWidestOf profile initial (equationsOf other) i info) (hother : Reordered constraints other) :
    IsWidestOf profile initial (equationsOf constraints) i info := by
  refine ⟨?_, fun j hij => h.le j (hother.connected_iff.2 hij)⟩
  rcases h.mem with ⟨j, hij, hinfo⟩
  exact ⟨j, hother.connected_iff.1 hij, hinfo⟩

/-- A component has one uppermost type. -/
theorem IsWidestOf.eq {d : Dialect} {initial : Nat → TypeInfo} {steps : List Equation} {i : Nat}
    {info info' : TypeInfo}
    (hranked : ∀ step ∈ steps, (initial step.2.1.id).Ranked d ∧ (initial step.2.2.id).Ranked d)
    (h : IsWidestOf (.ofDialect d) initial steps i info)
    (h' : IsWidestOf (.ofDialect d) initial steps i info') : info = info' := by
  rcases h.mem with ⟨j, hj, rfl⟩
  rcases h'.mem with ⟨k, hk, rfl⟩
  rcases (hj.symm.trans hk).eq_or_both (Q := fun id => (initial id).Ranked d) hranked with
    rfl | ⟨hrj, hrk⟩
  · rfl
  · exact TypeInfo.eq_of_place hrj hrk (Nat.le_antisymm (h'.le j hj) (h.le k hk))

/-! ## Runs of equations -/

namespace Classes

variable {d : Dialect} {initial : Nat → TypeInfo} {steps : List Equation} {t : Classes}

/-- After widening, the type of a class is the uppermost of its members' types. -/
theorem isWidestOf_infoOf
    (hwidest : ∀ step ∈ steps, step.1.strength = .widest ∧ step.1.coercion = none)
    (hranked : ∀ step ∈ steps, (initial step.2.1.id).Ranked d ∧ (initial step.2.2.id).Ranked d)
    (h : (start initial).run (.ofDialect d) steps = .ok t) (i : Nat) :
    IsWidestOf (.ofDialect d) initial steps i (t.infoOf i) := by
  have hplain : ∀ step ∈ steps, step.1.strength = .widest → step.1.coercion = none :=
    fun step hmem _ => (hwidest step hmem).2
  have hbinding : ∀ step ∈ steps, step.1.strength ≠ .bestEffort := by
    intro step hmem
    simp [(hwidest step hmem).1]
  refine ⟨?_, fun j hij => ?_⟩
  · rcases exists_member hplain h i with ⟨j, hij, hinfo⟩
    exact ⟨j, hij, hinfo.symm⟩
  · refine holds_of_member (V := fun info => info.Ranked d)
      (P := fun info => (initial j).place (.ofDialect d) ≤ info.place (.ofDialect d)) hplain hranked
      ?_ h ((same_iff_connected hbinding h).2 hij) (Nat.le_refl _)
    intro step hmem left right info hleft hright hmerge hside
    rw [(hwidest step hmem).1, (hwidest step hmem).2, TypeInfo.merge?, TypeInfo.coerce_none,
      TypeInfo.coerce_none, Option.some.injEq] at hmerge
    rw [← hmerge, TypeInfo.place_widest hleft hright]
    rcases hside with hside | hside
    · exact Nat.le_trans hside (Nat.le_max_left _ _)
    · exact Nat.le_trans hside (Nat.le_max_right _ _)

end Classes

/-! ## Any order -/

section

variable {d : Dialect} {initial : Nat → TypeInfo} {constraints : List Constraint}

theorem ranked_of_mem_equationsOf (hcarries : ∀ v ∈ variablesOf constraints, v.Carries initial)
    (hranked : ∀ v ∈ variablesOf constraints, v.info.Ranked d) :
    ∀ step ∈ equationsOf constraints,
      (initial step.2.1.id).Ranked d ∧ (initial step.2.2.id).Ranked d := by
  intro step hstep
  rcases mem_variablesOf_of_mem_equationsOf hstep with ⟨-, hleft, hright⟩
  exact ⟨hcarries _ hleft ▸ hranked _ hleft, hcarries _ hright ▸ hranked _ hright⟩

/-- Constraints that only widen are solved, and every variable has the uppermost type of its
component. -/
theorem exists_widest
    (hwidest : ∀ c ∈ constraints, c.strength = .widest ∧ c.coercion = none)
    (hcarries : ∀ v ∈ variablesOf constraints, v.Carries initial)
    (hranked : ∀ v ∈ variablesOf constraints, v.info.Ranked d) :
    ∃ solution, solve (.ofDialect d) constraints = .ok solution ∧
      ∀ v : TypeVar, v.Carries initial →
        IsWidestOf (.ofDialect d) initial (equationsOf constraints) v.id (solution.infoOf v) := by
  have hwidestSteps : ∀ step ∈ equationsOf constraints,
      step.1.strength = .widest ∧ step.1.coercion = none :=
    fun _ hstep => hwidest _ (mem_variablesOf_of_mem_equationsOf hstep).1
  have hrun : ∃ t, (Classes.start initial).run (.ofDialect d) (equationsOf constraints) = .ok t :=
    Classes.exists_run fun step hstep => by simp [(hwidestSteps step hstep).1]
  rcases hrun with ⟨t, ht⟩
  rcases exists_solution (carries_of_mem_equationsOf hcarries) ht with ⟨solution, hsolved, hinfo⟩
  refine ⟨solution, hsolved, fun v hv => ?_⟩
  rw [hinfo v hv]
  exact Classes.isWidestOf_infoOf hwidestSteps (ranked_of_mem_equationsOf hcarries hranked) ht v.id

/-- Widening constraints without a coercion, between variables of the types that widen into one another
and that always carry one type, give every variable the uppermost type of its component. So their order
and the side of their terms change the type of no variable. -/
theorem solve_widest_any_order (d : Dialect) {initial : Nat → TypeInfo}
    {constraints : List Constraint}
    (hwidest : ∀ c ∈ constraints, c.strength = .widest ∧ c.coercion = none)
    (hcarries : ∀ v ∈ variablesOf constraints, v.Carries initial)
    (hranked : ∀ v ∈ variablesOf constraints, v.info.Ranked d) :
    ∃ solution, solve (.ofDialect d) constraints = .ok solution ∧
      (∀ v : TypeVar, v.Carries initial →
        IsWidestOf (.ofDialect d) initial (equationsOf constraints) v.id (solution.infoOf v)) ∧
      ∀ other, Reordered constraints other →
        ∃ solution', solve (.ofDialect d) other = .ok solution' ∧
          ∀ v : TypeVar, v.Carries initial → solution'.infoOf v = solution.infoOf v := by
  rcases exists_widest hwidest hcarries hranked with ⟨solution, hsolved, htop⟩
  refine ⟨solution, hsolved, htop, fun other hother => ?_⟩
  have hwidestOther : ∀ c ∈ other, c.strength = .widest ∧ c.coercion = none :=
    hother.forall_of_swap (fun _ hc => hc) hwidest
  rcases exists_widest hwidestOther (fun v hv => hcarries v (hother.mem_variablesOf hv))
    (fun v hv => hranked v (hother.mem_variablesOf hv)) with ⟨solution', hsolved', htop'⟩
  refine ⟨solution', hsolved', fun v hv => ?_⟩
  have hback : IsWidestOf (.ofDialect d) initial (equationsOf constraints) v.id
      (solution'.infoOf v) := (htop' v hv).reordered hother
  exact hback.eq (ranked_of_mem_equationsOf hcarries hranked) (htop v hv)

/-- The types of a placeholder, an integer, the result of a sum, a double, a decimal and a text. -/
def choiceTypes : Nat → TypeInfo
  | 2 => .exact .int
  | 3 => .number
  | 4 => .exact .double
  | 5 => .exact .decimal
  | 6 => .exact .varchar
  | _ => .unknown

/-- `?` beside `(n, (n + m))`, then `x` beside `n`, and `y` beside `'a'`. -/
def choiceRows : List Constraint :=
  let v := fun id => TypeTerm.var (.made choiceTypes id)
  [⟨"?, (n, (n + m))", v 1, .tuple [v 2, .tuple [v 3]], .widest, none, false⟩,
    .widest "x, n" none (.made choiceTypes 4) (.made choiceTypes 2),
    .widest "y, 'a'" none (.made choiceTypes 5) (.made choiceTypes 6)]

/-- The same constraints from the last to the first, with their sides exchanged. -/
def choiceRowsBack : List Constraint := (choiceRows.map Constraint.swap).reverse

theorem solve_widest_any_order_choiceRows :
    (∀ c ∈ choiceRows, c.strength = .widest ∧ c.coercion = none) ∧
      (∀ v ∈ variablesOf choiceRows, v.Carries choiceTypes) ∧
      (∀ v ∈ variablesOf choiceRows, v.info.Ranked .mysql) ∧ Reordered choiceRows choiceRowsBack ∧
      ∃ solution, solve .mysql choiceRowsBack = .ok solution ∧
        solution.infoOf (.made choiceTypes 1) = .number ∧
        solution.infoOf (.made choiceTypes 5) = .exact .varchar := by
  have hwidest : ∀ c ∈ choiceRows, c.strength = .widest ∧ c.coercion = none := by decide
  have hcarries : ∀ v ∈ variablesOf choiceRows, v.Carries choiceTypes := by decide
  have hranked : ∀ v ∈ variablesOf choiceRows, v.info.Ranked .mysql := by decide
  have hback := reordered_swap_reverse choiceRows
  rcases solve_widest_any_order .mysql hwidest hcarries hranked with ⟨solution, hsolved, -, hany⟩
  rcases hany choiceRowsBack hback with ⟨solution', hsolved', hinfo⟩
  have heq : solve .mysql choiceRows = .ok ⟨[(1, .number), (2, .number), (3, .number),
      (4, .number), (5, .exact .varchar), (6, .exact .varchar)]⟩ := by
    decide
  have hsolution := Except.ok.inj (hsolved.symm.trans heq)
  subst hsolution
  exact ⟨hwidest, hcarries, hranked, hback, solution', hsolved', hinfo (.made choiceTypes 1) rfl,
    hinfo (.made choiceTypes 5) rfl⟩

end

end QuerySignature
