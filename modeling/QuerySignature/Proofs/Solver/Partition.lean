import QuerySignature.Proofs.Solver.Solving

namespace QuerySignature

/-! # Solving on a partition

The solver has a plain counterpart that keeps no forest. Every variable has the label of its class and
every class one type; two terms are related by walking through both, however deep their rows are
nested, and a merge gives all members of the right class the label of the left one.

- `Classes.relate_eq`: relating two terms solves their equations in order.
- `solve_agrees_with_partition`: solving fails when the counterpart fails and with the same clash, and
  otherwise finds out the same types.
-/

/-- The variables of a constraint. -/
def Constraint.vars (c : Constraint) : List TypeVar := c.left.vars ++ c.right.vars

/-- The variables of a list of constraints. -/
def variablesOf (constraints : List Constraint) : List TypeVar := constraints.flatMap Constraint.vars

namespace Classes

mutual

/-- Takes a step for every variable of a term. -/
def each (step : Classes → TypeVar → Except Clash Classes) :
    Classes → TypeTerm → Except Clash Classes
  | s, .var v => step s v
  | s, .tuple items => eachOf step s items

/-- Takes a step for every variable of a row of terms. -/
def eachOf (step : Classes → TypeVar → Except Clash Classes) :
    Classes → List TypeTerm → Except Clash Classes
  | s, [] => .ok s
  | s, item :: rest => (each step s item).bind fun next => eachOf step next rest

end

mutual

/-- Relates two terms: a variable to every variable of the other term, two rows item by item. -/
def relate (profile : Profile) (c : Constraint) :
    Classes → TypeTerm → TypeTerm → Except Clash Classes
  | s, .var v, right => each (fun s w => s.merge profile (c, v, w)) s right
  | s, .tuple lefts, .var w => eachOf (fun s v => s.merge profile (c, v, w)) s lefts
  | s, .tuple lefts, .tuple rights => relateRows profile c s lefts rights

/-- Relates two rows as far as both reach. -/
def relateRows (profile : Profile) (c : Constraint) :
    Classes → List TypeTerm → List TypeTerm → Except Clash Classes
  | s, left :: lefts, right :: rights =>
    (relate profile c s left right).bind fun next => relateRows profile c next lefts rights
  | s, _, _ => .ok s

end

/-- Solves a list of constraints, every variable alone at first and with its own type. -/
def solve (profile : Profile) (initial : Nat → TypeInfo) (constraints : List Constraint) :
    Except Clash Classes :=
  constraints.foldlM (fun s c => s.relate profile c c.left c.right) (start initial)

/-! ## Terms and their equations -/

section

variable {step : Classes → TypeVar → Except Clash Classes}

mutual

theorem each_eq : ∀ (s : Classes) (term : TypeTerm), each step s term = term.vars.foldlM step s
  | s, .var v => by
    simp only [each, TypeTerm.vars, List.foldlM_cons, List.foldlM_nil]
    cases step s v <;> rfl
  | s, .tuple items => eachOf_eq s items

theorem eachOf_eq : ∀ (s : Classes) (items : List TypeTerm),
    eachOf step s items = (TypeTerm.varsOfAll items).foldlM step s
  | s, [] => rfl
  | s, item :: rest => by
    rw [eachOf, TypeTerm.varsOfAll, List.foldlM_append, each_eq s item]
    exact congrArg _ (funext fun next => eachOf_eq next rest)

end

end

section

variable {profile : Profile} {c : Constraint}

mutual

/-- Relating two terms solves their equations in order. -/
theorem relate_eq : ∀ (s : Classes) (left right : TypeTerm),
    s.relate profile c left right =
      (left.equations right).foldlM (fun s pair => s.merge profile (c, pair)) s
  | s, .var v, right => by
    rw [relate, TypeTerm.equations, List.foldlM_map, each_eq]
  | s, .tuple lefts, .var w => by
    rw [relate, TypeTerm.equations, List.foldlM_map, eachOf_eq]
  | s, .tuple lefts, .tuple rights => relateRows_eq s lefts rights

theorem relateRows_eq : ∀ (s : Classes) (lefts rights : List TypeTerm),
    s.relateRows profile c lefts rights =
      (TypeTerm.equationsOfAll lefts rights).foldlM (fun s pair => s.merge profile (c, pair)) s
  | s, left :: lefts, right :: rights => by
    rw [relateRows, TypeTerm.equationsOfAll, List.foldlM_append, relate_eq s left right]
    exact congrArg _ (funext fun next => relateRows_eq next lefts rights)
  | s, [], _ => rfl
  | s, _ :: _, [] => rfl

end

end

/-- Solving constraints on a partition is solving their equations one after the other. -/
theorem solve_eq (profile : Profile) (initial : Nat → TypeInfo) (constraints : List Constraint) :
    solve profile initial constraints = (start initial).run profile (equationsOf constraints) := by
  unfold solve run equationsOf
  generalize start initial = s
  induction constraints generalizing s with
  | nil => rfl
  | cons c rest ih =>
    rw [List.foldlM_cons, List.flatMap_cons, List.foldlM_append, List.foldlM_map, relate_eq]
    exact congrArg _ (funext fun next => ih next)

end Classes

/-! ## Variables of equations -/

namespace TypeTerm

mutual

theorem mem_vars_of_mem_equations : ∀ {left right : TypeTerm} {pair : TypeVar × TypeVar},
    pair ∈ left.equations right → pair.1 ∈ left.vars ∧ pair.2 ∈ right.vars
  | .var v, right, pair, h => by
    rw [equations, List.mem_map] at h
    rcases h with ⟨w, hw, rfl⟩
    exact ⟨List.mem_singleton.2 rfl, hw⟩
  | .tuple lefts, .var w, pair, h => by
    rw [equations, List.mem_map] at h
    rcases h with ⟨v, hv, rfl⟩
    exact ⟨hv, List.mem_singleton.2 rfl⟩
  | .tuple lefts, .tuple rights, pair, h => mem_varsOfAll_of_mem_equationsOfAll h

theorem mem_varsOfAll_of_mem_equationsOfAll : ∀ {lefts rights : List TypeTerm}
    {pair : TypeVar × TypeVar}, pair ∈ equationsOfAll lefts rights →
      pair.1 ∈ varsOfAll lefts ∧ pair.2 ∈ varsOfAll rights
  | left :: lefts, right :: rights, pair, h => by
    rw [varsOfAll, varsOfAll, List.mem_append, List.mem_append]
    rcases List.mem_append.1 h with h | h
    · rcases mem_vars_of_mem_equations h with ⟨hleft, hright⟩
      exact ⟨Or.inl hleft, Or.inl hright⟩
    · rcases mem_varsOfAll_of_mem_equationsOfAll h with ⟨hleft, hright⟩
      exact ⟨Or.inr hleft, Or.inr hright⟩
  | [], _, _, h => absurd h List.not_mem_nil
  | _ :: _, [], _, h => absurd h List.not_mem_nil

end

end TypeTerm

/-- An equation relates variables of its constraints. -/
theorem mem_variablesOf_of_mem_equationsOf {constraints : List Constraint} {step : Equation}
    (h : step ∈ equationsOf constraints) :
    step.1 ∈ constraints ∧ step.2.1 ∈ variablesOf constraints ∧
      step.2.2 ∈ variablesOf constraints := by
  rcases List.mem_flatMap.1 h with ⟨c, hc, hstep⟩
  rcases List.mem_map.1 hstep with ⟨pair, hpair, rfl⟩
  rcases TypeTerm.mem_vars_of_mem_equations hpair with ⟨hleft, hright⟩
  refine ⟨hc, List.mem_flatMap.2 ⟨c, hc, ?_⟩, List.mem_flatMap.2 ⟨c, hc, ?_⟩⟩
  · exact List.mem_append_left _ hleft
  · exact List.mem_append_right _ hright

theorem carries_of_mem_equationsOf {initial : Nat → TypeInfo} {constraints : List Constraint}
    (hcarries : ∀ v ∈ variablesOf constraints, v.Carries initial) :
    ∀ step ∈ equationsOf constraints, step.Carries initial := by
  intro step hstep
  rcases mem_variablesOf_of_mem_equationsOf hstep with ⟨-, hleft, hright⟩
  exact ⟨hcarries _ hleft, hcarries _ hright⟩

/-! ## The two solvers -/

instance (initial : Nat → TypeInfo) (v : TypeVar) : Decidable (v.Carries initial) :=
  inferInstanceAs (Decidable (v.info = initial v.id))

/-- When every variable always carries one type, solving fails exactly when solving on a partition
fails, with the same two types and the same expression; and when both succeed, every variable has the
type of its class. -/
theorem solve_agrees_with_partition (profile : Profile) {initial : Nat → TypeInfo}
    {constraints : List Constraint} (hcarries : ∀ v ∈ variablesOf constraints, v.Carries initial) :
    Alike (fun solution s => ∀ v : TypeVar, v.Carries initial → solution.infoOf v = s.infoOf v.id)
      (solve profile constraints) (Classes.solve profile initial constraints) := by
  rw [Classes.solve_eq]
  exact solve_alike profile (carries_of_mem_equationsOf hcarries)

/-- A variable of a number, made with the type that all its copies carry. -/
def TypeVar.made (initial : Nat → TypeInfo) (id : Nat) : TypeVar := ⟨id, "", initial id, false, false⟩

/-- The types of `a`, `b`, `c`, a placeholder, `d`, `e` and `f`. -/
def nestedRowTypes : Nat → TypeInfo
  | 1 => .exact .int
  | 2 => .exact .bigInt
  | 5 => .exact .decimal
  | 6 => .exact .varchar
  | 7 => .exact .date
  | _ => .unknown

/-- `(a, (b, c)) = (?, d)`, where `c` is not known, then `d + e`, then `e` beside `f`. -/
def nestedRows : List Constraint :=
  let v := fun id => TypeTerm.var (.made nestedRowTypes id)
  [.strict "(a, (b, c)) = (?, d)" (.tuple [v 1, .tuple [v 2, v 3]]) (.tuple [v 4, v 5]),
    .widest "d + e" (some .sum) (.made nestedRowTypes 5) (.made nestedRowTypes 6),
    .bestEffort "e, f" (.made nestedRowTypes 6) (.made nestedRowTypes 7)]

theorem solve_nestedRows : solve .mysql nestedRows = .ok ⟨[(1, .exact .int), (4, .exact .int),
    (2, .exact .double), (5, .exact .double), (3, .exact .double), (6, .exact .double),
    (7, .exact .date)]⟩ := by
  decide

theorem solve_agrees_with_partition_nestedRows :
    (∀ v ∈ variablesOf nestedRows, v.Carries nestedRowTypes) ∧
      ∃ s, Classes.solve .mysql nestedRowTypes nestedRows = .ok s ∧
        s.infoOf 3 = .exact .double ∧ s.infoOf 4 = .exact .int ∧ s.infoOf 7 = .exact .date := by
  have hcarries : ∀ v ∈ variablesOf nestedRows, v.Carries nestedRowTypes := by decide
  rcases (solve_agrees_with_partition .mysql hcarries).of_ok solve_nestedRows with ⟨s, hs, hinfo⟩
  exact ⟨hcarries, s, hs, (hinfo (.made nestedRowTypes 3) rfl).symm,
    (hinfo (.made nestedRowTypes 4) rfl).symm, (hinfo (.made nestedRowTypes 7) rfl).symm⟩

end QuerySignature
