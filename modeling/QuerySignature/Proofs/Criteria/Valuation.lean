import QuerySignature.Scope.Resolve

namespace QuerySignature

/-! # What a criterion says of a row

A criterion holds, fails or is unknown. A comparison with NULL is unknown, a test for NULL never
is, and AND, OR and NOT follow Kleene's tables. All else is left open: the values of operands that
are no columns, how two values compare, and whether a condition of another form holds. It is left
open place by place, so that two placeholders of one criterion may have different values.

- `Scope.lookup?_eq_columnAt?`: a reference means the column at its place.
- `Truth.and_eq_holds`, `Truth.or_eq_holds`: when a compound criterion holds.
- `Valuation.holds_of_mem_equalities`: a criterion that holds makes the equations at its top hold.
-/

/-! ## Truth values -/

/-- A truth value. -/
inductive Truth where
  | holds
  | fails
  | unknown
  deriving DecidableEq, Repr

namespace Truth

/-- The truth of a test that is never unknown. -/
def ofBool (b : Bool) : Truth := if b then holds else fails

/-- AND: false as soon as one side is. -/
def and : Truth → Truth → Truth
  | fails, _ | _, fails => fails
  | holds, holds => holds
  | _, _ => unknown

/-- OR: true as soon as one side is. -/
def or : Truth → Truth → Truth
  | holds, _ | _, holds => holds
  | fails, fails => fails
  | _, _ => unknown

/-- NOT: what is unknown stays so. -/
def not : Truth → Truth
  | holds => fails
  | fails => holds
  | unknown => unknown

theorem ofBool_eq_holds {b : Bool} : ofBool b = holds ↔ b = true := by
  cases b <;> decide

theorem and_eq_holds {a b : Truth} : a.and b = holds ↔ a = holds ∧ b = holds := by
  cases a <;> cases b <;> decide

theorem or_eq_holds {a b : Truth} : a.or b = holds ↔ a = holds ∨ b = holds := by
  cases a <;> cases b <;> decide

end Truth

/-! ## Places of columns -/

/-- The place of a visible column: its level, counted from the inside, and its index there. -/
structure ColumnPlace where
  depth : Nat
  index : Nat
  deriving DecidableEq, Repr

/-- The place of the first column of the innermost level that answers a reference. -/
def placeIn (c : ColumnRef) : List Level → Option ColumnPlace
  | [] => none
  | level :: rest =>
    match level.findIdx? fun column => column.answers c.qualifier c.name with
    | some index => some ⟨0, index⟩
    | none => (placeIn c rest).map fun place => { place with depth := place.depth + 1 }

/-- The column at a place among levels. -/
def columnIn (levels : List Level) (place : ColumnPlace) : Option SourceColumn :=
  levels[place.depth]?.bind fun level => level[place.index]?

namespace Scope

/-- The column at a place. -/
def columnAt? (scope : Scope) (place : ColumnPlace) : Option SourceColumn :=
  columnIn scope.levels place

/-- The place of the column that a reference means, if it means one. -/
def placeOf? (scope : Scope) (c : ColumnRef) : Option ColumnPlace :=
  if (scope.lookup? c).isSome then placeIn c scope.levels else none

/-- The place of the column that an expression is, through parentheses. -/
def exprPlace? (scope : Scope) (e : Expr) : Option ColumnPlace := e.column?.bind scope.placeOf?

end Scope

theorem columnIn_cons_succ (level : Level) (rest : List Level) (place : ColumnPlace) :
    columnIn (level :: rest) { place with depth := place.depth + 1 } = columnIn rest place := rfl

/-- What a reference means stands at its place. -/
theorem columnIn_of_resolveIn {c : ColumnRef} {levels : List Level} {column : SourceColumn}
    (h : resolveIn c levels = some (.ok column)) :
    ∃ place, placeIn c levels = some place ∧ columnIn levels place = some column := by
  induction levels with
  | nil => cases h
  | cons level rest ih =>
    unfold placeIn
    cases hfind : level.findIdx? fun column => column.answers c.qualifier c.name with
    | none =>
      -- no column of this level answers, so the next ones decide
      have hnone : level.answers c = [] := by
        refine List.filter_eq_nil_iff.2 fun d hd => ?_
        have := List.findIdx?_eq_none_iff.1 hfind d hd
        simp [this]
      rw [resolveIn_cons_nil hnone] at h
      obtain ⟨place, hplace, hcolumn⟩ := ih h
      refine ⟨{ place with depth := place.depth + 1 }, ?_, ?_⟩
      · simp [hplace]
      · rw [columnIn_cons_succ]
        exact hcolumn
    | some index =>
      obtain ⟨hlt, hanswers, hfirst⟩ := List.findIdx?_eq_some_iff_getElem.1 hfind
      have hhead : (level.answers c).head? = some level[index] := by
        unfold Level.answers
        rw [List.head?_filter, List.find?_eq_some_iff_getElem]
        exact ⟨hanswers, index, hlt, rfl, fun j hj => by simpa using hfirst j hj⟩
      refine ⟨⟨0, index⟩, rfl, ?_⟩
      -- a second column that answers would leave the reference without a meaning
      cases hlevel : level.answers c with
      | nil => simp [hlevel] at hhead
      | cons first others =>
        simp only [hlevel, List.head?_cons, Option.some.injEq] at hhead
        simp only [resolveIn, hlevel] at h
        split at h
        · cases h
          simp [columnIn, hlt, hhead]
        · simp at h

/-- The column at the place of a reference answers it, and no level further in has one that does. -/
theorem placeIn_answers {c : ColumnRef} {levels : List Level} {place : ColumnPlace}
    (h : placeIn c levels = some place) :
    ∃ column, columnIn levels place = some column ∧ column.answers c.qualifier c.name = true := by
  induction levels generalizing place with
  | nil => cases h
  | cons level rest ih =>
    unfold placeIn at h
    cases hfind : level.findIdx? fun column => column.answers c.qualifier c.name with
    | some index =>
      simp only [hfind, Option.some.injEq] at h
      subst h
      obtain ⟨hlt, hanswers, -⟩ := List.findIdx?_eq_some_iff_getElem.1 hfind
      exact ⟨level[index], by simp [columnIn, hlt], hanswers⟩
    | none =>
      simp only [hfind, Option.map_eq_some_iff] at h
      obtain ⟨inner, hinner, rfl⟩ := h
      exact ih hinner

/-- As long as a column of the first level answers a reference, its place is in that level. -/
theorem depth_of_placeIn {c : ColumnRef} {level : Level} {rest : List Level} {place : ColumnPlace}
    (h : placeIn c (level :: rest) = some place) {column : SourceColumn} (hmem : column ∈ level)
    (hanswers : column.answers c.qualifier c.name = true) : place.depth = 0 := by
  unfold placeIn at h
  cases hfind : level.findIdx? fun column => column.answers c.qualifier c.name with
  | some index =>
    simp only [hfind, Option.some.injEq] at h
    rw [← h]
  | none =>
    have := List.findIdx?_eq_none_iff.1 hfind column hmem
    simp [hanswers] at this

namespace Scope

theorem lookup?_eq_columnAt? (scope : Scope) (c : ColumnRef) :
    scope.lookup? c = (scope.placeOf? c).bind scope.columnAt? := by
  unfold placeOf?
  cases hlookup : scope.lookup? c with
  | none => rfl
  | some column =>
    -- a reference with a meaning is resolved within the levels, not outside of them
    have hresolve : resolveIn c scope.levels = some (.ok column) := by
      unfold lookup? resolve at hlookup
      cases hin : resolveIn c scope.levels with
      | none =>
        simp only [hin] at hlookup
        split at hlookup <;> cases hlookup
      | some meaning =>
        simp only [hin] at hlookup
        cases meaning with
        | error e => cases hlookup
        | ok d =>
          cases hlookup
          rfl
    obtain ⟨place, hplace, hcolumn⟩ := columnIn_of_resolveIn hresolve
    simp only [Option.isSome_some, if_true, hplace, Option.bind_some]
    exact hcolumn.symm

theorem placeIn_of_placeOf? {scope : Scope} {c : ColumnRef} {place : ColumnPlace}
    (h : scope.placeOf? c = some place) : placeIn c scope.levels = some place := by
  unfold placeOf? at h
  split at h
  · exact h
  · cases h

end Scope

/-! ## Valuations -/

/-- One of the two operands of an operator. -/
inductive Side where
  | left
  | right
  deriving DecidableEq, Repr

/-- What a criterion is read with. A path leads to a part of the criterion: the operands that are
taken on the way, the last one first. -/
structure Valuation (V : Type) where
  /-- The value of a visible column; `none` is NULL. -/
  column : ColumnPlace → Option V
  /-- The value of an operand that is no column. -/
  operand : List Side → Expr → Option V
  /-- Whether an operator relates two values. -/
  compares : CompareOp → V → V → Bool
  /-- The truth of a condition of any other form. -/
  condition : List Side → Expr → Truth

namespace Valuation

variable {V : Type} (x : Valuation V) (scope : Scope)

/-- The value of an operand. -/
def value (path : List Side) (e : Expr) : Option V :=
  match scope.exprPlace? e with
  | some place => x.column place
  | none => x.operand path e.bare

/-- The truth of a comparison: unknown if one of the values is NULL. -/
def comparison (op : CompareOp) : Option V → Option V → Truth
  | some v, some w => .ofBool (x.compares op v w)
  | _, _ => .unknown

/-- The truth of a criterion. -/
def truth (path : List Side) : Expr → Truth
  | .paren inner => truth path inner
  | .and left right => (truth (.left :: path) left).and (truth (.right :: path) right)
  | .or left right => (truth (.left :: path) left).or (truth (.right :: path) right)
  | .not operand => (truth path operand).not
  | .compare op left right =>
    x.comparison op (x.value scope (.left :: path) left) (x.value scope (.right :: path) right)
  | .isNull negated operand => .ofBool ((x.value scope path operand).isSome == negated)
  | e => x.condition path e

variable {x scope}

theorem comparison_eq_holds {op : CompareOp} {a b : Option V} :
    x.comparison op a b = .holds ↔ ∃ v w, a = some v ∧ b = some w ∧ x.compares op v w = true := by
  cases a <;> cases b <;> simp [comparison, Truth.ofBool_eq_holds]

theorem value_of_exprPlace? {path : List Side} {e : Expr} {place : ColumnPlace}
    (h : scope.exprPlace? e = some place) : x.value scope path e = x.column place := by
  simp [value, h]

/-- A criterion that holds makes every equation at its top hold, each at one place whatever the
criterion is read with. -/
theorem holds_of_mem_equalities (scope : Scope) {criteria : Expr} {sides : Expr × Expr}
    (h : sides ∈ criteria.equalities) (path : List Side) :
    ∃ place, ∀ x : Valuation V, x.truth scope path criteria = .holds →
      x.comparison .eq (x.value scope (.left :: place) sides.1)
        (x.value scope (.right :: place) sides.2) = .holds := by
  -- equations are collected through AND and parentheses only, and there a criterion that holds
  -- has parts that hold
  fun_induction Expr.equalities criteria generalizing path with
  | case1 inner ih =>
    obtain ⟨place, hplace⟩ := ih h path
    exact ⟨place, fun x hx => hplace x hx⟩
  | case2 left right ihl ihr =>
    rcases List.mem_append.1 h with h | h
    · obtain ⟨place, hplace⟩ := ihl h (.left :: path)
      exact ⟨place, fun x hx => hplace x (Truth.and_eq_holds.1 hx).1⟩
    · obtain ⟨place, hplace⟩ := ihr h (.right :: path)
      exact ⟨place, fun x hx => hplace x (Truth.and_eq_holds.1 hx).2⟩
  | case3 left right =>
    rw [List.mem_singleton.1 h]
    exact ⟨path, fun x hx => hx⟩
  | case4 => cases h

end Valuation

end QuerySignature
