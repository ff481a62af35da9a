import QuerySignature.Description.Describe
import QuerySignature.Proofs.Criteria.Valuation

namespace QuerySignature

/-! # How many rows a key leaves

A criterion that gives every column of a table's primary key a value of its own leaves at most one
row of the table. That a query returns one row at most is read off less: an equation at the top
of its WHERE with some column of the key in it. So what is read off is right where the equations
fix the whole key by something that is the same for all rows, and need not be right elsewhere.

- `Scope.one_row_of_pinsKey`: a criterion that pins the key leaves at most one row, and is read so.
- `equated_key_leaves_rows`: a key equated with another column, and one half of a key of two, leave
  more.
-/

/-! ## Rows of a table -/

/-- The row of a table: the values of its columns, in order; `none` is NULL. -/
abbrev TableRow (V : Type) : Type := Nat → Option V

/-- Whether two rows have the same values in all columns of the primary key. -/
def Level.AgreeOnKey {V : Type} (level : Level) (row other : TableRow V) : Prop :=
  ∀ index column, level[index]? = some column → column.key = .primary → row index = other index

/-- Rows no two of which agree on the primary key. -/
def Level.KeyUnique {V : Type} (level : Level) (rows : List (TableRow V)) : Prop :=
  rows.Pairwise fun row other => ¬ level.AgreeOnKey row other

/-- Whether an expression is a literal or a placeholder. -/
def Expr.isGiven : Expr → Bool
  | .literal _ | .parameter _ => true
  | _ => false

/-- What a criterion over the rows of a table is read with. Columns of the queries around it,
literals and placeholders keep their values from row to row; whatever else stands in the criterion
may change with the row. Values that compare equal are one value. -/
structure RowsValuation (V : Type) where
  outer : ColumnPlace → Option V
  given : List Side → Expr → Option V
  operand : TableRow V → List Side → Expr → Option V
  compares : CompareOp → V → V → Bool
  eq_of_compares : ∀ v w, compares .eq v w = true → v = w
  condition : TableRow V → List Side → Expr → Truth

namespace RowsValuation

variable {V : Type} (x : RowsValuation V)

/-- What the criterion is read with at a row. -/
def atRow (row : TableRow V) : Valuation V where
  column place := if place.depth = 0 then row place.index else x.outer place
  operand path e := if e.isGiven then x.given path e else x.operand row path e
  compares := x.compares
  condition := x.condition row

/-- The rows that pass a criterion. -/
def passing (scope : Scope) (criteria : Expr) (rows : List (TableRow V)) : List (TableRow V) :=
  rows.filter fun row => (x.atRow row).truth scope [] criteria == .holds

end RowsValuation

/-! ## Pinned keys -/

namespace Scope

/-- Whether an expression has one value for all rows of the innermost level. -/
def isFixed (scope : Scope) (e : Expr) : Bool :=
  match scope.exprPlace? e with
  | some place => place.depth != 0
  | none => e.bare.isGiven

/-- Whether an equation gives the column at an index of the innermost level one value. -/
def pins (scope : Scope) (index : Nat) (sides : Expr × Expr) : Bool :=
  (scope.exprPlace? sides.1 == some ⟨0, index⟩ && scope.isFixed sides.2) ||
    (scope.isFixed sides.1 && scope.exprPlace? sides.2 == some ⟨0, index⟩)

/-- Whether the equations at the top of a criterion give every column of the primary key one
value. -/
def PinsKey (scope : Scope) (criteria : Expr) : Prop :=
  ∀ index column, scope.columns[index]? = some column → column.key = .primary →
    ∃ sides ∈ criteria.equalities, scope.pins index sides = true

variable {scope : Scope} {V : Type} {x : RowsValuation V}

theorem value_eq_of_isFixed {e : Expr} (h : scope.isFixed e = true) (path : List Side)
    (row other : TableRow V) :
    (x.atRow row).value scope path e = (x.atRow other).value scope path e := by
  unfold isFixed at h
  unfold Valuation.value
  cases hplace : scope.exprPlace? e with
  | some place =>
    have hdepth : place.depth ≠ 0 := by simpa [hplace] using h
    simp [RowsValuation.atRow, hdepth]
  | none =>
    have hgiven : e.bare.isGiven = true := by simpa [hplace] using h
    simp [RowsValuation.atRow, hgiven]

theorem value_of_inner {e : Expr} {index : Nat} (h : scope.exprPlace? e = some ⟨0, index⟩)
    (path : List Side) (row : TableRow V) : (x.atRow row).value scope path e = row index := by
  rw [Valuation.value_of_exprPlace? h]
  rfl

theorem isPrimaryKey_of_exprPlace? {e : Expr} {index : Nat} {column : SourceColumn}
    (hcolumn : scope.columns[index]? = some column) (hkey : column.key = .primary)
    (h : scope.exprPlace? e = some ⟨0, index⟩) : scope.isPrimaryKey e = true := by
  obtain ⟨c, hc, hplace⟩ := Option.bind_eq_some_iff.1 h
  obtain ⟨found, hfound, hanswers⟩ := placeIn_answers (placeIn_of_placeOf? hplace)
  have hsame : column = found := Option.some.inj (hcolumn.symm.trans hfound)
  unfold isPrimaryKey
  simp only [hc]
  refine List.any_eq_true.2 ⟨column, List.mem_of_getElem? hcolumn, ?_⟩
  rw [hsame, hanswers, ← hsame, hkey]
  rfl

/-- Two rows that pass a criterion agree in every column that one of its equations pins. -/
theorem eq_of_pins {criteria : Expr} {sides : Expr × Expr} (hsides : sides ∈ criteria.equalities)
    {index : Nat} (hpins : scope.pins index sides = true) {row other : TableRow V}
    (hrow : (x.atRow row).truth scope [] criteria = .holds)
    (hother : (x.atRow other).truth scope [] criteria = .holds) : row index = other index := by
  obtain ⟨place, hplace⟩ := Valuation.holds_of_mem_equalities (V := V) scope hsides []
  -- in either row the two sides have one value
  have hequal : ∀ row : TableRow V, (x.atRow row).truth scope [] criteria = .holds →
      (x.atRow row).value scope (.left :: place) sides.1 =
        (x.atRow row).value scope (.right :: place) sides.2 := by
    intro row hholds
    obtain ⟨v, w, hv, hw, hvw⟩ := Valuation.comparison_eq_holds.1 (hplace _ hholds)
    rw [hv, hw, x.eq_of_compares v w hvw]
  simp only [pins, Bool.or_eq_true, Bool.and_eq_true, beq_iff_eq] at hpins
  rcases hpins with ⟨hcolumn, hfixed⟩ | ⟨hfixed, hcolumn⟩
  · calc row index = (x.atRow row).value scope (.left :: place) sides.1 :=
          (value_of_inner hcolumn _ row).symm
      _ = (x.atRow row).value scope (.right :: place) sides.2 := hequal row hrow
      _ = (x.atRow other).value scope (.right :: place) sides.2 :=
          value_eq_of_isFixed hfixed _ row other
      _ = (x.atRow other).value scope (.left :: place) sides.1 := (hequal other hother).symm
      _ = other index := value_of_inner hcolumn _ other
  · calc row index = (x.atRow row).value scope (.right :: place) sides.2 :=
          (value_of_inner hcolumn _ row).symm
      _ = (x.atRow row).value scope (.left :: place) sides.1 := (hequal row hrow).symm
      _ = (x.atRow other).value scope (.left :: place) sides.1 :=
          value_eq_of_isFixed hfixed _ row other
      _ = (x.atRow other).value scope (.right :: place) sides.2 := hequal other hother
      _ = other index := value_of_inner hcolumn _ other

/-- A list of rows that are unique by the key and all agree on it has at most one. -/
theorem length_le_one_of_agree {level : Level} {rows : List (TableRow V)}
    (hunique : level.KeyUnique rows)
    (hagree : ∀ row ∈ rows, ∀ other ∈ rows, level.AgreeOnKey row other) : rows.length ≤ 1 := by
  match rows, hunique, hagree with
  | [], _, _ => simp
  | [_], _, _ => simp
  | row :: other :: rest, hunique, hagree =>
    have hdiffer := (List.pairwise_cons.1 hunique).1 other List.mem_cons_self
    have hsame := hagree row List.mem_cons_self other (List.mem_cons_of_mem _ List.mem_cons_self)
    exact absurd hsame hdiffer

/-- A criterion that pins the primary key of a table leaves at most one of its rows, and this is
read off the criterion as soon as there is a key at all. -/
theorem one_row_of_pinsKey {scope : Scope} {criteria : Expr} (hpins : scope.PinsKey criteria) :
    (∀ column ∈ scope.columns, column.key = .primary → scope.fixesKey criteria = true) ∧
    ∀ (V : Type) (x : RowsValuation V) (rows : List (TableRow V)), scope.columns.KeyUnique rows →
      (x.passing scope criteria rows).length ≤ 1 := by
  constructor
  · intro column hmem hkey
    obtain ⟨index, hcolumn⟩ := List.mem_iff_getElem?.1 hmem
    obtain ⟨sides, hsides, hpinned⟩ := hpins index column hcolumn hkey
    simp only [pins, Bool.or_eq_true, Bool.and_eq_true, beq_iff_eq] at hpinned
    refine List.any_eq_true.2 ⟨sides, hsides, ?_⟩
    rcases hpinned with ⟨hplace, -⟩ | ⟨-, hplace⟩
    · simp [isPrimaryKey_of_exprPlace? hcolumn hkey hplace]
    · simp [isPrimaryKey_of_exprPlace? hcolumn hkey hplace]
  · intro V x rows hunique
    -- any two rows that pass agree on each column of the key, by the equation that pins it
    refine length_le_one_of_agree (hunique.sublist List.filter_sublist) ?_
    intro row hrow other hother index column hcolumn hkey
    obtain ⟨sides, hsides, hpinned⟩ := hpins index column hcolumn hkey
    have hholds : ∀ row ∈ x.passing scope criteria rows,
        (x.atRow row).truth scope [] criteria = .holds := by
      intro row hmem
      simpa using (List.mem_filter.1 hmem).2
    exact eq_of_pins hsides hpinned (hholds row hrow) (hholds other hother)

end Scope

/-! ## Two tables -/

/-- A table with a key of one column, and a table with a key of two. -/
def keyedTables : Schema :=
  .ofRecords [
    ⟨"scores", "id", .int, .primary, true⟩, ⟨"scores", "value", .int, .plain, false⟩,
    ⟨"roles", "user_id", .int, .primary, true⟩, ⟨"roles", "role_id", .int, .primary, true⟩]

/-- The columns of a table, as the only ones that a query sees. -/
def keyedScope (table : String) : Scope :=
  match ((tableColumns keyedTables table none).runFrom .start).1 with
  | .ok columns => ⟨columns, []⟩
  | .error _ => .empty

/-- `SELECT * FROM table WHERE criteria`. -/
def readRows (table : String) (criteria : Expr) : Select :=
  ⟨[], [⟨false, [.star], [.table table none], [], some criteria, [], none⟩], [], none⟩

/-- A row with the given numbers in it. -/
def rowOf (values : List Nat) : TableRow Nat := fun index => values[index]?

/-- Literals stand for themselves and every placeholder for 1. -/
def plainNumbers : RowsValuation Nat where
  outer _ := none
  given
    | _, .literal (.int n) => some n.toNat
    | _, _ => some 1
  operand _ _ _ := none
  compares _ v w := v == w
  eq_of_compares _ _ h := by simpa using h
  condition _ _ _ := .unknown

/-- `user_id = ? AND (2 = role_id)`. -/
def wholeKey : Expr :=
  .and (.compare .eq (.column ⟨none, "user_id"⟩) (.parameter none))
    (.paren (.compare .eq (.literal (.int 2)) (.column ⟨none, "role_id"⟩)))

theorem keyUnique_pair {level : Level} {row other : TableRow Nat} (index : Nat)
    {column : SourceColumn} (hcolumn : level[index]? = some column) (hkey : column.key = .primary)
    (hdiffer : row index ≠ other index) : level.KeyUnique [row, other] := by
  refine List.pairwise_pair.2 fun hagree => ?_
  exact hdiffer (hagree index column hcolumn hkey)

theorem one_row_of_pinsKey_wholeKey :
    (keyedScope "roles").PinsKey wholeKey ∧
      (plainNumbers.passing (keyedScope "roles") wholeKey [rowOf [1, 1], rowOf [1, 2]]).length ≤
        1 := by
  have hpins : (keyedScope "roles").PinsKey wholeKey := by
    intro index column hcolumn _
    match index, hcolumn with
    | 0, _ => exact ⟨_, List.mem_cons_self, rfl⟩
    | 1, _ => exact ⟨_, List.mem_cons_of_mem _ List.mem_cons_self, rfl⟩
  refine ⟨hpins, (Scope.one_row_of_pinsKey hpins).2 Nat plainNumbers _ ?_⟩
  exact keyUnique_pair 1 rfl rfl (by decide)

/-- A key that is equated with another column of its table, and one column of a key of two, are
read as leaving one row, though two rows pass. -/
theorem equated_key_leaves_rows :
    let equated : Expr := .compare .eq (.column ⟨none, "id"⟩) (.column ⟨none, "value"⟩)
    let half : Expr := .compare .eq (.column ⟨none, "user_id"⟩) (.literal (.int 1))
    ((keyedScope "scores").fixesKey equated = true ∧
      (describe ⟨keyedTables, .mysql⟩ (.select (readRows "scores" equated))).map (·.manyRows) =
        .ok false ∧
      (keyedScope "scores").columns.KeyUnique [rowOf [1, 1], rowOf [2, 2]] ∧
      (plainNumbers.passing (keyedScope "scores") equated
        [rowOf [1, 1], rowOf [2, 2]]).length = 2) ∧
    ((keyedScope "roles").fixesKey half = true ∧
      (describe ⟨keyedTables, .mysql⟩ (.select (readRows "roles" half))).map (·.manyRows) =
        .ok false ∧
      (keyedScope "roles").columns.KeyUnique [rowOf [1, 1], rowOf [1, 2]] ∧
      (plainNumbers.passing (keyedScope "roles") half
        [rowOf [1, 1], rowOf [1, 2]]).length = 2) := by
  refine ⟨⟨rfl, rfl, ?_, rfl⟩, ⟨rfl, rfl, ?_, rfl⟩⟩
  · exact keyUnique_pair 0 rfl rfl (by decide)
  · exact keyUnique_pair 1 rfl rfl (by decide)

end QuerySignature
