import QuerySignature.Proofs.Behind.Items
import QuerySignature.Proofs.Written.Values

namespace QuerySignature

/-! # Projections as rows

What a branch of a query projects is a row, of the values of its items and of the columns that its stars
stand for. The walk makes a variable for every place of the row, and keeps with it the number of the
placeholder, if it is one; when the row is written, the placeholder is made as nullable as its column.

- `Branch.cells`, `Branch.writes`: the row of a branch, and the placeholders of the branch, each with the
  column that it is projected at the place of.
- `readsRow_of_items`: the variables of the row.
- `placed_of_items`, `Leads.boundRow`: the numbers of its placeholders, and their nullability.
-/

/-! ## Rows of branches -/

/-- What an item of a projection stands for, behind a FROM clause with some columns. -/
def Item.cells (level : Level) : Item → List Cell
  | .star => level.map .column
  | .tableStar table => (level.ofTable table).map .column
  | .expr value _ => [.value value]

namespace Branch

/-- What a branch projects. -/
def cells (schema : Schema) (ctes : List (String × Level)) (b : Branch) : List Cell :=
  b.items.flatMap (Item.cells (b.level schema ctes))

/-- The placeholders of a branch behind those of its items. -/
def marksBehind (b : Branch) : List Mark :=
  marksOfSources b.sources ++ marksOfJoins b.joins ++ marksOfSome b.criteria ++
    marksOfAll (fun _ => false) b.group ++ marksOfSome b.having

/-- The placeholders of a branch, each with the column that it goes to if the row goes to some. -/
def writes (schema : Schema) (ctes : List (String × Level)) (records : List (Option ColumnRecord))
    (b : Branch) : List (Option ColumnRecord) :=
  rowWrites records (b.cells schema ctes) ++ b.marksBehind.map fun _ => none

/-- A branch has neither GROUP BY nor HAVING. -/
structure Ungrouped (b : Branch) : Prop where
  group : b.group = []
  having : b.having = none

end Branch

/-- A star collects no placeholder, a value its own. -/
theorem marksOfItems_eq (level : Level) (items : List Item) :
    marksOfItems items = (items.flatMap (Item.cells level)).flatMap (Cell.marks false) := by
  have hcolumns : ∀ l : Level, (l.map Cell.column).flatMap (Cell.marks false) = [] := by
    intro l
    rw [List.flatMap_map]
    exact List.flatMap_eq_nil_iff.2 fun _ _ => rfl
  induction items with
  | nil =>
    rw [marksOfItems]
    rfl
  | cons item rest ih =>
    rw [marksOfItems, List.flatMap_cons, List.flatMap_append, ← ih]
    congr 1
    cases item with
    | star => rw [Item.marks, Item.cells, hcolumns]
    | tableStar table => rw [Item.marks, Item.cells, hcolumns]
    | expr value aliasName =>
      rw [Item.marks]
      exact (List.append_nil _).symm

theorem Branch.marks_eq (schema : Schema) (ctes : List (String × Level)) (b : Branch) :
    b.marks = (b.cells schema ctes).flatMap (Cell.marks false) ++ b.marksBehind := by
  unfold Branch.cells
  rw [← marksOfItems_eq]
  rcases b with ⟨distinct, items, sources, joins, criteria, group, having⟩
  simp only [Branch.marks, Branch.marksBehind, List.append_assoc]

/-- A query asks nothing of what its branches project. -/
theorem marksOfUnion_unasked (schema : Schema) (ctes : List (String × Level))
    (records : List (Option ColumnRecord)) (bs : List Branch) :
    List.Forall₂ (fun written mark => ∀ record, written = some record → mark.notNull = false)
      (bs.flatMap (Branch.writes schema ctes records)) (marksOfUnion bs) := by
  induction bs with
  | nil =>
    rw [marksOfUnion]
    exact .nil
  | cons b rest ih =>
    rw [marksOfUnion, List.flatMap_cons, b.marks_eq schema ctes]
    exact List.rel_append (List.rel_append (rowWrites_unasked _ _) (forall₂_none rfl)) ih

/-! ## Variables -/

section

variable {setting : Setting} {V : Nat → Prop} {known : List (String × Level)} {scope₀ scope : Scope}
  {r s t : Run}

/-- A column that a star stands for. -/
theorem readsCell_of_starColumn {c₀ c : SourceColumn} (hc : c₀.Shown V c)
    (hknown : TablesShown V known r.ctes) {o : OutputColumn}
    (hrun : (inferStarColumn c).outcome r = .ok (o, s)) :
    ∃ added, ReadsCell (Cell.info? setting.profile scope₀) V r s (.column c₀) o.var added [] := by
  have hinfo? : Cell.info? setting.profile scope₀ (.column c₀) = c₀.declaredType?.map .exact :=
    if_neg Bool.false_ne_true
  have hlocal : Local V known (inferStarColumn c) [] fun W o => W o.var.id :=
    (Local.reference hc.live).behind fun _ _ _ hv => Local.pure hv
  obtain ⟨W, added, slots, hspans, hlength, hctes, -, hmade, ho⟩ := hlocal.spans hknown hrun
  obtain rfl : slots = [] := List.eq_nil_of_length_eq_zero hlength
  refine ⟨added, hspans, hmade _ ho, fun info hinfo => ?_, nofun, rfl, hctes⟩
  rw [hinfo?] at hinfo
  obtain ⟨type, htype, rfl⟩ := Option.map_eq_some_iff.1 hinfo
  -- of a column of a table nothing but a copy is made
  obtain ⟨hplain, hexact⟩ := SourceColumn.of_declaredType? (hc.declared.trans htype)
  unfold inferStarColumn at hrun
  rw [Analyze.outcome_bind, outcome_reference hplain, ok_bind] at hrun
  cases hrun
  obtain rfl : added = [] := List.append_right_eq_self.1 hspans.constraints.symm
  exact ⟨hexact, frees_fresh rfl rfl⟩

/-- The columns of a star in front of a row. -/
theorem readsRow_of_star {l₀ l : Level} (hl : Level.Shown V l₀ l) (hV : ∀ id, V id → id ≤ r.issued)
    (hknown : TablesShown V known r.ctes) {cs : List OutputColumn}
    (hrun : (inferStar l).outcome r = .ok (cs, s)) {cells : List Cell} {vars slots : List TypeVar}
    {later : List Constraint}
    (hrow : ReadsRow (Cell.info? setting.profile scope₀) V s t cells vars later slots) :
    ∃ added slots, ReadsRow (Cell.info? setting.profile scope₀) V r t (l₀.map .column ++ cells)
      (cs.map (·.var) ++ vars) added slots := by
  induction hl generalizing r cs with
  | nil =>
    cases hrun
    exact ⟨later, slots, hrow⟩
  | cons hc _ ih =>
    obtain ⟨o, r₁, os, hfirst, hothers, rfl⟩ := columns_of_star hrun
    obtain ⟨added, hcell⟩ := readsCell_of_starColumn hc hknown hfirst
    obtain ⟨behind, rest, hbehind⟩ := ih (fun id hid => Nat.le_trans (hV id hid) hcell.spans.issued)
      (hcell.ctes ▸ hknown) hothers
    exact ⟨_, _, .cons hV hcell hbehind⟩

/-- The walk over the items of a projection. -/
theorem readsRow_of_items {items : List Item} (hs : scope₀.Shown V scope)
    (hV : ∀ id, V id → id ≤ r.issued) (hknown : TablesShown V known r.ctes) {cs : List OutputColumn}
    (hrun : (inferItems setting scope items).outcome r = .ok (cs, s)) :
    ∃ added slots, ReadsRow (Cell.info? setting.profile scope₀) V r s
      (items.flatMap (Item.cells scope₀.columns)) (cs.map (·.var)) added slots := by
  induction items generalizing r cs with
  | nil =>
    unfold inferItems at hrun
    cases hrun
    exact ⟨[], [], .nil r⟩
  | cons item rest ih =>
    obtain ⟨first, r₁, others, hfirst, hothers, rfl⟩ := items_of_cons hrun
    obtain ⟨W, _, _, hspans, -, hctes, -⟩ := (Local.item setting item hs).spans hknown hfirst
    obtain ⟨later, slots, hrow⟩ := ih (fun id hid => Nat.le_trans (hV id hid) hspans.issued)
      (hctes ▸ hknown) hothers
    rw [List.flatMap_cons, List.map_append]
    cases item with
    | star => exact readsRow_of_star hs.columns hV hknown hfirst hrow
    | tableStar table =>
      exact readsRow_of_star (Level.Shown.ofTable hs.columns table) hV hknown (star_of_tableStar hfirst)
        hrow
    | expr value aliasName =>
      obtain ⟨a, hvalue, rfl⟩ := value_of_item hfirst
      obtain ⟨added, own, hcell⟩ := readsCell_of_expr hs hknown hvalue
      exact ⟨_, _, .cons hV hcell hrow⟩

end

/-! ## Numbers of placeholders -/

/-- The numbers that are kept with the cells of a row behind the first `n` placeholders. Only a bare
placeholder has one, which is its own. -/
inductive PlacedRow : Nat → List Cell → List (Option Nat) → Prop where
  | nil (n : Nat) : PlacedRow n [] []
  | bare {n : Nat} {cell : Cell} {cells : List Cell} {places : List (Option Nat)}
      (h : cell.isParameter = true) (hrest : PlacedRow (n + 1) cells places) :
      PlacedRow n (cell :: cells) (some n :: places)
  | other {n : Nat} {cell : Cell} {cells : List Cell} {places : List (Option Nat)}
      (h : cell.isParameter = false)
      (hrest : PlacedRow (n + (cell.marks false).length) cells places) :
      PlacedRow n (cell :: cells) (none :: places)

/-- The columns of a star in front of a row. -/
theorem placed_of_star {V : Nat → Prop} {l₀ l : Level} (hl : Level.Shown V l₀ l)
    {cs : List OutputColumn} {r s : Run} (hrun : (inferStar l).outcome r = .ok (cs, s)) {n : Nat}
    {cells : List Cell} {places : List (Option Nat)} (h : PlacedRow n cells places) :
    PlacedRow n (l₀.map .column ++ cells) (cs.map (·.placeholder) ++ places) := by
  induction hl generalizing r cs with
  | nil =>
    cases hrun
    exact h
  | cons _ _ ih =>
    obtain ⟨o, r₁, os, hfirst, hothers, rfl⟩ := columns_of_star hrun
    obtain ⟨v, -, rfl⟩ := reference_of_starColumn hfirst
    exact .other rfl (ih hothers)

/-- A value in front of a row. -/
theorem placed_of_value {setting : Setting} {scope : Scope} {value : Expr} {a : Inferred} {r s : Run}
    (hrun : (inferExpr setting scope value).outcome r = .ok (a, s)) {cells : List Cell}
    {places : List (Option Nat)}
    (h : PlacedRow (r.marks.length + (value.marks false).length) cells places) :
    PlacedRow r.marks.length (.value value :: cells) (a.placeholder :: places) := by
  cases hparameter : value.isParameter with
  | true =>
    obtain ⟨name, heq⟩ := inferExpr_of_isParameter setting scope hparameter
    rw [heq, Analyze.outcome_of_runFrom (runFrom_addPlaceholder name false r)] at hrun
    cases hrun
    obtain ⟨entry, hentry⟩ := Expr.marks_of_isParameter hparameter
    rw [hentry] at h
    have hcount : r.marks.length = r.placeholders.length := List.length_map _
    rw [hcount] at h ⊢
    exact .bare hparameter h
  | false =>
    rw [unplaced_of_not_isParameter hparameter r a s hrun]
    exact .other hparameter h

theorem placed_of_items {setting : Setting} {V : Nat → Prop} {level₀ : Level} {scope : Scope}
    (hs : Level.Shown V level₀ scope.columns) {items : List Item} {cs : List OutputColumn} {r s : Run}
    (hrun : (inferItems setting scope items).outcome r = .ok (cs, s)) :
    PlacedRow r.marks.length (items.flatMap (Item.cells level₀)) (cs.map (·.placeholder)) := by
  induction items generalizing r cs with
  | nil =>
    unfold inferItems at hrun
    cases hrun
    exact .nil _
  | cons item rest ih =>
    obtain ⟨first, r₁, others, hfirst, hothers, rfl⟩ := items_of_cons hrun
    have hmarks := (Leads.projected setting scope item r.marks r first r₁ rfl hfirst).1
    have hrest := ih hothers
    rw [hmarks] at hrest
    rw [List.flatMap_cons, List.map_append]
    cases item with
    | star =>
      rw [Item.marks, List.append_nil] at hrest
      exact placed_of_star hs hfirst hrest
    | tableStar table =>
      rw [Item.marks, List.append_nil] at hrest
      exact placed_of_star (Level.Shown.ofTable hs table) (star_of_tableStar hfirst) hrest
    | expr value aliasName =>
      rw [Item.marks, List.length_append] at hrest
      obtain ⟨a, hvalue, rfl⟩ := value_of_item hfirst
      exact placed_of_value hvalue hrest

/-! ## Binding -/

/-- Values are made as nullable as the columns that they go to. -/
theorem Leads.boundTargets {records : List (Option ColumnRecord)} {targets : Level}
    (htargets : List.Forall₂ DeclaresTarget records targets) {pre : List Mark} {cells : List Cell}
    {values : List Written} (h : PlacedRow pre.length cells (values.map (·.placeholder)))
    (post : List Mark) :
    Leads (pre ++ cells.flatMap (Cell.marks false) ++ post) (bindTargets targets values)
      (pre ++ rowMarks records cells ++ post) fun _ => True := by
  -- along the cells: each of them moves from what stands behind `pre` to the end of it
  generalize hplaces : values.map (·.placeholder) = places at h
  generalize hn : pre.length = n at h
  induction h generalizing pre values records targets with
  | nil =>
    obtain rfl : values = [] := List.map_eq_nil_iff.1 hplaces
    cases targets <;> exact pure trivial
  | @bare n cell cells places hparameter _ ih =>
    obtain ⟨value, values, rfl, hplace, rfl⟩ := List.map_eq_cons_iff.1 hplaces
    subst hn
    cases htargets with
    | nil =>
      rw [rowMarks_nil]
      exact pure trivial
    | @cons record target records targets htarget hrest =>
      obtain ⟨declared, rfl, hdeclares⟩ := htarget
      obtain ⟨entry, hmarks⟩ := Cell.marks_of_isParameter hparameter
      unfold bindTargets
      refine of_quiet (Quiet.kept.reference _) fun _ => ?_
      rw [hplace]
      have hset := setNotNull pre (cells.flatMap (Cell.marks false) ++ post) entry false target.notNull
      have hbefore : pre ++ (cell :: cells).flatMap (Cell.marks false) ++ post =
          pre ++ ⟨entry, false⟩ :: (cells.flatMap (Cell.marks false) ++ post) := by
        rw [List.flatMap_cons, hmarks]
        simp
      refine (hset.congr hbefore rfl).bind fun _ _ => ?_
      have hlength : (pre ++ [Mark.mk entry target.notNull]).length = pre.length + 1 := by simp
      refine ((ih hrest rfl hlength).bind fun _ _ => pure trivial).congr ?_ ?_
      · simp
      · rw [rowMarks, List.head?_cons, hmarks, List.tail_cons, hdeclares.notNull]
        simp
  | @other n cell cells places hparameter _ ih =>
    obtain ⟨value, values, rfl, hplace, rfl⟩ := List.map_eq_cons_iff.1 hplaces
    subst hn
    cases htargets with
    | nil =>
      rw [rowMarks_nil]
      exact pure trivial
    | @cons record target records targets htarget hrest =>
      unfold bindTargets
      refine of_quiet (Quiet.kept.reference _) fun _ => ?_
      rw [hplace]
      refine of_quiet (Quiet.pure _) fun _ => ?_
      have hlength : (pre ++ cell.marks false).length = pre.length + (cell.marks false).length :=
        List.length_append
      refine ((ih hrest rfl hlength).bind fun _ _ => pure trivial).congr ?_ ?_
      · simp
      · rw [rowMarks, Cell.marks_of_not_isParameter hparameter (Option.any _ _)]
        simp

theorem Leads.boundRow (label : String) {records : List (Option ColumnRecord)} {targets : Level}
    (htargets : List.Forall₂ DeclaresTarget records targets) {pre : List Mark} {cells : List Cell}
    {values : List Written} (h : PlacedRow pre.length cells (values.map (·.placeholder)))
    (post : List Mark) :
    Leads (pre ++ cells.flatMap (Cell.marks false) ++ post) (bindRow label targets values)
      (pre ++ rowMarks records cells ++ post) fun _ => True :=
  (boundTargets htargets h post).bind fun _ _ => quiet (Quiet.demand _)

end QuerySignature
