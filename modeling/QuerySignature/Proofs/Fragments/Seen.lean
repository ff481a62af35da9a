import QuerySignature.Proofs.Fragments.Cut
import QuerySignature.Proofs.Sources.Names
import QuerySignature.Proofs.Sources.Resolved

namespace QuerySignature

/-! # Columns seen alike

The walk over a FROM clause gathers the columns that its sources make visible, and the cutting into
fragments gathers the columns that they bring. Of the columns of one name the first one counts in
both, so it is enough that the first ones belong to the same source.

- `SeenAlike`: the first visible column of a name belongs to the table of the first known one;
- `SeenAlike.fieldOf?`: a reference is taken for a column of the table that it means;
- `SeenAlike.joinParent?`, `SeenAlike.equatedTable?`: so an ON condition mentions the same tables, and
  equates columns of the same tables, for the walk and for the cutting.
-/

/-! ## The first column of a name -/

/-- A table is visible under a name that it is written with, which is not empty. -/
def SameTable (visible written : String) : Prop := sameName visible written = true ∧ written ≠ ""

/-- A visible column and a known one are of one table. -/
def OfOneTable (column : SourceColumn) (field : TableField) : Prop :=
  SameTable column.visibleTable field.table

/-- Whatever names are asked for, the first visible column and the first known one are of one
table. -/
def SeenAlike (columns : Level) (known : List TableField) : Prop :=
  ∀ p, Caseless p →
    Option.Rel OfOneTable (columns.find? fun c => p c.name) (known.find? fun f => p f.field)

/-- Columns of one name are of one table. -/
structure BroughtAlike (label : String) (column : SourceColumn) (field : TableField) : Prop where
  name : field.field = column.name
  visible : sameName column.visibleTable label = true
  table : field.table = label

section

variable {columns level : Level} {known fields : List TableField} {label : String}

theorem SeenAlike.nil : SeenAlike [] [] := fun _ _ => .none

/-- Columns under the same names are seen as before. -/
theorem SeenAlike.congr {columns' : Level} (h : SeenAlike columns known)
    (hsame : List.Forall₂ (fun c c' : SourceColumn => c'.visibleTable = c.visibleTable ∧
      c'.name = c.name) columns columns') : SeenAlike columns' known := by
  intro p hp
  have hfirst := rel_find? (p := fun c => p c.name) (q := fun c => p c.name)
    (fun c c' hc => by rw [hc.2]) hsame
  have hknown := h p hp
  revert hfirst hknown
  generalize columns.find? _ = column
  generalize columns'.find? _ = column'
  generalize known.find? _ = field
  intro hfirst hknown
  cases hfirst with
  | none => exact hknown
  | some hc =>
    cases hknown with
    | some hone => exact .some (show SameTable _ _ from hc.1 ▸ hone)

/-- The columns of one more source, but for those whose names are known already. -/
theorem SeenAlike.append (h : SeenAlike columns known)
    (hbrought : List.Forall₂ (BroughtAlike label) level fields) (hlabel : label ≠ "")
    {keep : SourceColumn → Bool}
    (hkeep : ∀ c ∈ level, keep c = false → ∃ f ∈ known, sameName f.field c.name = true) :
    SeenAlike (columns ++ level.filter keep) (known ++ fields) := by
  intro p hp
  rw [List.find?_append, List.find?_append]
  have hbefore := h p hp
  cases hcolumn : columns.find? (fun c => p c.name) with
  | some column =>
    cases hfield : known.find? (fun f => p f.field) with
    | none => simp [hcolumn, hfield] at hbefore
    | some field =>
      rw [hcolumn, hfield] at hbefore
      simpa using hbefore
  | none =>
    have hunknown : known.find? (fun f => p f.field) = none := by
      cases hfield : known.find? (fun f => p f.field) with
      | none => rfl
      | some field => simp [hcolumn, hfield] at hbefore
    rw [hunknown, Option.none_or, Option.none_or]
    -- a column that is left out has the name of a known one, so it is not asked for
    clear hbefore hcolumn
    induction hbrought with
    | nil => exact .none
    | @cons c f _ _ hhead _ ih =>
      have ih := ih fun d hd => hkeep d (List.mem_cons_of_mem _ hd)
      rw [List.find?_cons, hhead.name]
      cases hasked : p c.name with
      | false =>
        rw [List.filter_cons]
        split
        · rw [List.find?_cons, hasked]
          exact ih
        · exact ih
      | true =>
        have hkept : keep c = true := by
          by_contra hnot
          obtain ⟨g, hg, hname⟩ := hkeep c List.mem_cons_self (by simpa using hnot)
          have hno : p g.field = false := by simpa using List.find?_eq_none.1 hunknown g hg
          rw [hp _ _ hname, hasked] at hno
          cases hno
        rw [List.filter_cons, if_pos hkept, List.find?_cons, hasked]
        exact .some ⟨hhead.table ▸ hhead.visible, hhead.table ▸ hlabel⟩

theorem SeenAlike.appendAll (h : SeenAlike columns known)
    (hbrought : List.Forall₂ (BroughtAlike label) level fields) (hlabel : label ≠ "") :
    SeenAlike (columns ++ level) (known ++ fields) := by
  have hkept : SeenAlike (columns ++ level.filter fun _ => true) (known ++ fields) :=
    h.append hbrought hlabel fun _ _ hno => nomatch hno
  rwa [List.filter_eq_self.2 fun _ _ => rfl] at hkept

end

/-! ## References -/

/-- The table of the column that an expression is taken for, if it is one. -/
def tableIn? (known : List TableField) (e : Expr) : Option String :=
  (e.column?.bind (fieldOf? known)).map (·.table)

/-- The other table of an equation between the joined one and another. -/
def otherTable? (known : List TableField) (joined : String) (sides : Expr × Expr) :
    Option String :=
  match tableIn? known sides.1, tableIn? known sides.2 with
  | some left, some right =>
    match sameName left joined, sameName right joined with
    | true, false => some right
    | false, true => some left
    | _, _ => none
  | _, _ => none

/-- The table that a condition equates with the joined one first. -/
def equatedTable? (known : List TableField) (joined : String) (e : Expr) : Option String :=
  e.equalities.findSome? (otherTable? known joined)

/-- Adding each column once does not change the first one with a property of tables. -/
theorem find?_foldl_addField {known : List TableField} {p : TableField → Bool}
    (hp : ∀ a b : TableField, a.sameAs b = true → p a = p b) (cs : List ColumnRef)
    (done : List TableField) :
    (cs.foldl (addField known) done).find? p =
      (done ++ cs.filterMap (fieldOf? known)).find? p := by
  induction cs generalizing done with
  | nil => simp
  | cons c rest ih =>
    rw [List.foldl_cons, ih, List.filterMap_cons]
    unfold addField
    cases fieldOf? known c with
    | none => rfl
    | some field =>
      simp only
      split
      case isFalse => simp
      case isTrue hany =>
        -- a column that is there already comes first anyway
        obtain ⟨found, hfound, hsame⟩ := List.any_eq_true.1 hany
        simp only [List.find?_append, List.find?_cons]
        cases hdone : done.find? p with
        | some first => rfl
        | none =>
          have hno : p found = false := by simpa using List.find?_eq_none.1 hdone found hfound
          rw [← hp _ _ hsame, hno]

/-- What an ON condition mentions first beside the joined table, without the columns that are read
before. -/
theorem joinParent?_predicate (known : List TableField) (joined : String) (e : Expr) :
    joinParent? (.predicate e) joined known =
      ((e.columns.filterMap (fieldOf? known)).find? fun f => !sameName f.table joined).map
        (·.table) := by
  have hcase : ∀ a b : TableField, a.sameAs b = true →
      (!sameName a.table joined) = !sameName b.table joined := by
    intro a b hab
    simp only [TableField.sameAs, Bool.and_eq_true] at hab
    exact congrArg not (caseless_sameName joined _ _ hab.1)
  show ((fieldsOf known e).find? _).map _ = _
  rw [fieldsOf_eq, find?_foldl_addField hcase, List.nil_append]

/-- The columns of the joined table itself may be known, or not. -/
theorem joinParent?_own {known own : List TableField} {joined : String}
    (hown : ∀ f ∈ own, f.table = joined) (condition : JoinCondition) :
    joinParent? condition joined known = joinParent? condition joined (known ++ own) := by
  cases condition with
  | shared _ | unconditional => rfl
  | predicate e =>
    rw [joinParent?_predicate, joinParent?_predicate]
    congr 1
    induction e.columns with
    | nil => rfl
    | cons c rest ih =>
      -- what the joined table adds is only found where nothing else is
      have hfield : fieldOf? (known ++ own) c = fieldOf? known c ∨
          fieldOf? known c = none ∧ ∃ f, fieldOf? (known ++ own) c = some f ∧ f.table = joined := by
        unfold fieldOf?
        split
        case isFalse => exact .inl rfl
        case isTrue =>
          rw [List.find?_append]
          cases known.find? fun field => sameName field.field c.name with
          | some f => exact .inl rfl
          | none =>
            cases hnew : own.find? fun field => sameName field.field c.name with
            | none => exact .inl rfl
            | some f => exact .inr ⟨rfl, f, rfl, hown f (List.mem_of_find?_eq_some hnew)⟩
      rw [List.filterMap_cons, List.filterMap_cons]
      -- a column of the joined table itself is passed over
      rcases hfield with hsame | ⟨hnone, f, hsome, htable⟩
      · rw [hsame]
        cases fieldOf? known c with
        | none => exact ih
        | some f => rw [List.find?_cons, List.find?_cons, ih]
      · rw [hnone, hsome, List.find?_cons, htable, sameName_refl]
        exact ih

/-- A table that a condition equates with the joined one is mentioned. -/
theorem joinParent?_isSome {known : List TableField} {joined : String} {e : Expr} {table : String}
    (h : equatedTable? known joined e = some table) :
    (joinParent? (.predicate e) joined known).isSome = true := by
  obtain ⟨sides, hsides, hother⟩ := List.exists_of_findSome?_eq_some h
  obtain ⟨hleft, hright⟩ := columns_subset_of_equalities hsides
  -- the other side of the equation is a column that the condition mentions
  have hside : ∀ side : Expr, side.columns ⊆ e.columns → ∀ other, tableIn? known side = some other →
      sameName other joined = false → (joinParent? (.predicate e) joined known).isSome = true := by
    intro side hsubset other htable hnot
    unfold tableIn? at htable
    simp only [Option.map_eq_some_iff, Option.bind_eq_some_iff] at htable
    obtain ⟨field, ⟨c, hcolumn, hfield⟩, rfl⟩ := htable
    rw [joinParent?_predicate, Option.isSome_map, List.find?_isSome]
    refine ⟨field, List.mem_filterMap.2 ⟨c, hsubset (mem_columns_of_column? hcolumn), hfield⟩, ?_⟩
    simp [hnot]
  unfold otherTable? at hother
  cases hl : tableIn? known sides.1 with
  | none => simp [hl] at hother
  | some left =>
    cases hr : tableIn? known sides.2 with
    | none => simp [hl, hr] at hother
    | some right =>
      cases hsameLeft : sameName left joined <;> cases hsameRight : sameName right joined <;>
        simp only [hl, hr, hsameLeft, hsameRight] at hother
      · cases hother
      · exact hside sides.1 hleft left hl hsameLeft
      · exact hside sides.2 hright right hr hsameRight
      · cases hother

namespace SeenAlike

variable {columns : Level} {known : List TableField} (h : SeenAlike columns known)

include h

/-- A reference that has a meaning is taken for a column of its table. -/
theorem fieldOf? {c : ColumnRef} {column : SourceColumn}
    (hlookup : Scope.lookup? ⟨columns, []⟩ c = some column) :
    ∃ field, QuerySignature.fieldOf? known c = some field ∧ OfOneTable column field := by
  -- the reference means the first column that answers it
  have hfirst : columns.find? (fun d => d.answers c.qualifier c.name) = some column := by
    unfold Scope.lookup? Scope.resolve Scope.levels resolveIn at hlookup
    unfold Level.answers at hlookup
    rw [← List.head?_filter]
    cases hanswers : columns.filter fun d => d.answers c.qualifier c.name with
    | nil =>
      simp only [hanswers, resolveIn] at hlookup
      split at hlookup <;> cases hlookup
    | cons first others =>
      simp only [hanswers] at hlookup
      by_cases hone : (others.all fun other => other.sameAs first) = true
      · simpa [hone, Except.toOption] using hlookup
      · simp [hone, Except.toOption] at hlookup
  unfold QuerySignature.fieldOf?
  cases hempty : c.qualifier.isEmpty with
  | true =>
    have hsame := h _ (caseless_sameName c.name)
    have hanswers : (fun d : SourceColumn => d.answers c.qualifier c.name) =
        fun d => sameName d.name c.name := by
      funext d
      simp [SourceColumn.answers, hempty]
    rw [← hanswers, hfirst] at hsame
    cases hfield : known.find? fun f => sameName f.field c.name with
    | none => simp [hfield] at hsame
    | some field =>
      rw [hfield] at hsame
      cases hsame with
      | some hone => exact ⟨field, by simp, hone⟩
  | false =>
    have hof : column.isOf c.qualifier = true := by
      have hanswers := List.find?_some hfirst
      simp only [SourceColumn.answers, Bool.and_eq_true, hempty, Bool.false_or] at hanswers
      exact hanswers.2
    refine ⟨⟨c.qualifier, c.name⟩, by simp, hof, ?_⟩
    simpa using hempty

/-- The references that are mentioned have the same tables. -/
theorem mentions {cs : List ColumnRef}
    (hresolved : ∀ c ∈ cs, ∃ column, Scope.lookup? ⟨columns, []⟩ c = some column) :
    List.Forall₂ OfOneTable (cs.filterMap (Scope.lookup? ⟨columns, []⟩))
      (cs.filterMap (QuerySignature.fieldOf? known)) := by
  induction cs with
  | nil => exact .nil
  | cons c rest ih =>
    obtain ⟨column, hcolumn⟩ := hresolved c List.mem_cons_self
    obtain ⟨field, hfield, hone⟩ := h.fieldOf? hcolumn
    rw [List.filterMap_cons_some hcolumn, List.filterMap_cons_some hfield]
    exact .cons hone (ih fun d hd => hresolved d (List.mem_cons_of_mem _ hd))

/-- An expression that is a column, is one of the same table. -/
theorem tableIn? {e : Expr}
    (hresolved : ∀ c ∈ e.columns, ∃ column, Scope.lookup? ⟨columns, []⟩ c = some column) :
    Option.Rel (fun column => SameTable column.visibleTable)
      (Scope.columnOf? ⟨columns, []⟩ e) (QuerySignature.tableIn? known e) := by
  unfold Scope.columnOf? QuerySignature.tableIn?
  cases hcolumn : e.column? with
  | none => exact .none
  | some c =>
    obtain ⟨column, hlookup⟩ := hresolved c (mem_columns_of_column? hcolumn)
    obtain ⟨field, hfield, hone⟩ := h.fieldOf? hlookup
    simp only [Option.bind_some, hlookup, hfield, Option.map_some]
    exact .some hone

/-- An equation ties the joined table to the same other one. -/
theorem otherTable? {sides : Expr × Expr} (joined : String)
    (hleft : ∀ c ∈ sides.1.columns, ∃ column, Scope.lookup? ⟨columns, []⟩ c = some column)
    (hright : ∀ c ∈ sides.2.columns, ∃ column, Scope.lookup? ⟨columns, []⟩ c = some column) :
    Option.Rel (fun pair => SameTable pair.2.visibleTable)
      (Scope.joinedPair? ⟨columns, []⟩ joined sides)
      (QuerySignature.otherTable? known joined sides) := by
  unfold Scope.joinedPair? QuerySignature.otherTable?
  have hl := h.tableIn? hleft
  have hr := h.tableIn? hright
  -- both sides by what they are, whatever the expressions
  generalize Scope.columnOf? ⟨columns, []⟩ sides.1 = left at hl
  generalize Scope.columnOf? ⟨columns, []⟩ sides.2 = right at hr
  generalize QuerySignature.tableIn? known sides.1 = tableLeft at hl
  generalize QuerySignature.tableIn? known sides.2 = tableRight at hr
  cases hl with
  | none => exact .none
  | @some left tableLeft hl =>
    cases hr with
    | none => exact .none
    | @some right tableRight hr =>
      -- whether a side is in the joined table is told alike
      have hleftOf : left.isOf joined = sameName tableLeft joined :=
        caseless_sameName joined _ _ hl.1
      have hrightOf : right.isOf joined = sameName tableRight joined :=
        caseless_sameName joined _ _ hr.1
      simp only [hleftOf, hrightOf]
      cases sameName tableLeft joined <;> cases sameName tableRight joined
      · exact .none
      · exact .some hl
      · exact .some hr
      · exact .none

end SeenAlike

/-! ## Conditions of joins -/

namespace SeenAlike

variable {columns : Level} {known : List TableField} (h : SeenAlike columns known) {e : Expr}
  (hresolved : ∀ c ∈ e.columns, ∃ column, Scope.lookup? ⟨columns, []⟩ c = some column)
  (joined : String)

include h hresolved

/-- A condition mentions the same table first beside the joined one. -/
theorem joinParent? :
    Option.Rel (fun column => SameTable column.visibleTable)
      ((e.columns.filterMap (Scope.lookup? ⟨columns, []⟩)).find? fun c => !c.isOf joined)
      (QuerySignature.joinParent? (.predicate e) joined known) := by
  rw [joinParent?_predicate]
  have hfirst := rel_find? (p := fun c => !c.isOf joined) (q := fun f => !sameName f.table joined)
    (fun c f hone => congrArg not (caseless_sameName joined _ _ hone.1)) (h.mentions hresolved)
  revert hfirst
  generalize List.find? _ _ = column
  generalize List.find? _ _ = field
  intro hfirst
  cases hfirst with
  | none => exact .none
  | some hone => exact .some hone

/-- A condition equates the joined table with the same other one first. -/
theorem equatedTable? :
    Option.Rel (fun column => SameTable column.visibleTable)
      (((e.equalities.filterMap (Scope.joinedPair? ⟨columns, []⟩ joined)).head?).map (·.2))
      (QuerySignature.equatedTable? known joined e) := by
  have hsides := fun sides (hmem : sides ∈ e.equalities) => columns_subset_of_equalities hmem
  unfold QuerySignature.equatedTable?
  rw [List.head?_filterMap]
  -- the first equation that ties the joined table decides
  generalize e.equalities = equalities at hsides
  induction equalities with
  | nil => exact .none
  | cons sides rest ih =>
    obtain ⟨hleft, hright⟩ := hsides sides List.mem_cons_self
    have hother := h.otherTable? joined (fun c hc => hresolved c (hleft hc))
      fun c hc => hresolved c (hright hc)
    rw [List.findSome?_cons, List.findSome?_cons]
    revert hother
    generalize Scope.joinedPair? ⟨columns, []⟩ joined sides = pair
    generalize QuerySignature.otherTable? known joined sides = table
    intro hother
    cases hother with
    | none => exact ih fun sides hmem => hsides sides (List.mem_cons_of_mem _ hmem)
    | some hone => exact .some hone

end SeenAlike

end QuerySignature
