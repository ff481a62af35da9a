import QuerySignature.Proofs.Placeholders.Reported
import QuerySignature.Proofs.Written.Values

namespace QuerySignature

/-! # Descriptions of written placeholders

A placeholder that is the whole of a value in an INSERT or an UPDATE is described as the column that it
is written into: with its type, and as nullable as it, whatever else the statement holds.

- `collects_of_writes`: the walk over a statement pins what the statement writes;
- `asked_of_writes`: it marks it as the columns are declared;
- `describe_writes`: a description gives written placeholders the type and nullability of their columns.
-/

/-! ## Types -/

/-- What is collected counts, also where the pins are of no matter. -/
theorem Collects.forget {V W : Nat → Prop} {r s : Run} {pins : List (Option SqlType)}
    (h : Collects V W r s pins) {α : Type} {others : List α} (hlength : others.length = pins.length) :
    Collects V W r s (others.map fun _ => none) := by
  obtain ⟨collected, hreaches, rfl, hvars⟩ := h
  obtain ⟨added, hadded, hwithin, -⟩ := hreaches.constraints
  refine ⟨collected.map fun entry => (entry.1, none),
    { hreaches with
      own := List.forall_mem_map.2 hreaches.own
      constraints := ⟨added, hadded, hwithin, fun _ v type hmem => ?_⟩ }, ?_, ?_⟩
  · obtain ⟨_, -, heq⟩ := List.mem_map.1 hmem
    cases heq
  · rw [List.length_map] at hlength
    rw [List.map_map, List.map_const', hlength]
    exact List.map_const'
  · rw [List.map_map]
    exact hvars

theorem typesOf_none {α : Type} (xs : List α) :
    typesOf (xs.map fun _ => none) = xs.map fun _ => none := by
  rw [typesOf, List.map_map]
  rfl

theorem collects_of_insert {setting : Setting} {table : String} {names : List String}
    {rows : List (List Expr)} {last : Run}
    (h : (inferInsert setting table names (.values rows)).outcome .start = .ok ((), last)) :
    ∃ W, Collects Nothing W .start last
      (typesOf ((Statement.insert table names (.values rows)).writes setting.schema)) := by
  obtain ⟨level, same, targets, htable, hfound, hvalues, -⟩ := targets_of_insert h
  obtain ⟨-, columns, hcolumns, hlevel⟩ := declared_of_start htable
  have hdeclares := declares_targetColumns hcolumns hlevel hfound
  have hempty : ∀ id, Nothing id → id ≤ Run.start.issued := fun id hid => hid.elim
  obtain ⟨W, hcollects, hctes, -⟩ :=
    Local.tableColumns setting.schema table none .start level same .nil htable
  have hknown : TablesShown W [] same.ctes := hctes ▸ .nil
  obtain ⟨hcollects', -⟩ :=
    Closed.boundRows hdeclares rows same () last (hcollects.bounds hempty) hknown
      (hvalues rows rfl)
  exact ⟨W, hcollects.trans hcollects'⟩

theorem collects_of_update {setting : Setting} {table : String} {assignments : List Assignment}
    {criteria : Option Expr} {written : Nat} {last : Run}
    (h : (inferUpdate setting table assignments criteria).outcome .start = .ok (written, last)) :
    ∃ W, Collects Nothing W .start last
      (typesOf ((Statement.update table assignments criteria).writes setting.schema)) := by
  obtain ⟨level, read, assigned, _, htable, hassignments, hcriteria, -⟩ := clauses_of_update h
  obtain ⟨-, columns, hcolumns, hlevel⟩ := declared_of_start htable
  have hempty : ∀ id, Nothing id → id ≤ Run.start.issued := fun id hid => hid.elim
  obtain ⟨W, hcollects, hctes, hshown⟩ :=
    Local.tableColumns setting.schema table none .start level read .nil htable
  have hknown : TablesShown W [] read.ctes := hctes ▸ .nil
  have hs : Scope.Shown W ⟨tableLevel setting.schema [] table "", []⟩ ⟨level, []⟩ := ⟨hshown, .nil⟩
  obtain ⟨hcollects', hctes'⟩ := Closed.setValues hcolumns hlevel hs assignments read () assigned
    (hcollects.bounds hempty) hknown hassignments
  have hset := hcollects.trans hcollects'
  -- the filter is walked behind the assignments, and what it pins is of no matter here
  have hknown' : TablesShown W [] assigned.ctes := hctes' ▸ hknown
  obtain ⟨Y, hcollects'', -⟩ :=
    Local.option setting criteria hs assigned _ last hknown' hcriteria
  have hcount := (asks_some setting.schema []
    ⟨tableLevel setting.schema [] table "", []⟩ criteria).length_eq.symm
  have hall := hset.trans (hcollects''.forget hcount)
  refine ⟨Y, ?_⟩
  rw [Statement.writes, typesOf, List.map_append]
  show Collects Nothing Y .start last (_ ++ typesOf ((marksOfSome criteria).map fun _ => none))
  rw [typesOf_none]
  exact hall

/-- The walk over a statement pins the placeholders that the statement writes. -/
theorem collects_of_writes {setting : Setting} {s : Statement} {analysis : Analysis} {run : Run}
    (h : (inferStatement setting s).outcome .start = .ok (analysis, run)) :
    ∃ W, Collects Nothing W .start run (typesOf (s.writes setting.schema)) := by
  have hnothing : s.writes setting.schema = (s.marks setting.schema).map (fun _ => none) →
      ∃ W, Collects Nothing W .start run (typesOf (s.writes setting.schema)) := by
    intro hwrites
    obtain ⟨W, hcollects⟩ := collects_of_statement h
    rw [hwrites, typesOf_none]
    exact ⟨W, hcollects.forget (s.asks setting.schema).length_eq.symm⟩
  cases s with
  | select q => exact hnothing rfl
  | delete table criteria => exact hnothing rfl
  | insert table names rows =>
    cases rows with
    | query q => exact hnothing rfl
    | values rows => exact collects_of_insert (walk_of_insert h).1
  | update table assignments criteria =>
    obtain ⟨written, hwalk, -⟩ := walk_of_update h
    exact collects_of_update hwalk

/-! ## Nullability -/

/-- A star is no value. -/
theorem notStar_of_all {setting : Setting} {scope : Scope} {es : List Expr} {as : List Inferred}
    {r s : Run} (h : (inferAll setting scope es).outcome r = .ok (as, s)) :
    ∀ e ∈ es, e.isStar = false := by
  induction es generalizing r as with
  | nil => exact fun e he => absurd he List.not_mem_nil
  | cons e rest ih =>
    unfold inferAll at h
    simp only [Analyze.outcome_bind] at h
    obtain ⟨⟨a, r₁⟩, hfirst, h⟩ := bind_eq_ok.1 h
    obtain ⟨⟨others, r₂⟩, hothers, h⟩ := bind_eq_ok.1 h
    cases h
    refine List.forall_mem_cons.2 ⟨?_, ih hothers⟩
    cases hstar : e.isStar with
    | false => rfl
    | true =>
      obtain rfl : e = .star := by cases e <;> first | rfl | cases hstar
      unfold inferExpr at hfirst
      cases hfirst

theorem notStar_of_rows {setting : Setting} {targets : Level} {rows : List (List Expr)} {r s : Run}
    {done : Unit} (h : (inferRows setting targets rows).outcome r = .ok (done, s)) :
    ∀ row ∈ rows, ∀ e ∈ row, e.isStar = false := by
  induction rows generalizing r with
  | nil => exact fun row hrow => absurd hrow List.not_mem_nil
  | cons row rest ih =>
    unfold inferRows at h
    split at h
    · cases h
    · simp only [Analyze.outcome_bind] at h
      obtain ⟨⟨values, r₁⟩, hvalues, h⟩ := bind_eq_ok.1 h
      obtain ⟨⟨_, r₂⟩, -, h⟩ := bind_eq_ok.1 h
      exact List.forall_mem_cons.2 ⟨notStar_of_all hvalues, ih h⟩

theorem asked_of_insert (schema : Schema) (table : String) (names : List String)
    {rows : List (List Expr)} (h : ∀ row ∈ rows, ∀ e ∈ row, e.isStar = false) :
    List.Forall₂ AsksAs ((Statement.insert table names (.values rows)).writes schema)
      ((Statement.insert table names (.values rows)).marks schema) := by
  unfold Statement.writes Statement.marks
  dsimp only
  rw [schema.insertedNotNull_eq]
  induction rows with
  | nil => exact .nil
  | cons row rest ih =>
    obtain ⟨hrow, hrest⟩ := List.forall_mem_cons.1 h
    rw [List.flatMap_cons, List.flatMap_cons, rowMarks_values hrow]
    exact List.rel_append (rowWrites_asked _ _) (ih hrest)

theorem asked_of_update (schema : Schema) (table : String) (assignments : List Assignment)
    (criteria : Option Expr) :
    List.Forall₂ AsksAs ((Statement.update table assignments criteria).writes schema)
      ((Statement.update table assignments criteria).marks schema) := by
  unfold Statement.writes Statement.marks
  refine List.rel_append ?_ (asksAs_none rfl)
  induction assignments with
  | nil => exact .nil
  | cons a rest ih =>
    rw [List.flatMap_cons, List.flatMap_cons, schema.updatedNotNull_eq]
    exact List.rel_append (a.value.writes_asked _) ih

/-- The walk over a statement asks of what is written what the columns do. -/
theorem asked_of_writes {setting : Setting} {s : Statement} {analysis : Analysis} {run : Run}
    (h : (inferStatement setting s).outcome .start = .ok (analysis, run)) :
    List.Forall₂ AsksAs (s.writes setting.schema) run.marks := by
  have hcount : (s.marks setting.schema).length = run.marks.length := by
    rw [← (s.asks setting.schema).length_eq, (asked_of_statement h).length_eq]
  cases hquery : s.writesQuery with
  | true =>
    obtain ⟨table, names, q, rfl⟩ : ∃ table names q, s = .insert table names (.query q) := by
      cases s with
      | insert table names rows => cases rows with
        | query q => exact ⟨table, names, q, rfl⟩
        | values rows => cases hquery
      | _ => cases hquery
    exact asksAs_none hcount
  | false =>
    rw [marks_of_statement hquery h]
    cases s with
    | select q => exact asksAs_none rfl
    | delete table criteria => exact asksAs_none rfl
    | update table assignments criteria => exact asked_of_update _ table assignments criteria
    | insert table names rows =>
      cases rows with
      | query q => cases hquery
      | values rows =>
        refine asked_of_insert _ table names ?_
        obtain ⟨level, read, targets, -, -, hvalues, -⟩ := targets_of_insert (walk_of_insert h).1
        exact notStar_of_rows (hvalues rows rfl)

/-! ## Descriptions -/

/-- A described placeholder is as the column that it is written into, if there is one. -/
def Takes (written : Option ColumnRecord) (p : ResultParameter) : Prop :=
  ∀ record, written = some record → p.type = record.type ∧ p.notNull = record.notNull

/-- A placeholder that is the whole of a value in an INSERT of values or an UPDATE is described with the
type of the column that it is written into, and as nullable as the column. -/
theorem describe_writes {setting : Setting} {s : Statement} {d : Description}
    (h : describe setting s = .ok d) :
    List.Forall₂ Takes (s.writes setting.schema) (d.data ++ d.parameters) := by
  obtain ⟨analysis, run, solution, hwalk, hsolve, hall⟩ := placeholders_of_described h
  -- the types come from the solution, the nullability from the marks of the walk
  obtain ⟨W, hcollects⟩ := collects_of_writes hwalk
  have htypes := typeOf_of_collects hcollects hsolve
  have hasked := asked_of_writes hwalk
  unfold Run.vars at htypes
  unfold Run.marks at hasked
  rw [typesOf, List.forall₂_map_left_iff] at htypes
  rw [List.forall₂_map_right_iff] at htypes hasked
  rw [hall]
  refine rel_zipIdx (fun written p index hp => ?_)
    (htypes.mp (fun written p htype hask => And.intro htype hask) hasked) 0
  rintro record rfl
  exact ⟨hp.1 record.type rfl, hp.2 record rfl⟩

/-- `INSERT INTO names (name, id) VALUES (?, 1 + ?), ((?), ?)`. -/
def twoNames : Statement :=
  .insert "names" ["name", "id"] (.values
    [[.parameter none, .arithmetic .add (.literal (.int 1)) (.parameter none)],
      [.paren (.parameter none), .parameter none]])

/-- `UPDATE names SET name = (?), id = ? WHERE id IN (SELECT id FROM names WHERE name = ?)`. -/
def renameByName : Statement :=
  .update "names" [⟨"name", .paren (.parameter none)⟩, ⟨"id", .parameter none⟩]
    (some (.inQuery false (.column ⟨none, "id"⟩) ⟨[],
      [⟨false, [.expr (.column ⟨none, "id"⟩) none], [.table "names" none], [],
        some (.compare .eq (.column ⟨none, "name"⟩) (.parameter none)), [], none⟩], [], none⟩))

/-- The placeholders in parentheses are written too; those of the sum and of the filter are not. -/
theorem describe_writes_twoNames_renameByName :
    let id : ColumnRecord := ⟨"names", "id", .int, .primary, true⟩
    let name : ColumnRecord := ⟨"names", "name", .varchar, .plain, false⟩
    (∃ d, describe ⟨nameTable, .mysql⟩ twoNames = .ok d ∧
      List.Forall₂ Takes [some name, none, some name, some id] (d.data ++ d.parameters)) ∧
    ∃ d, describe ⟨nameTable, .mysql⟩ renameByName = .ok d ∧
      List.Forall₂ Takes [some name, some id, none] (d.data ++ d.parameters) := by
  intro id name
  have hinsert : (describe ⟨nameTable, .mysql⟩ twoNames).isOk = true := by decide +kernel
  have hupdate : (describe ⟨nameTable, .mysql⟩ renameByName).isOk = true := by decide +kernel
  obtain ⟨inserted, hinserted⟩ := exists_of_isOk hinsert
  obtain ⟨updated, hupdated⟩ := exists_of_isOk hupdate
  have hrows : twoNames.writes nameTable = [some name, none, some name, some id] := by
    decide +kernel
  have hvalues : renameByName.writes nameTable = [some name, some id, none] := by decide +kernel
  exact ⟨⟨inserted, hinserted, hrows ▸ describe_writes hinserted⟩,
    updated, hupdated, hvalues ▸ describe_writes hupdated⟩

end QuerySignature
