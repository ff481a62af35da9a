import QuerySignature.Proofs.Pinned.Types
import QuerySignature.Proofs.Written.Rows

namespace QuerySignature

/-! # Values that are written

The values of a row are analysed first, the columns that they go to are made behind them, and one
constraint ties both. An assignment is a row of one value. So every row and every assignment pins its
bare placeholders to the columns, and hands nothing on to the next one.

- `readsRow_of_all`: the walk over the values of a row;
- `binds_of_bindRow`, `binds_of_assignment`: the columns that a row is bound to;
- `Local.boundRow`, `Local.setValue`: a row and an assignment pin what they write;
- `Local.boundRows`, `Local.setValues`: so do all of them.
-/

/-! ## Values -/

/-- A literal or a column of a table makes one variable, of its type. -/
theorem outcome_of_type? {setting : Setting} {V : Nat → Prop} {scope₀ scope : Scope} {e : Expr}
    {type : SqlType} (htype : e.type? setting.profile scope₀ = some type)
    (hscope : scope₀.Shown V scope) {r s : Run} {a : Inferred}
    (hrun : (inferExpr setting scope e).outcome r = .ok (a, s)) :
    a.var.id = r.issued + 1 ∧ a.var.info = .exact type ∧ s = { r with issued := r.issued + 1 } := by
  unfold Expr.type? at htype
  split at htype
  · next value hbare =>
    rw [← inferExpr_bare, hbare] at hrun
    unfold inferExpr at hrun
    cases value <;> cases htype <;> cases hrun <;> exact ⟨rfl, rfl, rfl⟩
  · have hcolumn : scope₀.TableColumn e type := htype
    obtain ⟨c, column, hc, hresolve, hplain, hinfo⟩ := hcolumn.reference hscope
    rw [inferExpr_of_column? hc, outcome_inferColumn hresolve hplain] at hrun
    cases hrun
    exact ⟨rfl, hinfo, rfl⟩

/-- A step that makes one variable, and collects it if it is that of a placeholder. -/
theorem spans_fresh (V : Nat → Prop) (r : Run) {ps : List Placeholder}
    (hps : ∀ p ∈ ps, p.var.id = r.issued + 1) :
    r.Spans V { r with issued := r.issued + 1, placeholders := r.placeholders ++ ps } []
      (ps.map (·.var)) := by
  refine ⟨Nat.le_succ _, ?_, ?_, ?_, List.forall_mem_map.2 fun p hp => ?_⟩
  · exact (List.append_nil _).symm
  · exact fun u hu => absurd hu List.not_mem_nil
  · exact List.map_append
  · rw [hps p hp]
    exact ⟨Nat.lt_succ_self _, Nat.le_refl _⟩

theorem frees_fresh {r s : Run} (hs : s.issued = r.issued + 1) {v : TypeVar}
    (hv : v.id = r.issued + 1) : r.Frees s [] v := by
  refine ⟨⟨?_, ?_⟩, fun u hu => absurd hu List.not_mem_nil⟩
  · rw [hv]
    exact Nat.lt_succ_self _
  · exact Nat.le_of_eq (hv.trans hs.symm)

section

variable {setting : Setting} {V : Nat → Prop} {known : List (String × Level)} {scope₀ scope : Scope}
  {r s : Run}

/-- The variable of a bare placeholder is made and collected, and that is all. -/
theorem readsCell_of_isParameter {e : Expr} {a : Inferred} (hparameter : e.isParameter = true)
    (hrun : (inferExpr setting scope e).outcome r = .ok (a, s)) :
    ∃ slots, ReadsCell (Cell.info? setting.profile scope₀) V r s (.value e) a.var [] slots := by
  obtain ⟨name, heq⟩ := inferExpr_of_isParameter setting scope hparameter
  rw [heq, Analyze.outcome_of_runFrom (runFrom_addPlaceholder name false r)] at hrun
  cases hrun
  have hfrees := frees_fresh (r := r) (s := { r with issued := r.issued + 1 }) rfl
    (v := ⟨r.issued + 1, parameterText name, .unknown, false, false⟩) rfl
  have hbare : (Cell.value e).isParameter = true := hparameter
  refine ⟨_, spans_fresh V r (List.forall_mem_singleton.2 rfl), .inr hfrees.1,
    fun info hinfo => ?_, fun _ => rfl, ?_, rfl⟩
  · unfold Cell.info? at hinfo
    rw [if_pos hbare] at hinfo
    exact ⟨Option.some.inj hinfo, hfrees⟩
  · rw [Cell.writes_of_isParameter hbare]
    rfl

theorem readsCell_of_expr {e : Expr} {a : Inferred} (hs : scope₀.Shown V scope)
    (hknown : TablesShown V known r.ctes)
    (hrun : (inferExpr setting scope e).outcome r = .ok (a, s)) :
    ∃ added slots, ReadsCell (Cell.info? setting.profile scope₀) V r s (.value e) a.var added
      slots := by
  cases hparameter : e.isParameter with
  | true => exact ⟨[], readsCell_of_isParameter hparameter hrun⟩
  | false =>
    have hnot : ¬ (Cell.value e).isParameter = true := Bool.eq_false_iff.1 hparameter
    have hinfo? : Cell.info? setting.profile scope₀ (.value e) =
        (e.type? setting.profile scope₀).map .exact := if_neg hnot
    obtain ⟨W, added, slots, hspans, hlength, hctes, -, hmade, ha⟩ :=
      (Local.expr setting e hs).spans hknown hrun
    have hcount : slots.length = ((Cell.value e).writes none).length := by
      rw [hlength, Cell.length_writes]
      exact (e.asks setting.schema known scope₀ false).length_eq
    refine ⟨added, slots, hspans, hmade _ ha, fun info hinfo => ?_, fun h => absurd h hnot, hcount,
      hctes⟩
    -- where the type is known, the variable is all that is made
    obtain ⟨type, htype, rfl⟩ := Option.map_eq_some_iff.1 (hinfo? ▸ hinfo)
    obtain ⟨hid, hexact, rfl⟩ := outcome_of_type? htype hs hrun
    obtain rfl : added = [] := List.append_right_eq_self.1 hspans.constraints.symm
    exact ⟨hexact, frees_fresh rfl hid⟩

/-- The walk over the values of a row. -/
theorem readsRow_of_all {es : List Expr} {as : List Inferred} (hs : scope₀.Shown V scope)
    (hV : ∀ id, V id → id ≤ r.issued) (hknown : TablesShown V known r.ctes)
    (hrun : (inferAll setting scope es).outcome r = .ok (as, s)) :
    ∃ added slots, ReadsRow (Cell.info? setting.profile scope₀) V r s (es.map .value)
      (as.map (·.var)) added slots := by
  induction es generalizing r as with
  | nil =>
    unfold inferAll at hrun
    cases hrun
    exact ⟨[], [], .nil r⟩
  | cons e rest ih =>
    unfold inferAll at hrun
    simp only [Analyze.outcome_bind] at hrun
    obtain ⟨⟨a, r₁⟩, hfirst, hrun⟩ := bind_eq_ok.1 hrun
    obtain ⟨⟨others, r₂⟩, hothers, hrun⟩ := bind_eq_ok.1 hrun
    cases hrun
    obtain ⟨added, slots, hcell⟩ := readsCell_of_expr hs hknown hfirst
    obtain ⟨later, behind, hrow⟩ := ih (fun id hid => Nat.le_trans (hV id hid) hcell.spans.issued)
      (hcell.ctes ▸ hknown) hothers
    exact ⟨_, _, .cons hV hcell hrow⟩

end

/-! ## Columns that a row is bound to -/

/-- A column that is written, as the schema declares it. -/
def DeclaresTarget (written : Option ColumnRecord) (target : SourceColumn) : Prop :=
  ∃ record, written = some record ∧ target.Declares "" record

section

variable {schema : Schema} {table : String} {columns : List ColumnRecord} {level targets : Level}

/-- The columns that an INSERT writes are declared as the schema says. -/
theorem declares_targetColumns (hcolumns : schema.columnsOf? (lastSegment table) = some columns)
    (hlevel : List.Forall₂ (SourceColumn.Declares "") columns level) {names : List String}
    (h : targetColumns level names = .ok targets) :
    List.Forall₂ DeclaresTarget (schema.insertedColumns table names) targets := by
  have htargets := targetColumns_eq_ok h
  unfold Schema.insertedColumns
  rw [hcolumns, Option.getD_some]
  dsimp only
  split at htargets
  case isTrue hempty =>
    rw [if_pos hempty, htargets, List.forall₂_map_left_iff]
    exact hlevel.imp fun record target hdeclares => ⟨record, rfl, hdeclares⟩
  case isFalse hempty =>
    rw [if_neg hempty, List.forall₂_map_left_iff]
    refine htargets.imp fun name target hfound => ?_
    have hrel := rel_find? (p := fun record => sameName record.column name)
      (q := fun column => sameName column.name name)
      (fun record column hdeclares => by rw [hdeclares.name]) hlevel
    rw [hfound] at hrel
    generalize columns.find? (fun record => sameName record.column name) = found at hrel
    cases hrel with
    | some hdeclares => exact ⟨_, rfl, hdeclares⟩

/-- The column that an UPDATE sets is declared as the schema says. -/
theorem declares_resolved (hcolumns : schema.columnsOf? (lastSegment table) = some columns)
    (hlevel : List.Forall₂ (SourceColumn.Declares "") columns level) {name : String}
    {column : SourceColumn} (h : Scope.resolve ⟨level, []⟩ (.ofText name) = .ok column) :
    DeclaresTarget (schema.updatedColumn? table name) column := by
  obtain ⟨record, hrecord, hdeclares⟩ := declared_of_resolve hlevel h
  refine ⟨record, ?_, hdeclares⟩
  unfold Schema.updatedColumn?
  rw [hcolumns]
  exact hrecord

end

/-- Nothing but the nullability of a placeholder changes. -/
theorem run_matchNull {place : Option Nat} {target : SourceColumn} {r s : Run} {done : Unit}
    (h : (matchNull place target).outcome r = .ok (done, s)) :
    s.issued = r.issued ∧ s.constraints = r.constraints ∧ s.vars = r.vars ∧ s.ctes = r.ctes := by
  obtain ⟨hissued, hvars, hctes, -⟩ := Still.matchNull (V := fun _ => True) place target r done s h
  refine ⟨hissued, ?_, hvars, hctes⟩
  unfold matchNull at h
  cases place with
  | none =>
    cases h
    rfl
  | some index =>
    cases h
    rfl

/-- A reference to a column of a table makes one variable, of its type. -/
theorem outcome_reference {target : SourceColumn} (hplain : target.var.projected = false) (r : Run) :
    (reference target).outcome r =
      .ok (⟨r.issued + 1, target.qualifiedName, target.var.info, false, false⟩,
        { r with issued := r.issued + 1 }) := by
  unfold reference
  rw [hplain]
  rfl

/-- The variables of the columns that a row goes to are made one after the other. -/
theorem run_bindTargets {records : List (Option ColumnRecord)} {targets : Level}
    (htargets : List.Forall₂ DeclaresTarget records targets) {values : List Written}
    (hlength : values.length = targets.length) {r s : Run} {made : List TypeVar}
    (h : (bindTargets targets values).outcome r = .ok (made, s)) :
    s.issued = r.issued + made.length ∧ s.constraints = r.constraints ∧ s.vars = r.vars ∧
      s.ctes = r.ctes ∧ made.map (·.id) = List.range' (r.issued + 1) made.length ∧
      List.Forall₂ (fun written v => ∃ record, written = some record ∧ v.info = .exact record.type)
        records made := by
  induction htargets generalizing values r made with
  | nil =>
    cases h
    exact ⟨rfl, rfl, rfl, rfl, rfl, .nil⟩
  | @cons _ target _ _ htarget _ ih =>
    cases values with
    | nil => cases hlength
    | cons value values =>
      obtain ⟨record, hrecord, hdeclares⟩ := htarget
      unfold bindTargets at h
      rw [Analyze.outcome_bind, outcome_reference hdeclares.plain, ok_bind] at h
      simp only [Analyze.outcome_bind] at h
      obtain ⟨⟨_, r₁⟩, hmatch, h⟩ := bind_eq_ok.1 h
      obtain ⟨⟨others, r₂⟩, hothers, h⟩ := bind_eq_ok.1 h
      cases h
      obtain ⟨hissued, hconstraints, hvars, hctes⟩ := run_matchNull hmatch
      obtain ⟨hissued', hconstraints', hvars', hctes', hids, hinfos⟩ :=
        ih (Nat.succ.inj hlength) hothers
      dsimp only at hissued hconstraints hvars hctes
      refine ⟨?_, hconstraints'.trans hconstraints, hvars'.trans hvars, hctes'.trans hctes, ?_,
        .cons ⟨record, hrecord, hdeclares.info⟩ hinfos⟩
      · rw [hissued', hissued, List.length_cons, Nat.add_assoc, Nat.add_comm 1]
      · rw [List.map_cons, hids, hissued, List.length_cons, List.range'_succ]

/-- Rows that go to as many columns are bound to them. -/
theorem binds_of_bindRow {records : List (Option ColumnRecord)} {targets : Level}
    (htargets : List.Forall₂ DeclaresTarget records targets) {values : List Written}
    (hlength : values.length = targets.length) {label : String} {s t : Run} {done : Unit}
    (h : (bindRow label targets values).outcome s = .ok (done, t)) :
    ∃ made c, s.Binds t records (values.map (·.var)) made c := by
  unfold bindRow at h
  rw [Analyze.outcome_bind] at h
  obtain ⟨⟨made, r⟩, hmade, h⟩ := bind_eq_ok.1 h
  obtain ⟨hissued, hconstraints, hvars, hctes, hids, hinfos⟩ := run_bindTargets htargets hlength hmade
  rw [Analyze.outcome_of_runFrom (runFrom_demand _ _)] at h
  cases h
  -- the numbers of the columns follow one another, so that they are new and distinct
  have hrange : ∀ w ∈ made, s.issued < w.id ∧ w.id ≤ r.issued := by
    intro w hw
    have hmem : w.id ∈ List.range' (s.issued + 1) made.length := hids ▸ List.mem_map_of_mem hw
    obtain ⟨hlow, hhigh⟩ := List.mem_range'_1.1 hmem
    refine ⟨hlow, ?_⟩
    omega
  have hnodup : (made.map (·.id)).Nodup := hids ▸ List.nodup_range'
  refine ⟨made, _, ⟨?_, ?_, hvars, hctes, ⟨label, Constraint.split_rows _ _ _⟩, ?_, hrange,
    List.pairwise_map.1 hnodup, hinfos⟩⟩
  · exact hissued ▸ Nat.le_add_right _ _
  · exact congrArg (· ++ _) hconstraints
  · intro u hu
    have hu : u ∈ TypeTerm.varsOfAll (made.map .var) ++
        TypeTerm.varsOfAll ((values.map (·.var)).map .var) := hu
    rw [TypeTerm.varsOfAll_map_var, TypeTerm.varsOfAll_map_var] at hu
    exact List.mem_append.1 hu

/-- An assignment binds a row of one value. -/
theorem binds_of_assignment {record : Option ColumnRecord} {target : SourceColumn}
    (htarget : DeclaresTarget record target) {a : Assignment} {value : Inferred} {s t : Run}
    {done : Unit}
    (h : (reference target >>= fun var => demand (.strict a.text (.var var) (.var value.var)) >>=
      fun _ => matchNull value.placeholder target).outcome s = .ok (done, t)) :
    ∃ made c, s.Binds t [record] [value.var] made c := by
  obtain ⟨declared, hrecord, hdeclares⟩ := htarget
  rw [Analyze.outcome_bind, outcome_reference hdeclares.plain, ok_bind, Analyze.outcome_bind,
    Analyze.outcome_of_runFrom (runFrom_demand _ _), ok_bind] at h
  obtain ⟨hissued, hconstraints, hvars, hctes⟩ := run_matchNull h
  dsimp only at hissued hconstraints hvars hctes
  refine ⟨[⟨s.issued + 1, target.qualifiedName, target.var.info, false, false⟩], _, ⟨?_, hconstraints,
    hvars, hctes, ⟨a.text, rfl⟩, ?_, ?_, List.pairwise_singleton _ _,
    .cons ⟨declared, hrecord, hdeclares.info⟩ .nil⟩⟩
  · rw [hissued]
    exact Nat.le_succ _
  · intro u hu
    exact (List.mem_pair.1 hu).imp List.mem_singleton.2 List.mem_singleton.2
  · intro w hw
    rw [List.mem_singleton.1 hw]
    exact ⟨Nat.lt_succ_self _, Nat.le_of_eq hissued.symm⟩

/-! ## Rows and assignments -/

/-- The types of the columns that the placeholders of a text are written into. -/
abbrev typesOf (writes : List (Option ColumnRecord)) : List (Option SqlType) :=
  writes.map (Option.map (·.type))

/-- A step that hands on nothing of what it makes. What it is given has been made before. -/
def Closed {α : Type} (V : Nat → Prop) (known : List (String × Level)) (step : Analyze α)
    (pins : List (Option SqlType)) : Prop :=
  ∀ r a s, (∀ id, V id → id ≤ r.issued) → TablesShown V known r.ctes → step.outcome r = .ok (a, s) →
    Collects V V r s pins ∧ s.ctes = r.ctes

namespace Closed

variable {V : Nat → Prop} {known : List (String × Level)}

theorem done : Closed V known (Pure.pure () : Analyze Unit) [] := by
  intro r a s _ hknown hrun
  have hstill : Local V known (Pure.pure () : Analyze Unit) [] fun W _ => W = V := .pure rfl
  obtain ⟨W, hcollects, hctes, rfl⟩ := hstill r a s hknown hrun
  exact ⟨hcollects, hctes⟩

theorem throw {α : Type} {pins : List (Option SqlType)} (e : AnalysisError) :
    Closed V known (MonadExcept.throw e : Analyze α) pins := by
  intro r _ _ _ _ hrun
  cases hrun

theorem bind {α β : Type} {step : Analyze α} {next : α → Analyze β}
    {pins pins' : List (Option SqlType)} (h : Closed V known step pins)
    (hnext : ∀ a, Closed V known (next a) pins') :
    Closed V known (step >>= next) (pins ++ pins') := by
  intro r b t hV hknown hrun
  rw [Analyze.outcome_bind] at hrun
  obtain ⟨⟨a, s⟩, hfirst, hsecond⟩ := bind_eq_ok.1 hrun
  obtain ⟨hcollects, hctes⟩ := h r a s hV hknown hfirst
  obtain ⟨hcollects', hctes'⟩ := hnext a s b t (hcollects.bounds hV) (hctes ▸ hknown) hsecond
  exact ⟨hcollects.trans hcollects', hctes'.trans hctes⟩

variable {setting : Setting}

/-- A row of an INSERT pins its placeholders to the columns. -/
theorem boundRow (setting : Setting) {records : List (Option ColumnRecord)} {targets : Level}
    (htargets : List.Forall₂ DeclaresTarget records targets) {row : List Expr}
    (hlength : row.length = targets.length) :
    Closed V known (inferAll setting .empty row >>= fun values =>
        QuerySignature.bindRow (rowText row) targets (values.map fun a => ⟨a.var, a.placeholder⟩))
      (typesOf (rowWrites records (row.map .value))) := by
  intro r done t hV hknown hrun
  rw [Analyze.outcome_bind] at hrun
  obtain ⟨⟨values, s⟩, hvalues, hbind⟩ := bind_eq_ok.1 hrun
  have hempty : Scope.empty.Shown V .empty := ⟨.nil, .nil⟩
  obtain ⟨added, slots, hrow⟩ := readsRow_of_all hempty hV hknown hvalues
  have hcount : (values.map fun a => (⟨a.var, a.placeholder⟩ : Written)).length = targets.length := by
    rw [List.length_map, ← hlength]
    simpa using hrow.row.length_eq.symm
  obtain ⟨made, c, hbinds⟩ := binds_of_bindRow htargets hcount hbind
  rw [List.map_map] at hbinds
  exact ⟨hrow.collects hV hbinds, hbinds.ctes.trans hrow.ctes⟩

/-- The rows of an INSERT do so one after the other: what a row makes, the next one does not see. -/
theorem boundRows {records : List (Option ColumnRecord)} {targets : Level}
    (htargets : List.Forall₂ DeclaresTarget records targets) (rows : List (List Expr)) :
    Closed V known (inferRows setting targets rows)
      (typesOf (rows.flatMap fun row => rowWrites records (row.map .value))) := by
  induction rows with
  | nil => exact done
  | cons row rest ih =>
    unfold inferRows
    split
    · exact throw _
    case isFalse hlength =>
      have hboth := (boundRow setting htargets (Decidable.not_not.1 hlength)).bind fun _ => ih
      rw [bind_assoc] at hboth
      rwa [List.flatMap_cons, typesOf, List.map_append]

section

variable {table : String} {columns : List ColumnRecord} {level : Level} {scope₀ : Scope}

/-- An assignment of an UPDATE pins its placeholders to the column. -/
theorem setValue (hcolumns : setting.schema.columnsOf? (lastSegment table) = some columns)
    (hlevel : List.Forall₂ (SourceColumn.Declares "") columns level)
    (hs : scope₀.Shown V ⟨level, []⟩) (a : Assignment) :
    Closed V known (QuerySignature.resolve ⟨level, []⟩ (.ofText a.column) >>= fun target =>
        inferExpr setting ⟨level, []⟩ a.value >>= fun value =>
        QuerySignature.reference target >>= fun var =>
        demand (.strict a.text (.var var) (.var value.var)) >>= fun _ =>
        matchNull value.placeholder target)
      (typesOf (a.value.writes (setting.schema.updatedColumn? table a.column))) := by
  intro r done t hV hknown hrun
  rw [Analyze.outcome_bind] at hrun
  obtain ⟨⟨target, r'⟩, hresolve, hrun⟩ := bind_eq_ok.1 hrun
  rw [Analyze.outcome_bind] at hrun
  obtain ⟨⟨value, s⟩, hvalue, hbind⟩ := bind_eq_ok.1 hrun
  rw [resolve_eq_lift] at hresolve
  obtain ⟨hmeaning, rfl⟩ := of_outcome_lift hresolve
  obtain ⟨added, slots, hcell⟩ := readsCell_of_expr hs hknown hvalue
  obtain ⟨made, c, hbinds⟩ := binds_of_assignment (declares_resolved hcolumns hlevel hmeaning) hbind
  -- an assignment is a row of one value
  have hcollects := (ReadsRow.cons hV hcell (.nil s)).collects hV hbinds
  have hwrites : rowWrites [setting.schema.updatedColumn? table a.column] [.value a.value] =
      a.value.writes (setting.schema.updatedColumn? table a.column) := List.append_nil _
  rw [hwrites] at hcollects
  exact ⟨hcollects, hbinds.ctes.trans hcell.ctes⟩

/-- The assignments of an UPDATE do so one after the other. -/
theorem setValues (hcolumns : setting.schema.columnsOf? (lastSegment table) = some columns)
    (hlevel : List.Forall₂ (SourceColumn.Declares "") columns level)
    (hs : scope₀.Shown V ⟨level, []⟩) (as : List Assignment) :
    Closed V known (inferAssignments setting ⟨level, []⟩ as)
      (typesOf (as.flatMap fun a =>
        a.value.writes (setting.schema.updatedColumn? table a.column))) := by
  induction as with
  | nil => exact done
  | cons a rest ih =>
    unfold inferAssignments
    have hboth := (setValue hcolumns hlevel hs a).bind fun _ => ih
    simp only [bind_assoc] at hboth
    rwa [List.flatMap_cons, typesOf, List.map_append]

end

end Closed

end QuerySignature
