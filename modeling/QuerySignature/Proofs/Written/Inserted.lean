import QuerySignature.Proofs.Written.Described
import QuerySignature.Proofs.Written.Query

namespace QuerySignature

/-! # Queries that are written

An INSERT of a query writes what every branch of the query projects. The walk ties only the columns of
the first branch to the columns of the table: a bare placeholder that a further branch projects is
described as one of which nothing is known, and no type in its row is held against the columns.

- `Select.slots`: the placeholders of a query, and whether the first branch projects them.
- `ReadInsert.types`, `ReadInsert.asked`, `ReadInsert.fits`: what the walk and its solution make of them,
  and of the types in the first branch.
- `describe_insertedQuery`: how they are described.
- `bindsBranches_iff`: when every branch is bound.
- `further_branch_unbound`: queries of two branches in which the second one is not.
-/

/-! ## Slots -/

/-- The placeholders of a query, each with the column that it goes to, and whether it is the first
branch that projects it. -/
def Select.slots (schema : Schema) (records : List (Option ColumnRecord)) (q : Select) :
    List (Bool × Option ColumnRecord) :=
  let branchWrites := Branch.writes schema (q.known schema) records
  let written := match q.branches with
    | [] => []
    | first :: others =>
      (branchWrites first).map (Prod.mk true) ++ (others.flatMap branchWrites).map (Prod.mk false)
  (marksOfCtes q.ctes).map (fun _ => (false, none)) ++ written ++
    (marksOfOrder q.order ++ marksOfLimit q.limit).map fun _ => (false, none)

theorem Select.slots_snd (schema : Schema) (records : List (Option ColumnRecord)) (q : Select) :
    (q.slots schema records).map Prod.snd = q.writes schema records := by
  have hpair : ∀ (leading : Bool) (xs : List (Option ColumnRecord)),
      (xs.map (Prod.mk leading)).map Prod.snd = xs := by
    intro leading xs
    rw [List.map_map]
    exact List.map_id _
  unfold Select.slots Select.writes
  rw [List.map_append, List.map_append, List.map_map, List.map_map]
  congr 2
  cases q.branches with
  | nil => rfl
  | cons first others =>
    dsimp only
    rw [List.map_append, hpair, hpair, List.flatMap_cons]

/-- What is known of a placeholder that goes to a column: one thing if the first branch projects it,
another if it does not. -/
def SlotWith {α : Type} (leading : ColumnRecord → α → Prop) (further : α → Prop)
    (slot : Bool × Option ColumnRecord) (a : α) : Prop :=
  ∀ record, slot.2 = some record → if slot.1 then leading record a else further a

/-- What is known of the placeholders of a query, part by part. -/
theorem slotsWith {α : Type} {leading : ColumnRecord → α → Prop} {further : α → Prop} {schema : Schema}
    {records : List (Option ColumnRecord)} {q : Select} (hq : q.Ungrouped) {first : Branch}
    {others : List Branch} (hbranches : q.branches = first :: others) {before own rest last : List α}
    (hbefore : before.length = (marksOfCtes q.ctes).length)
    (hown : List.Forall₂ (fun written a => ∀ record, written = some record → leading record a)
      (first.writes schema (q.known schema) records) own)
    (hrest : List.Forall₂ (fun written a => ∀ record, written = some record → further a)
      (others.flatMap (Branch.writes schema (q.known schema) records)) rest)
    (hlast : last.length = (marksOfLimit q.limit).length) :
    List.Forall₂ (SlotWith leading further) (q.slots schema records)
      (before ++ own ++ rest ++ last) := by
  -- common tables and a LIMIT write nothing
  have hnothing : ∀ {marks : List Mark} {xs : List α}, xs.length = marks.length →
      List.Forall₂ (SlotWith leading further) (marks.map fun _ => (false, none)) xs :=
    fun hlength => List.forall₂_map_left_iff.2 (List.forall₂_iff_zip.2 ⟨hlength.symm, fun _ _ => nofun⟩)
  unfold Select.slots
  rw [hbranches, hq.order, marksOfOrder, List.nil_append, List.append_assoc before own rest]
  refine List.rel_append (List.rel_append (hnothing hbefore) (List.rel_append ?_ ?_)) (hnothing hlast)
  · exact List.forall₂_map_left_iff.2 hown
  · exact List.forall₂_map_left_iff.2 hrest

/-- The columns that the bare placeholders of the further branches go to. -/
theorem Select.mem_slots {schema : Schema} {records : List (Option ColumnRecord)} {q : Select}
    {record : ColumnRecord} :
    (false, some record) ∈ q.slots schema records ↔
      ∃ b ∈ q.branches.tail, ∃ cell,
        (some record, cell) ∈ records.zip (b.cells schema (q.known schema)) ∧
          cell.isParameter = true := by
  have hbranch : ∀ b : Branch, some record ∈ b.writes schema (q.known schema) records ↔
      some record ∈ rowWrites records (b.cells schema (q.known schema)) := by
    intro b
    simp [Branch.writes]
  simp only [← mem_rowWrites, ← hbranch]
  unfold Select.slots
  cases q.branches with
  | nil => simp
  | cons first others => simp

/-! ## Branches that are written -/

namespace Branch

/-- A branch fits the columns that it is written into: where the type of a cell is known from the text,
it is compatible with that of the column. -/
def Fits (setting : Setting) (ctes : List (String × Level)) (records : List (Option ColumnRecord))
    (b : Branch) : Prop :=
  ∀ entry ∈ records.zip (b.cells setting.schema ctes), ∀ record ∈ entry.1,
    ∀ type ∈ entry.2.type? setting.profile ⟨b.level setting.schema ctes, []⟩,
      record.type.compatible type = true
deriving Decidable

/-- A branch may be left open: what is described of a placeholder of which nothing is known is true of
the columns that its bare placeholders are written into. -/
def MayBeOpen (setting : Setting) (ctes : List (String × Level)) (records : List (Option ColumnRecord))
    (b : Branch) : Prop :=
  ∀ entry ∈ records.zip (b.cells setting.schema ctes), entry.2.isParameter = true →
    ∀ record ∈ entry.1, record.type = setting.profile.textType ∧ record.notNull = false
deriving Decidable

end Branch

/-! ## The walk -/

/-- A walk over an INSERT of a query. -/
structure ReadInsert (setting : Setting) (table : String) (names : List String) (q : Select)
    (run : Run) where
  start : Run
  last : Run
  result : QueryResult
  read : ReadQuery setting (setting.schema.insertedColumns table names) start last q result
  known : ∀ u ∈ variablesOf start.constraints, u.id ≤ start.issued
  bare : start.vars = []
  made : List TypeVar
  tie : Constraint
  binds : last.Binds run (setting.schema.insertedColumns table names) (result.columns.map (·.var)) made
    tie
  marks : run.marks = marksOfCtes q.ctes ++
    (rowMarks (setting.schema.insertedColumns table names)
      (read.first.cells setting.schema (q.known setting.schema)) ++ read.first.marksBehind) ++
    marksOfUnion read.others ++ marksOfLimit q.limit

theorem exists_readInsert {setting : Setting} {table : String} {names : List String} {q : Select}
    (hq : q.Ungrouped) {done : Unit} {run : Run}
    (h : (inferInsert setting table names (.query q)).outcome .start = .ok (done, run)) :
    Nonempty (ReadInsert setting table names q run) := by
  obtain ⟨level, same, targets, htable, hfound, -, hrows⟩ := targets_of_insert h
  obtain ⟨result, last, hquery, hlength, hbind⟩ := hrows q rfl
  obtain ⟨hnone, columns, hcolumns, hlevel⟩ := declared_of_start htable
  have hdeclares := declares_targetColumns hcolumns hlevel hfound
  have hempty : ∀ id, Nothing id → id ≤ Run.start.issued := fun id hid => hid.elim
  obtain ⟨W, added, slots, hspans, hcount, hctes, -⟩ :=
    (Local.tableColumns setting.schema table none).spans .nil htable
  obtain rfl : slots = [] := List.eq_nil_of_length_eq_zero hcount
  obtain ⟨read⟩ := exists_readQuery hq (setting.schema.insertedColumns table names) hctes hquery
  have hcount : (result.columns.map fun c => (⟨c.var, c.placeholder⟩ : Written)).length =
      targets.length :=
    (List.length_map _).trans hlength
  obtain ⟨made, tie, hbinds⟩ := binds_of_bindRow hdeclares hcount hbind
  rw [List.map_map] at hbinds
  have hbounds : ∀ u ∈ variablesOf same.constraints, u.id ≤ same.issued := by
    rw [hspans.constraints]
    exact hspans.bounds hempty
  refine ⟨⟨same, last, result, read, hbounds, hspans.vars, made, tie, hbinds, ?_⟩⟩
  -- the query asks nothing of what it projects, the columns do
  have hmarks := (Leads.query setting [] q [] same result last hnone hquery).1
  have hplaces := read.places
  rw [hnone, List.nil_append] at hplaces
  rw [List.nil_append, q.marks_eq setting.schema hq.order read.branches] at hmarks
  have hvalues : result.columns.map (·.placeholder) =
      (result.columns.map fun c => (⟨c.var, c.placeholder⟩ : Written)).map (·.placeholder) := by
    rw [List.map_map]
    rfl
  rw [hvalues] at hplaces
  rw [(Leads.boundRow q.text hdeclares hplaces _ last _ run hmarks hbind).1]
  simp only [List.append_assoc]

namespace ReadInsert

variable {setting : Setting} {table : String} {names : List String} {q : Select} {run : Run}
  {solution : Solution}

/-- The constraints of the query stand between those of the table and the one that binds the row. -/
theorem constraints (w : ReadInsert setting table names q run) :
    run.constraints = w.start.constraints ++ (w.read.added ++ [w.tie]) := by
  rw [w.binds.constraints, w.read.spans.constraints, List.append_assoc]

/-- A free variable of the first branch is tied to its column. -/
theorem exists_tied (w : ReadInsert setting table names q run) {j : Nat} {cell : Cell} {v : TypeVar}
    {record : ColumnRecord} {info : TypeInfo}
    (hcell : (w.read.first.cells setting.schema (q.known setting.schema))[j]? = some cell)
    (hv : (w.result.columns.map (·.var))[j]? = some v)
    (hrecord : (setting.schema.insertedColumns table names)[j]? = some (some record))
    (hinfo : cell.info? setting.profile
      ⟨w.read.first.level setting.schema (q.known setting.schema), []⟩ = some info) :
    ∃ target, Tied run.constraints v target ∧ v.info = info ∧ target.info = .exact record.type := by
  have hvars : ∀ v ∈ w.result.columns.map (·.var), v.id ≤ w.last.issued := fun v hv =>
    (w.read.vars v hv).2
  have hbound := w.read.spans.bounds fun id (hid : Nothing id) => hid.elim
  obtain ⟨target, htied, hvinfo, htarget, hmade⟩ :=
    w.read.row.tied_behind w.binds hvars hbound hcell hv hrecord hinfo
  obtain ⟨-, hfrees⟩ := w.read.row.free_at hcell hv hinfo
  -- the table was read before either of them was made
  have hbefore : ∀ u ∈ variablesOf w.start.constraints, u.id ≠ v.id ∧ u.id ≠ target.id := by
    intro u hu
    have hold := w.known u hu
    exact ⟨Nat.ne_of_lt (Nat.lt_of_le_of_lt hold hfrees.1.1),
      Nat.ne_of_lt (Nat.lt_of_le_of_lt (Nat.le_trans hold w.read.spans.issued) hmade.1)⟩
  exact ⟨target, w.constraints ▸ htied.behind hbefore, hvinfo, htarget⟩

/-- Of a variable that the query has made, and that neither it nor its columns speak of, nothing is
found out. -/
theorem infoOf_of_left (w : ReadInsert setting table names q run)
    (hsolve : solve setting.profile run.constraints = .ok solution) {v : TypeVar}
    (hfrees : w.start.Frees w.last w.read.added v)
    (hvars : ∀ u ∈ w.result.columns.map (·.var), u.id ≠ v.id) : solution.infoOf v = v.info := by
  refine infoOf_of_not_mentioned hsolve ?_
  rintro ⟨u, hu, heq⟩
  rw [w.constraints, variablesOf_append, variablesOf_append] at hu
  rcases List.mem_append.1 hu with hu | hu
  · exact absurd (heq ▸ w.known u hu) (Nat.not_le.2 hfrees.1.1)
  rcases List.mem_append.1 hu with hu | hu
  · exact hfrees.2 u hu heq
  · unfold variablesOf at hu
    rw [List.flatMap_singleton] at hu
    rcases w.binds.speaks u hu with hu | hu
    · exact absurd hfrees.1.2 (Nat.not_le.2 (heq ▸ (w.binds.made u hu).1))
    · exact hvars u hu heq

/-- The types of the placeholders: the first branch takes those of its columns, of the others nothing is
known. -/
theorem types (w : ReadInsert setting table names q run) (hq : q.Ungrouped)
    (hsolve : solve setting.profile run.constraints = .ok solution) :
    List.Forall₂ (SlotWith (fun record v => solution.typeOf setting.profile v = record.type)
        fun v => solution.typeOf setting.profile v = setting.profile.textType)
      (q.slots setting.schema (setting.schema.insertedColumns table names)) run.vars := by
  have hvars : run.vars =
      w.read.before ++ (w.read.slots ++ w.read.behind) ++ w.read.rest ++ w.read.last := by
    rw [w.binds.collected, w.read.spans.vars, w.bare, List.nil_append]
  rw [hvars]
  refine slotsWith hq w.read.branches w.read.countBefore ?_ ?_ w.read.countLast
  · refine List.rel_append (w.read.row.slots_written ?_) ?_
    · intro j cell v record hcell hv hrecord hparameter
      obtain ⟨target, htied, hopen, hexact⟩ := w.exists_tied hcell hv hrecord (if_pos hparameter)
      have hpinned : Pinned (fun _ => True) run.constraints v record.type :=
        ⟨target, htied, hopen, hexact, trivial, trivial⟩
      unfold Solution.typeOf
      rw [infoOf_of_pinned hpinned hsolve]
    · exact forall₂_none w.read.countBehind.symm
  · refine w.read.left.imp fun written v hv record hrecord => ?_
    obtain ⟨hopen, hfrees, haway⟩ := hv record hrecord
    unfold Solution.typeOf
    rw [w.infoOf_of_left hsolve hfrees haway, hopen]

/-- The nullability of the placeholders: those of the first branch are asked as the columns are, the
others are not asked. -/
theorem asked (w : ReadInsert setting table names q run) (hq : q.Ungrouped) :
    List.Forall₂ (SlotWith (fun record mark => mark.notNull = record.notNull)
        fun mark => mark.notNull = false)
      (q.slots setting.schema (setting.schema.insertedColumns table names)) run.marks := by
  rw [w.marks]
  exact slotsWith hq w.read.branches rfl
    (List.rel_append (rowWrites_asked _ _) (asksAs_none rfl))
    (marksOfUnion_unasked setting.schema _ _ w.read.others) rfl

/-- A solution holds the first branch against the columns. -/
theorem fits (w : ReadInsert setting table names q run)
    (hsolve : solve setting.profile run.constraints = .ok solution) :
    w.read.first.Fits setting (q.known setting.schema) (setting.schema.insertedColumns table names) := by
  intro entry hentry record hrecord type htype
  -- the tie at the place of the entry equates the two types
  obtain ⟨j, hj⟩ := List.getElem?_of_mem hentry
  obtain ⟨hwritten, hcell⟩ := List.getElem?_zip_eq_some.1 hj
  rw [Option.mem_def.1 hrecord] at hwritten
  have hlength := w.read.row.length_eq ▸ (List.getElem?_eq_some_iff.1 hcell).1
  obtain ⟨target, htied, hexact, htarget⟩ := w.exists_tied hcell
    (List.getElem?_eq_getElem hlength) hwritten (Cell.info?_of_type? htype)
  obtain ⟨tie, alone, htie, halone, -⟩ := solve_of_tied htied hsolve
  exact compatible_of_tie htie hexact htarget htied.ne halone

end ReadInsert

/-! ## Descriptions -/

section

variable {setting : Setting} {table : String} {names : List String} {q : Select}

/-- The walk over an INSERT of a query. -/
theorem exists_readInsert_of_walk (hq : q.Ungrouped) {analysis : Analysis} {run : Run}
    (h : (inferStatement setting (.insert table names (.query q))).outcome .start =
      .ok (analysis, run)) : Nonempty (ReadInsert setting table names q run) :=
  exists_readInsert hq (walk_of_insert h).1

/-- In the description of an INSERT of a query the bare placeholders of the first branch are as the
columns, and those of the others as placeholders of which nothing is known. Of what the branches project
only the first one has been held against the columns. -/
theorem describe_insertedQuery (hq : q.Ungrouped) {d : Description}
    (h : describe setting (.insert table names (.query q)) = .ok d) :
    List.Forall₂ (SlotWith (fun record p => p.type = record.type ∧ p.notNull = record.notNull)
        fun p => p.type = setting.profile.textType ∧ p.notNull = false)
      (q.slots setting.schema (setting.schema.insertedColumns table names)) (d.data ++ d.parameters) ∧
    ∃ b, q.branches = b :: q.branches.tail ∧
      b.Fits setting (q.known setting.schema) (setting.schema.insertedColumns table names) := by
  obtain ⟨analysis, run, solution, hwalk, hsolve, hall⟩ := placeholders_of_described h
  obtain ⟨w⟩ := exists_readInsert_of_walk hq hwalk
  have htypes := w.types hq hsolve
  have hasked := w.asked hq
  unfold Run.vars at htypes
  unfold Run.marks at hasked
  rw [List.forall₂_map_right_iff] at htypes hasked
  refine ⟨?_, w.read.first, by rw [w.read.branches, List.tail_cons], w.fits hsolve⟩
  rw [hall]
  refine rel_zipIdx (fun slot p index hp record hrecord => ?_)
    (htypes.mp (fun slot p htype hask => And.intro htype hask) hasked) 0
  have htype := hp.1 record hrecord
  have hask := hp.2 record hrecord
  split at htype
  case isTrue hleads =>
    rw [if_pos hleads] at hask ⊢
    exact ⟨htype, hask⟩
  case isFalse hfurther =>
    rw [if_neg hfurther] at hask ⊢
    exact ⟨htype, hask⟩

/-- All of them are as the columns exactly if the further branches may be left open. -/
theorem takes_iff (hq : q.Ungrouped) {d : Description}
    (h : describe setting (.insert table names (.query q)) = .ok d) :
    List.Forall₂ Takes (q.writes setting.schema (setting.schema.insertedColumns table names))
        (d.data ++ d.parameters) ↔
      ∀ b ∈ q.branches.tail, b.MayBeOpen setting (q.known setting.schema)
        (setting.schema.insertedColumns table names) := by
  obtain ⟨hslots, -⟩ := describe_insertedQuery hq h
  rw [← q.slots_snd, List.forall₂_map_left_iff]
  constructor
  · rintro htakes b hb ⟨written, cell⟩ hentry hparameter record hrecord
    obtain rfl : written = some record := hrecord
    -- what is described of the placeholder is said of its column
    obtain ⟨p, -, hopen, htake⟩ := exists_partner (hslots.mp (fun _ _ => And.intro) htakes).flip
      (Select.mem_slots.2 ⟨b, hb, cell, hentry, hparameter⟩)
    obtain ⟨htype, hnotNull⟩ := htake record rfl
    obtain ⟨htype', hnotNull'⟩ := hopen record rfl
    exact ⟨htype ▸ htype', hnotNull ▸ hnotNull'⟩
  · intro hothers
    refine ((List.forall₂_and_left _ _).2 ⟨fun slot hslot => hslot, hslots⟩).imp ?_
    rintro ⟨leading, written⟩ p ⟨hmem, hp⟩ record hrecord
    obtain rfl : written = some record := hrecord
    have hp := hp record rfl
    cases leading with
    | true => exact hp
    | false =>
      obtain ⟨b, hb, cell, hentry, hparameter⟩ := Select.mem_slots.1 hmem
      obtain ⟨htype, hnotNull⟩ := hothers b hb _ hentry hparameter record rfl
      exact ⟨hp.1.trans htype.symm, hp.2.trans hnotNull.symm⟩

/-- An INSERT of a query binds every branch: each bare placeholder is described as the column that it is
written into, and if a branch does not fit the columns there is a clash. -/
structure BindsBranches (setting : Setting) (table : String) (names : List String) (q : Select) :
    Prop where
  takes : ∀ d, describe setting (.insert table names (.query q)) = .ok d →
    List.Forall₂ Takes (q.writes setting.schema (setting.schema.insertedColumns table names))
      (d.data ++ d.parameters)
  refuses : ∀ b ∈ q.branches,
    ¬ b.Fits setting (q.known setting.schema) (setting.schema.insertedColumns table names) →
      ∃ clash, describe setting (.insert table names (.query q)) = .error (.clash clash)

/-- An INSERT of a query in which nothing but the types may be wrong binds every branch exactly if it is
refused, or the further branches fit the columns and may be left open. So it does if the query has one
branch. -/
theorem bindsBranches_iff (hq : q.Ungrouped) {analysis : Analysis} {run : Run}
    (hwalk : (inferStatement setting (.insert table names (.query q))).outcome .start =
      .ok (analysis, run)) :
    BindsBranches setting table names q ↔
      ∀ d, describe setting (.insert table names (.query q)) = .ok d → ∀ b ∈ q.branches.tail,
        b.Fits setting (q.known setting.schema) (setting.schema.insertedColumns table names) ∧
        b.MayBeOpen setting (q.known setting.schema)
          (setting.schema.insertedColumns table names) := by
  constructor
  · intro hbinds d hd b hb
    refine ⟨?_, (takes_iff hq hd).1 (hbinds.takes d hd) b hb⟩
    by_contra hnot
    obtain ⟨clash, hclash⟩ := hbinds.refuses b (List.mem_of_mem_tail hb) hnot
    rw [hd] at hclash
    cases hclash
  · intro hothers
    refine ⟨fun d hd => (takes_iff hq hd).2 fun b hb => (hothers d hd b hb).2, fun b hb hnot => ?_⟩
    cases hd : describe setting (.insert table names (.query q)) with
    | error e =>
      obtain ⟨clash, rfl⟩ := clash_of_statement hwalk hd
      exact ⟨clash, rfl⟩
    | ok d =>
      -- the first branch has been held against the columns, the others fit them
      obtain ⟨-, first, hbranches, hfirst⟩ := describe_insertedQuery hq hd
      rw [hbranches] at hb
      rcases List.mem_cons.1 hb with rfl | hb
      · exact absurd hfirst hnot
      · exact absurd (hothers d hd b hb).1 hnot

end

/-- `SELECT (?), t.id FROM names AS t WHERE t.name = ? UNION SELECT ?, 1`. -/
def namesOfIds : Select :=
  ⟨[], [⟨false, [.expr (.paren (.parameter none)) none, .expr (.column ⟨some "t", "id"⟩) none],
      [.table "names" (some "t")], [],
      some (.compare .eq (.column ⟨some "t", "name"⟩) (.parameter none)), [], none⟩,
    ⟨false, [.expr (.parameter none) none, .expr (.literal (.int 1)) none], [], [], none, [], none⟩],
    [], none⟩

/-- The placeholder of the second branch is text like the names, and may be null as they may. -/
theorem bindsBranches_namesOfIds :
    (describe ⟨nameTable, .mysql⟩ (.insert "names" ["name", "id"] (.query namesOfIds))).isOk = true ∧
      BindsBranches ⟨nameTable, .mysql⟩ "names" ["name", "id"] namesOfIds := by
  have hd : (describe ⟨nameTable, .mysql⟩
      (.insert "names" ["name", "id"] (.query namesOfIds))).isOk = true := by decide +kernel
  have hq : namesOfIds.Ungrouped := by
    refine ⟨?_, rfl⟩
    simp only [namesOfIds, List.forall_mem_cons]
    exact ⟨⟨rfl, rfl⟩, ⟨rfl, rfl⟩, nofun⟩
  have hothers : ∀ b ∈ namesOfIds.branches.tail,
      b.Fits ⟨nameTable, .mysql⟩ (namesOfIds.known nameTable)
          (nameTable.insertedColumns "names" ["name", "id"]) ∧
        b.MayBeOpen ⟨nameTable, .mysql⟩ (namesOfIds.known nameTable)
          (nameTable.insertedColumns "names" ["name", "id"]) := by decide +kernel
  obtain ⟨d, hd'⟩ := exists_of_isOk hd
  obtain ⟨analysis, run, -, hwalk, -⟩ := placeholders_of_described hd'
  exact ⟨hd, (bindsBranches_iff hq hwalk).2 fun _ _ => hothers⟩

/-- `SELECT id FROM names UNION SELECT ?`. -/
def idsOrGiven : Select :=
  ⟨[], [⟨false, [.expr (.column ⟨none, "id"⟩) none], [.table "names" none], [], none, [], none⟩,
    ⟨false, [.expr (.parameter none) none], [], [], none, [], none⟩], [], none⟩

/-- `SELECT id FROM names UNION SELECT name FROM names`. -/
def idsOrNames : Select :=
  ⟨[], [⟨false, [.expr (.column ⟨none, "id"⟩) none], [.table "names" none], [], none, [], none⟩,
    ⟨false, [.expr (.column ⟨none, "name"⟩) none], [.table "names" none], [], none, [], none⟩], [], none⟩

/-- The placeholder of a second branch is described as text that may be null, though it is written into
a key, and the names of a second branch are not held against the key. -/
theorem further_branch_unbound :
    ¬ BindsBranches ⟨nameTable, .mysql⟩ "names" ["id"] idsOrGiven ∧
      ¬ BindsBranches ⟨nameTable, .mysql⟩ "names" ["id"] idsOrNames := by
  constructor
  · intro hbinds
    have hd : (describe ⟨nameTable, .mysql⟩ (.insert "names" ["id"] (.query idsOrGiven))).isOk = true :=
      by decide +kernel
    have hreported :
        (describe ⟨nameTable, .mysql⟩ (.insert "names" ["id"] (.query idsOrGiven))).toOption.map
          (fun d => (d.data ++ d.parameters).map (·.type)) = some [.varchar] := by decide +kernel
    have hwrites : idsOrGiven.writes nameTable (nameTable.insertedColumns "names" ["id"]) =
        [some ⟨"names", "id", .int, .primary, true⟩] := by decide +kernel
    obtain ⟨d, hd⟩ := exists_of_isOk hd
    rw [hd] at hreported
    obtain ⟨p, hp, htake⟩ := exists_partner (hwrites ▸ hbinds.takes d hd).flip List.mem_cons_self
    have htype : p.type ∈ [SqlType.varchar] := Option.some.inj hreported ▸ List.mem_map_of_mem hp
    rw [(htake _ rfl).1] at htype
    revert htype
    decide
  · intro hbinds
    have hd : (describe ⟨nameTable, .mysql⟩ (.insert "names" ["id"] (.query idsOrNames))).isOk = true :=
      by decide +kernel
    obtain ⟨clash, hclash⟩ := hbinds.refuses
      ⟨false, [.expr (.column ⟨none, "name"⟩) none], [.table "names" none], [], none, [], none⟩
      (List.mem_cons_of_mem _ List.mem_cons_self) (by decide +kernel)
    rw [hclash] at hd
    cases hd

end QuerySignature
