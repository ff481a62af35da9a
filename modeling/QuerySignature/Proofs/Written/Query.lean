import QuerySignature.Proofs.Written.Projected

namespace QuerySignature

/-! # The walk over a query that is written

Nothing but the row of a branch speaks of its placeholders, its literals and the columns of tables in it,
as long as there is no GROUP BY and no HAVING, which see the projected columns: the criteria see the
columns of the FROM clause alone, and the branches do not see one another.

Of the branches of a query only the first one hands its variables on: the columns of the query have the
variables of its row, and what it reads is what a LIMIT sees. The rows of the other branches are never
spoken of again.

- `exists_readBranch`: the walk over a branch.
- `reads_of_union`: the walk over some branches, whose bare placeholders are left open.
- `Select.writes`: the placeholders of a query, each with the column that it is projected at the place
  of.
- `exists_readQuery`: the walk over a query.
-/

/-! ## Branches as rows -/

/-- A walk over a branch. What may be spoken of behind it are the columns of its FROM clause, by the
numbers `seen`; the free variables of its row are not among them. -/
structure ReadBranch (setting : Setting) (known : List (String × Level)) (V : Nat → Prop) (r s : Run)
    (b : Branch) (result : BranchResult) where
  seen : Nat → Prop
  added : List Constraint
  slots : List TypeVar
  behind : List TypeVar
  spans : r.Spans V s added (slots ++ behind)
  keeps : ∀ id, V id → seen id
  made : ∀ id, seen id → V id ∨ r.Makes s id
  visible : Level.Shown seen (b.level setting.schema known) result.visible
  vars : ∀ v ∈ result.columns.map (·.var), V v.id ∨ r.Makes s v.id
  row : FreeRow (Cell.info? setting.profile ⟨b.level setting.schema known, []⟩)
    (fun v => r.Frees s added v ∧ ¬ seen v.id) (b.cells setting.schema known)
    (result.columns.map (·.var)) slots
  count : behind.length = b.marksBehind.length
  places : PlacedRow r.marks.length (b.cells setting.schema known)
    (result.columns.map (·.placeholder))
  ctes : s.ctes = r.ctes

section

variable {setting : Setting} {V : Nat → Prop} {known : List (String × Level)} {r s : Run}

/-- The parts of a branch: what its FROM clause collects is put back behind its items. -/
theorem parts_of_branch {b : Branch} (hb : b.Ungrouped) {result : BranchResult}
    (hrun : (inferBranch setting [] b).outcome r = .ok (result, s)) :
    ∃ joined read cs mid found,
      (inferFrom setting [] b).outcome r = .ok (joined, read) ∧
      (inferItems setting ⟨joined.columns, []⟩ b.items).outcome { read with
        placeholders := read.placeholders.take r.placeholders.length } = .ok (cs, mid) ∧
      (inferSome setting ⟨joined.columns, []⟩ b.criteria).outcome { mid with
        placeholders := mid.placeholders ++ read.placeholders.drop r.placeholders.length } =
        .ok (found, s) ∧
      result = b.result [] (joined, cs) := by
  obtain ⟨⟨joined, columns⟩, rf, group, rg, having, hfront, hgroup, hhaving, rfl⟩ :=
    clauses_of_branch hrun
  obtain ⟨listed, r₁, r₂, r₃, found, hlisted, hjoined, hitems, hcriteria⟩ := clauses_of_front hfront
  rw [hb.group] at hgroup
  cases hgroup
  rw [hb.having] at hhaving
  cases hhaving
  refine ⟨joined, r₂, columns, r₃, found, ?_, hitems, hcriteria, rfl⟩
  unfold inferFrom
  rw [Analyze.outcome_bind, hlisted, ok_bind]
  exact hjoined

/-- The FROM clause of a branch. -/
theorem Local.fromClause (setting : Setting) (b : Branch) :
    Local V known (inferFrom setting [] b)
      (pinsOfSources setting.schema known b.sources ++
        pinsOfJoins setting.schema known [] (listedLevel setting.schema known [] b.sources) b.joins)
      fun W joined => Level.Shown W (b.level setting.schema known) joined.columns :=
  (sourceList setting b.sources (.nil : Level.Shown V [] Sources.empty.columns)).bind
    fun _ _ _ hlisted => joinList setting b.joins .nil hlisted _

theorem Leads.fromClause (setting : Setting) (b : Branch) (m : List Mark) :
    Leads m (inferFrom setting [] b) (m ++ marksOfSources b.sources ++ marksOfJoins b.joins)
      fun _ => True :=
  (sourceList setting .empty b.sources m).bind fun _ _ => joinList setting [] _ _ b.joins _

/-- What is shown that a column is not null changes nothing else of it. -/
theorem map_branchResult {α : Type} {f : OutputColumn → α} (hf : ∀ c n, f { c with notNull := n } = f c)
    (b : Branch) (joined : Sources) (columns : List OutputColumn) :
    (b.result [] (joined, columns)).columns.map f = columns.map f :=
  map_proveColumns hf _ _ columns

/-- As many placeholders stand behind the items as the other clauses collect. -/
theorem length_marksBehind {b : Branch} (hb : b.Ungrouped) (schema : Schema)
    (known : List (String × Level)) :
    b.marksBehind.length = (pinsOfSources schema known b.sources ++
        pinsOfJoins schema known [] (listedLevel schema known [] b.sources) b.joins).length +
      (pinsOfSome schema known ⟨b.level schema known, []⟩ b.criteria).length := by
  have hfrom := (asks_sources schema known b.sources).length_eq
  have hjoins := (asks_joins schema known [] (listedLevel schema known [] b.sources) b.joins).length_eq
  have hcount := (asks_some schema known ⟨b.level schema known, []⟩ b.criteria).length_eq
  unfold Branch.marksBehind
  rw [hb.group, hb.having, marksOfAll, marksOfSome, List.append_nil, List.append_nil]
  simp only [List.length_append]
  rw [hfrom, hjoins, hcount]

/-- The numbers in the row of a branch: what the FROM clause has collected is cut off before it. -/
theorem placed_of_branch {b : Branch} {joined : Sources} {read : Run}
    (hfrom : (inferFrom setting [] b).outcome r = .ok (joined, read))
    (hlevel : Level.Shown V (b.level setting.schema known) joined.columns) {columns : List OutputColumn}
    (hitems : (inferItems setting ⟨joined.columns, []⟩ b.items).outcome { read with
      placeholders := read.placeholders.take r.placeholders.length } = .ok (columns, s)) :
    PlacedRow r.marks.length (b.cells setting.schema known) (columns.map (·.placeholder)) := by
  have hmarks := (Leads.fromClause setting b r.marks r joined read rfl hfrom).1
  rw [List.append_assoc] at hmarks
  have hplaced := placed_of_items hlevel hitems
  unfold Run.marks at hplaced
  rwa [(map_cut hmarks).1] at hplaced

/-- The walk over a branch. -/
theorem exists_readBranch {b : Branch} (hb : b.Ungrouped) (hV : ∀ id, V id → id ≤ r.issued)
    (hknown : TablesShown V known r.ctes) {result : BranchResult}
    (hrun : (inferBranch setting [] b).outcome r = .ok (result, s)) :
    Nonempty (ReadBranch setting known V r s b result) := by
  obtain ⟨joined, r₂, columns, r₃, _, hfrom, hitems, hcriteria, rfl⟩ := parts_of_branch hb hrun
  obtain ⟨W, front, later, hspans, hlater, hctes, hkeeps, hmade, hlevel⟩ :=
    (Local.fromClause setting b).spans hknown hfrom
  have hW := hspans.live_bounds hV hmade
  have hs : Scope.Shown W ⟨b.level setting.schema known, []⟩ ⟨joined.columns, []⟩ := ⟨hlevel, .nil⟩
  have hknown' : TablesShown W known r₂.ctes := hctes ▸ hknown.mono hkeeps
  obtain ⟨own, slots, hrow⟩ := readsRow_of_items hs hW (r := { r₂ with
    placeholders := r₂.placeholders.take r.placeholders.length }) hknown' hitems
  -- the criteria speak of the columns of the FROM clause as the items do, and not of the items
  have hgrown : ∀ id, W id → V id ∨ r.Makes r₃ id := fun id hid =>
    (hmade id hid).imp_right fun hnew => hnew.before hrow.spans.issued
  obtain ⟨X, last, found, hspans', hfound, hctes', -⟩ :=
    (Local.option setting b.criteria hs).spans (r := { r₃ with
      placeholders := r₃.placeholders ++ r₂.placeholders.drop r.placeholders.length })
      (hrow.ctes ▸ hknown') hcriteria
  have hall := (hspans.aside hmade hrow.spans).trans hgrown hspans'
  have hseen : ∀ id, W id → V id ∨ r.Makes s id := fun id hid =>
    (hgrown id hid).imp_right fun hnew => hnew.before hspans'.issued
  have hvars := map_branchResult (f := (·.var)) (fun _ _ => rfl) b joined columns
  have hplaces := map_branchResult (f := (·.placeholder)) (fun _ _ => rfl) b joined columns
  refine ⟨⟨W, front ++ own ++ last, slots, later ++ found, ?_, hkeeps, hseen, hlevel, ?_, ?_, ?_, ?_,
    hctes'.trans (hrow.ctes.trans hctes)⟩⟩
  · rwa [List.append_assoc slots] at hall
  · rw [hvars]
    intro v hv
    rcases hrow.known v hv with hlive | hnew
    · exact hseen _ hlive
    · exact .inr ((hnew.behind hspans.issued).before hspans'.issued)
  · rw [hvars]
    refine hrow.row.mono fun v hfrees => ?_
    have hnot := hfrees.1.not_given hW
    have hfrees' := hfrees.behind hspans.issued (hspans.bounds hV)
    exact ⟨Run.Frees.before (s := { r₃ with
      placeholders := r₃.placeholders ++ r₂.placeholders.drop r.placeholders.length }) hfrees' hnot
      hspans', hnot⟩
  · rw [List.length_append, hlater, hfound, length_marksBehind hb setting.schema known]
  · rw [hplaces]
    exact placed_of_branch hfrom hlevel hitems

/-- The walk over some branches: their bare placeholders are left open. -/
theorem reads_of_union (records : List (Option ColumnRecord)) {bs : List Branch}
    (hbs : ∀ b ∈ bs, b.Ungrouped) (hV : ∀ id, V id → id ≤ r.issued)
    (hknown : TablesShown V known r.ctes) {results : List BranchResult}
    (hrun : (inferUnion setting [] bs).outcome r = .ok (results, s)) :
    ∃ added slots, r.Spans V s added slots ∧ s.ctes = r.ctes ∧
      List.Forall₂ (fun written v => ∀ record, written = some record →
        v.info = .unknown ∧ r.Frees s added v)
        (bs.flatMap (Branch.writes setting.schema known records)) slots := by
  induction bs generalizing r results with
  | nil =>
    unfold inferUnion at hrun
    cases hrun
    exact ⟨[], [], .refl V r, rfl, .nil⟩
  | cons b rest ih =>
    obtain ⟨hb, hrest⟩ := List.forall_mem_cons.1 hbs
    obtain ⟨result, r₁, others, hbranch, hothers, rfl⟩ := branches_of_union hrun
    obtain ⟨read⟩ := exists_readBranch hb hV hknown hbranch
    have hV' : ∀ id, V id → id ≤ r₁.issued := fun id hid =>
      Nat.le_trans (hV id hid) read.spans.issued
    obtain ⟨later, last, hspans, hctes, hopen⟩ := ih hrest hV' (read.ctes ▸ hknown) hothers
    refine ⟨_, _, read.spans.trans (fun _ => .inl) hspans, hctes.trans read.ctes, ?_⟩
    rw [List.flatMap_cons]
    refine List.rel_append (List.rel_append ?_ ?_) ?_
    -- the next branches are given no more than this one was
    · refine read.row.slots_written fun j cell v record hcell hv _ hparameter => ?_
      obtain ⟨hinfo, hfrees, -⟩ := read.row.free_at hcell hv (if_pos hparameter)
      exact ⟨hinfo, hfrees.before (hfrees.1.not_given hV) hspans⟩
    · exact forall₂_none read.count.symm
    · exact hopen.imp fun written v hv record hrecord => ⟨(hv record hrecord).1,
        (hv record hrecord).2.behind read.spans.issued (read.spans.bounds hV)⟩

end

/-! ## Rows of queries -/

/-- A query has neither GROUP BY nor HAVING in any branch, and no ORDER BY. -/
structure Select.Ungrouped (q : Select) : Prop where
  branches : ∀ b ∈ q.branches, b.Ungrouped
  order : q.order = []

namespace Select

/-- The common tables of a query. -/
def known (schema : Schema) (q : Select) : List (String × Level) := knownWith schema [] q.ctes

/-- The placeholders of a query, each with the column that it goes to if what the branches project goes
to some, place by place. -/
def writes (schema : Schema) (records : List (Option ColumnRecord)) (q : Select) :
    List (Option ColumnRecord) :=
  (marksOfCtes q.ctes).map (fun _ => none) ++
    q.branches.flatMap (Branch.writes schema (q.known schema) records) ++
    (marksOfOrder q.order ++ marksOfLimit q.limit).map fun _ => none

theorem marks_eq (schema : Schema) {q : Select} (horder : q.order = []) {first : Branch}
    {others : List Branch} (hbranches : q.branches = first :: others) :
    q.marks = marksOfCtes q.ctes ++
      (first.cells schema (q.known schema)).flatMap (Cell.marks false) ++
      (first.marksBehind ++ marksOfUnion others ++ marksOfLimit q.limit) := by
  rcases q with ⟨ctes, branches, order, limit⟩
  obtain rfl : order = [] := horder
  obtain rfl : branches = first :: others := hbranches
  rw [Select.marks, marksOfUnion, marksOfOrder, List.append_nil,
    first.marks_eq schema (known schema ⟨ctes, first :: others, [], limit⟩)]
  simp only [List.append_assoc]

end Select

/-! ## The walk -/

/-- The parts of a query without ORDER BY, first of all its first branch. -/
theorem parts_of_query {setting : Setting} {q : Select} (horder : q.order = []) {r t : Run}
    {result : QueryResult} (hrun : (inferQuery setting [] q).outcome r = .ok (result, t)) :
    ∃ b rest head others r₁ r₂ r₃ r₄, q.branches = b :: rest ∧
      (inferCtes setting [] q.ctes).outcome r = .ok ((), r₁) ∧
      (inferBranch setting [] b).outcome r₁ = .ok (head, r₂) ∧
      (inferUnion setting [] rest).outcome r₂ = .ok (others, r₃) ∧
      unionColumns head.columns others = .ok result.columns ∧
      (inferLimit setting ⟨head.visible, []⟩ q.limit).outcome r₃ = .ok ((), r₄) ∧
      t = { r₄ with ctes := r.ctes } := by
  obtain ⟨r₁, results, r₃, head, ro, r₄, hcommon, hunion, hhead, hnone, hlimit, rfl, rfl⟩ :=
    clauses_of_query hrun
  rw [horder] at hnone
  cases hnone
  obtain ⟨others, rfl, hcolumns⟩ := exists_of_unionOf hhead
  cases hbranches : q.branches with
  | nil =>
    rw [hbranches] at hunion
    cases hunion
  | cons b rest =>
    rw [hbranches] at hunion
    obtain ⟨first, r₂, others', hbranch, hrest, heq⟩ := branches_of_union hunion
    obtain ⟨rfl, rfl⟩ := List.cons.inj heq
    exact ⟨b, rest, head.1, others, r₁, r₂, r₃, r₄, rfl, hcommon, hbranch, hrest, hcolumns, hlimit, rfl⟩

/-- A walk over a query: the row of the first branch is that of the query, and the placeholders in the
rows of the others are left open. -/
structure ReadQuery (setting : Setting) (records : List (Option ColumnRecord)) (r t : Run) (q : Select)
    (result : QueryResult) where
  first : Branch
  others : List Branch
  branches : q.branches = first :: others
  added : List Constraint
  before : List TypeVar
  slots : List TypeVar
  behind : List TypeVar
  rest : List TypeVar
  last : List TypeVar
  spans : r.Spans Nothing t added (before ++ (slots ++ behind) ++ rest ++ last)
  vars : ∀ v ∈ result.columns.map (·.var), r.Makes t v.id
  row : FreeRow (Cell.info? setting.profile ⟨first.level setting.schema (q.known setting.schema), []⟩)
    (r.Frees t added) (first.cells setting.schema (q.known setting.schema))
    (result.columns.map (·.var)) slots
  left : List.Forall₂ (fun written v => ∀ record, written = some record →
    v.info = .unknown ∧ r.Frees t added v ∧ ∀ u ∈ result.columns.map (·.var), u.id ≠ v.id)
    (others.flatMap (Branch.writes setting.schema (q.known setting.schema) records)) rest
  places : PlacedRow (r.marks ++ marksOfCtes q.ctes).length
    (first.cells setting.schema (q.known setting.schema)) (result.columns.map (·.placeholder))
  countBefore : before.length = (marksOfCtes q.ctes).length
  countBehind : behind.length = first.marksBehind.length
  countLast : last.length = (marksOfLimit q.limit).length

/-- The walk over a query. -/
theorem exists_readQuery {setting : Setting} {q : Select} (hq : q.Ungrouped)
    (records : List (Option ColumnRecord)) {r t : Run} (hctes : r.ctes = []) {result : QueryResult}
    (hrun : (inferQuery setting [] q).outcome r = .ok (result, t)) :
    Nonempty (ReadQuery setting records r t q result) := by
  obtain ⟨b, rest, head, others, r₁, r₂, r₃, r₄, hbranches, hcommon, hbranch, hrest, hcolumns, hlimit,
    rfl⟩ := parts_of_query hq.order hrun
  obtain ⟨hb, hbs⟩ := List.forall_mem_cons.1 (hbranches ▸ hq.branches)
  have hempty : ∀ id, Nothing id → id ≤ r.issued := fun id hid => hid.elim
  -- the common tables
  have hnone : TablesShown Nothing [] r.ctes := by
    rw [hctes]
    exact .nil
  obtain ⟨W, hcollects, hknown⟩ :=
    Local.commonTables setting q.ctes (.nil : LevelsShown Nothing [] []) hnone hcommon
  obtain ⟨added₀, before, hspans₀, hbefore⟩ := hcollects.spans
  have hW := hcollects.bounds hempty
  -- the first branch, and the others, which do not see it
  obtain ⟨read⟩ := exists_readBranch hb hW hknown hbranch
  have hW' : ∀ id, W id → id ≤ r₂.issued := fun id hid => Nat.le_trans (hW id hid) read.spans.issued
  obtain ⟨added₂, slots₂, hspans₂, hctes₂, hleft⟩ :=
    reads_of_union records hbs hW' (read.ctes ▸ hknown) hrest
  -- the limit, which sees the FROM clause of the first branch
  have hseen := read.spans.live_bounds hW read.made
  have hs : Scope.Shown read.seen ⟨b.level setting.schema (q.known setting.schema), []⟩
      ⟨head.visible, []⟩ := ⟨read.visible, .nil⟩
  have hknown' : TablesShown read.seen (q.known setting.schema) r₃.ctes :=
    (hctes₂.trans read.ctes) ▸ hknown.mono read.keeps
  obtain ⟨X, added₃, slots₃, hspans₃, hlast, -⟩ := (Local.limitTo setting q.limit hs).spans
    hknown' hlimit
  -- all of it
  have hfront := hspans₀.trans hcollects.made read.spans
  have hmade : ∀ id, W id ∨ r₁.Makes r₂ id → r.Makes r₂ id := by
    rintro id (hlive | hnew)
    · rcases hcollects.made id hlive with hnothing | hnew
      · exact hnothing.elim
      · exact hnew.before read.spans.issued
    · exact hnew.behind hspans₀.issued
  have hunited := hfront.trans (fun id hlive => .inr (hmade id (.inl hlive))) hspans₂
  have hall := hunited.trans
    (fun id hid => .inr ((hmade id (read.made id hid)).before hspans₂.issued)) hspans₃
  have hvars : result.columns.map (·.var) = head.columns.map (·.var) :=
    map_unionColumns (fun _ _ => rfl) hcolumns
  have hplaces : result.columns.map (·.placeholder) = head.columns.map (·.placeholder) :=
    map_unionColumns (fun _ _ => rfl) hcolumns
  refine ⟨⟨b, rest, hbranches, _, before, read.slots, read.behind, slots₂, slots₃,
    ⟨hall.issued, hall.constraints, hall.within, hall.vars, hall.made⟩, ?_, ?_, ?_, ?_, ?_,
    read.count, ?_⟩⟩
  · rw [hvars]
    intro v hv
    exact ((hmade _ (read.vars v hv)).before hspans₂.issued).before hspans₃.issued
  · rw [hvars]
    refine read.row.mono fun v ⟨hfrees, hnot⟩ => ?_
    have hfrees₀ := hfrees.behind hspans₀.issued (hspans₀.bounds hempty)
    have hfrees₂ := hfrees₀.before (fun hlive => hnot (read.keeps _ hlive)) hspans₂
    exact Run.Frees.before (t := r₄) hfrees₂ hnot hspans₃
  · refine hleft.imp fun written v hv record hrecord => ?_
    obtain ⟨hinfo, hfrees⟩ := hv record hrecord
    have hfrees₁ := hfrees.behind hfront.issued (hfront.bounds hempty)
    refine ⟨hinfo, Run.Frees.before (t := r₄) hfrees₁ (hfrees.1.not_given hseen) hspans₃, fun u hu => ?_⟩
    rw [hvars] at hu
    exact Nat.ne_of_lt (Nat.lt_of_le_of_lt (hmade _ (read.vars u hu)).2 hfrees.1.1)
  · rw [hplaces, ← (Leads.tables setting [] q.ctes r.marks r _ r₁ rfl hcommon).1]
    exact read.places
  · rw [hbefore]
    exact (asks_ctes setting.schema [] [] q.ctes).length_eq
  · rw [hlast]
    exact (asks_limit setting.schema _ _ q.limit).length_eq

end QuerySignature
