import QuerySignature.Proofs.Behind.Union

namespace QuerySignature

/-! # Items beside one another

An item of a projection refers to the columns of tables without being tied to them. So it is described
from the FROM clause and the criteria of its query alone, whatever else is projected.

- `Run.Sound.listTables`, `Run.Sound.joinTables`: the columns of tables are the same wherever they
  stand.
- `exists_items`: what a walk over items gives is what each item gives alone.
- `describe_items`: the columns of a query of tables are those of its items.
-/

/-- The branch with other items in its projection. -/
def Branch.projecting (b : Branch) (items : List Item) : Branch := { b with items }

/-- All sources of a branch are tables. -/
structure Branch.ReadsTables (b : Branch) : Prop where
  listed : ∀ x ∈ b.sources, x.query? = none
  joined : ∀ j ∈ b.joins, j.source.query? = none

/-- A branch without GROUP BY and HAVING, in parts. -/
theorem outcome_ungrouped (setting : Setting) {b : Branch} (hgroup : b.group = [])
    (hhaving : b.having = none) :
    (inferBranch setting [] b).outcome .start =
      ((inferFrom setting [] b).outcome .start).bind fun joined =>
      ((inferItems setting ⟨joined.1.columns, []⟩ b.items).outcome
        { joined.2 with placeholders := [] }).bind fun items =>
      ((inferSome setting ⟨joined.1.columns, []⟩ b.criteria).outcome { items.2 with
        placeholders := items.2.placeholders ++ joined.2.placeholders }).bind fun criteria =>
        .ok (b.result [] (joined.1, items.1), criteria.2) := by
  rw [outcome_inferBranch, outcome_inferFront, hgroup, hhaving]
  unfold inferFrom
  simp only [Analyze.outcome_bind, bind_bind]
  rfl

theorem ungrouped_eq_ok_iff {setting : Setting} {b : Branch} (hgroup : b.group = [])
    (hhaving : b.having = none) {result : BranchResult} {run : Run} :
    (inferBranch setting [] b).outcome .start = .ok (result, run) ↔ ∃ joined read cs mid found,
      (inferFrom setting [] b).outcome .start = .ok (joined, read) ∧
      (inferItems setting ⟨joined.columns, []⟩ b.items).outcome { read with placeholders := [] } =
        .ok (cs, mid) ∧
      (inferSome setting ⟨joined.columns, []⟩ b.criteria).outcome { mid with
        placeholders := mid.placeholders ++ read.placeholders } = .ok (found, run) ∧
      result = b.result [] (joined, cs) := by
  rw [outcome_ungrouped setting hgroup hhaving]
  constructor
  · intro h
    rcases bind_eq_ok.1 h with ⟨⟨joined, read⟩, hfrom, h⟩
    rcases bind_eq_ok.1 h with ⟨⟨cs, mid⟩, hitems, h⟩
    rcases bind_eq_ok.1 h with ⟨⟨found, last⟩, hcriteria, h⟩
    cases h
    exact ⟨joined, read, cs, mid, found, hfrom, hitems, hcriteria, rfl⟩
  · rintro ⟨joined, read, cs, mid, found, hfrom, hitems, hcriteria, rfl⟩
    simp only [hfrom, ok_bind, hitems, hcriteria]

theorem outcome_inferItems_one (setting : Setting) (scope : Scope) (item : Item) (r : Run) :
    (inferItems setting scope [item]).outcome r = (inferItem setting scope item).outcome r := by
  rw [outcome_inferItems_cons]
  cases (inferItem setting scope item).outcome r with
  | error e => rfl
  | ok p =>
    show Except.ok (p.1 ++ [], p.2) = _
    rw [List.append_nil]

section

variable {setting : Setting}

/-! ## Columns of tables -/

theorem behind_of_freshColumns {aliasName : String} {records : List ColumnRecord} {r s : Run}
    {l : Level} (h : (freshColumns aliasName records).outcome r = .ok (l, s)) (n : Nat) :
    Level.Behind n l l := by
  have hall := rel_freshColumns (R := fun _ c => c.var.projected = false) (fun _ _ _ hplain => hplain) h
  refine List.forall₂_same.2 fun c hc => ?_
  obtain ⟨record, -, hplain⟩ := exists_partner hall hc
  exact .of_table n hplain

/-- Where there are no common tables, the columns of a table are the same wherever they stand. -/
theorem behind_of_table {x : Source} (hx : x.query? = none) {r s : Run} {l : Level}
    (hctes : r.ctes = []) (h : (inferSource setting x).outcome r = .ok (l, s)) (n : Nat) :
    Level.Behind n l l := by
  cases x with
  | derived q aliasName => cases hx
  | table name aliasName =>
    unfold inferSource at h
    obtain ⟨records, -, hfresh⟩ := records_of_table (Run.cte?_of_nil hctes _) h
    exact behind_of_freshColumns hfresh n

namespace Run.Sound

variable {made : List TypeInfo} {r s : Run} {done : Sources}

theorem listTables (h : r.Sound made) (hctes : r.ctes = []) (hmade : done.Matches .none made done)
    (hdone : ∀ n, done.Behind n done) {xs : List Source} (hxs : ∀ x ∈ xs, x.query? = none)
    {listed : Sources} (hs : (inferSources setting done xs).outcome r = .ok (listed, s)) (n : Nat) :
    listed.Behind n listed := by
  induction xs generalizing made r done with
  | nil =>
    cases hs
    exact hdone n
  | cons x rest ih =>
    obtain ⟨level, t, made₁, hsource, hs, -, hsound₁, hctes₁, hadded⟩ := h.listStep hmade hs
    -- a source leaves no common table behind that would hide the next one
    have hlevel := behind_of_table (hxs x List.mem_cons_self) hctes hsource
    exact ih hsound₁ (hctes₁.trans hctes) hadded (fun n => (hdone n).add x (hlevel n))
      (fun y hy => hxs y (List.mem_cons_of_mem _ hy)) hs

/-- The conditions of joins may hold queries, but these keep the common tables of the run. -/
theorem joinTables (h : r.Sound made) (hctes : r.ctes = []) (hmade : done.Matches .none made done)
    (hdone : ∀ n, done.Behind n done) {js : List Join} (hjs : ∀ j ∈ js, j.source.query? = none)
    {previous : String} {joined : Sources}
    (hs : (inferJoins setting [] done previous js).outcome r = .ok (joined, s)) (n : Nat) :
    joined.Behind n joined := by
  induction js generalizing made r done previous with
  | nil =>
    cases hs
    exact hdone n
  | cons j rest ih =>
    obtain ⟨level, t, u, made₁, hsource, -, hs, -, hsound₁, hctes₁, hjoined⟩ :=
      h.joinStep nothing_outer hmade hs
    have hlevel := behind_of_table (hjs j List.mem_cons_self) hctes hsource
    exact ih hsound₁ (hctes₁.trans hctes) hjoined
      (fun n => (hdone n).join [] [] previous j.kind j.source j.condition (hlevel n))
      (fun k hk => hjs k (List.mem_cons_of_mem _ hk)) hs

end Run.Sound

/-- What a branch leaves when it has read its tables. -/
structure TablesRead (made : List TypeInfo) (joined : Sources) (run : Run) : Prop where
  sound : run.Sound made
  ctes : run.ctes = []
  issued : joined.columns.Issued made
  behind : ∀ n, joined.Behind n joined

namespace TablesRead

variable {made : List TypeInfo} {joined : Sources} {run : Run}

theorem scopeBehind (h : TablesRead made joined run) (n : Nat) :
    Scope.Behind n ⟨joined.columns, []⟩ ⟨joined.columns, []⟩ :=
  ⟨h.behind n, .nil⟩

theorem scopeMade (h : TablesRead made joined run) :
    Scope.Matches .none made ⟨joined.columns, []⟩ ⟨joined.columns, []⟩ :=
  .beside h.issued nothing_outer

end TablesRead

theorem exists_tablesRead {b : Branch} (hb : b.ReadsTables) {joined : Sources} {run : Run}
    (h : (inferFrom setting [] b).outcome .start = .ok (joined, run)) :
    ∃ made, TablesRead made joined run := by
  unfold inferFrom at h
  rw [Analyze.outcome_bind] at h
  rcases bind_eq_ok.1 h with ⟨⟨listed, rs⟩, hsources, hjoins⟩
  rcases Run.Sound.start.sources (.empty []) hsources with ⟨made₁, -, hsound₁, -, hctes₁, hlisted⟩
  rcases hsound₁.joins nothing_outer hlisted hjoins with ⟨made₂, -, hsound₂, -, hctes₂, hjoined⟩
  have hempty : ∀ n, Sources.Behind n .empty .empty := fun _ => List.Forall₂.nil
  have hlistedBehind := Run.Sound.start.listTables rfl (.empty []) hempty hb.listed hsources
  exact ⟨made₂, hsound₂, hctes₂.trans hctes₁, hjoined.issued,
    hsound₁.joinTables hctes₁ hlisted hlistedBehind hb.joined hjoins⟩

/-! ## Items from columns of tables -/

/-- A step that alone ends in a run that can be solved. -/
def Analyze.Ends {α : Type} (step : Analyze α) (profile : Profile) (a : α) (solution : Solution) :
    Prop :=
  ∃ run, step.outcome .start = .ok (a, run) ∧ solve profile run.constraints = .ok solution

/-- What an item is described as when nothing is analysed but the item. -/
def ItemDescribed (setting : Setting) (scope : Scope) (criteria : Option Expr) (item : Item)
    (columns : List ResultColumn) : Prop :=
  ∃ cs solution, (inferItem setting scope item).Ends setting.profile cs solution ∧
    columns = (proveColumns scope criteria cs).map (·.result solution setting.profile)

variable {scope : Scope}

theorem proveColumns_made {made : List TypeInfo} (hissued : Scope.Matches .none made scope scope)
    (criteria : Option Expr) {cs : List OutputColumn}
    (hcs : List.Forall₂ (OutputColumn.Matches .none made) cs cs) :
    List.Forall₂ (OutputColumn.Matches .none made) (proveColumns scope criteria cs)
      (proveColumns scope criteria cs) :=
  have hresult : BranchResult.Matches .none made (.of .empty scope [] [] criteria [] cs)
      (.of .empty scope [] [] criteria [] cs) := .of hissued [] [] criteria [] [] hcs
  hresult.columns

/-- The columns of a leg are described as they are alone, also when another leg follows. -/
theorem columns_of_legs {profile : Profile} {lead own mid mid' rest run : Run}
    {first second third fourth whole : Solution} (h : Leg profile lead own mid first second third)
    (hnext : Leg profile mid' rest run third fourth whole) {made : List TypeInfo}
    (hmade : made.length = mid'.issued) (hscope : scope.Behind lead.issued scope)
    (hissued : Scope.Matches .none made scope scope) (criteria : Option Expr)
    {cs cs' : List OutputColumn} (hbehind : List.Forall₂ (OutputColumn.Behind lead) cs cs')
    (hcs : List.Forall₂ (OutputColumn.Matches .none made) cs' cs') :
    (proveColumns scope criteria cs').map (·.result whole profile) =
      (proveColumns scope criteria cs).map (·.result second profile) := by
  calc
    (proveColumns scope criteria cs').map (·.result whole profile)
      = (proveColumns scope criteria cs').map (·.result third profile) :=
        (columns_of_first hnext hmade (proveColumns_made hissued criteria hcs)).symm
    _ = (proveColumns scope criteria cs).map (·.result second profile) :=
        columns_of_others h (proveColumns_behind hscope criteria hbehind)

/-- A walk over items that can be solved gives what the items give alone. -/
theorem exists_items {made : List TypeInfo} {lead run : Run} (hsound : lead.Sound made)
    (hctes : lead.ctes = []) (hissued : Scope.Matches .none made scope scope)
    (hscope : ∀ n, scope.Behind n scope) (criteria : Option Expr) {items : List Item}
    {cs : List OutputColumn} (hwalk : (inferItems setting scope items).outcome lead = .ok (cs, run))
    {whole : Solution} (hsolve : solve setting.profile run.constraints = .ok whole) :
    ∃ parts, List.Forall₂ (ItemDescribed setting scope criteria) items parts ∧
      (proveColumns scope criteria cs).map (·.result whole setting.profile) = parts.flatten := by
  -- the solution stays that of the whole walk, while the run before the items grows
  induction items generalizing made lead cs with
  | nil =>
    cases hwalk
    exact ⟨[], .nil, rfl⟩
  | cons item rest ih =>
    obtain ⟨first, mid, others, hitem, hrest, rfl⟩ := items_of_cons hwalk
    obtain ⟨made₁, hgrows, hsound₁, -, hctes₁, hfirst⟩ :=
      hsound.advance (.item setting item (Parallel.reads_all _) hissued) hitem
    have hmid : mid.ctes = [] := hctes₁.trans hctes
    have hissued₁ := hissued.mono hgrows
    rcases ih hsound₁ hmid hissued₁ hrest with ⟨parts, hparts, hothers⟩
    -- the items behind this one are a leg, and this one is a leg before them
    rcases (Behind.items setting rest (hscope _)).exists_leg hsound₁.within hmid hrest hsolve with
      ⟨_, _, _, _, _, -, hnext⟩
    rcases (Behind.item setting item (hscope _)).exists_leg hsound.within hctes hitem
      hnext.firstSolved with ⟨alone, own, _, second, halone, hbehind, hleg⟩
    refine ⟨_ :: parts, .cons ⟨alone, second, ⟨own, halone, hleg.ownSolved⟩, rfl⟩ hparts, ?_⟩
    have hcolumns := columns_of_legs hleg hnext hsound₁.issued.symm (hscope _) hissued₁ criteria
      hbehind hfirst
    show (proveColumns scope criteria (first ++ others)).map _ = _
    unfold proveColumns at hcolumns hothers ⊢
    rw [List.map_append, List.map_append, hcolumns, hothers]
    rfl

/-! ## Branches that read tables -/

/-- The FROM clause and the criteria of a branch each end alone in a run that can be solved. -/
structure Branch.Reads (setting : Setting) (b : Branch) (joined : Sources) : Prop where
  sources : ∃ solution, (inferFrom setting [] b).Ends setting.profile joined solution
  criteria : ∃ found solution,
    (inferSome setting ⟨joined.columns, []⟩ b.criteria).Ends setting.profile found solution

variable {b : Branch}

/-- A described branch is described from its items. -/
theorem exists_items_of_described (hb : b.ReadsTables) (hgroup : b.group = [])
    (hhaving : b.having = none) {d : Description} (hd : b.described setting = .ok d) :
    ∃ joined parts, b.Reads setting joined ∧
      List.Forall₂ (ItemDescribed setting ⟨joined.columns, []⟩ b.criteria) b.items parts ∧
      d.columns = parts.flatten := by
  rcases described_iff.1 hd with ⟨result, run, whole, hwalk, hsolve, rfl⟩
  rcases (ungrouped_eq_ok_iff hgroup hhaving).1 hwalk with
    ⟨joined, read, cs, mid, _, hfrom, hitems, hcriteria, rfl⟩
  rcases exists_tablesRead hb hfrom with ⟨made, htables⟩
  have hscope := htables.scopeBehind
  have hissued := htables.scopeMade
  have hlead := htables.sound.withPlaceholders .nil
  obtain ⟨made₁, hgrows, hsound₁, -, hctes₁, hcs⟩ :=
    hlead.advance (.items setting b.items (Parallel.reads_all _) hissued) hitems
  have hmid := hsound₁.withPlaceholders
    (hsound₁.placeholders.append (htables.sound.placeholders.mono hgrows))
  -- the criteria are the last leg of the walk, the items are the one before it
  rcases (Behind.some setting b.criteria (hscope _)).exists_leg hmid.within
    (hctes₁.trans htables.ctes) hcriteria hsolve with
    ⟨found, filtered, third, second, hfound, -, hnext⟩
  rcases (Behind.items setting b.items (hscope _)).exists_leg hlead.within htables.ctes hitems
    hnext.firstSolved with ⟨_, _, first, _, _, -, hleg⟩
  rcases exists_items hlead htables.ctes hissued hscope b.criteria hitems hnext.firstSolved with
    ⟨parts, hparts, hcolumns⟩
  refine ⟨joined, parts, ⟨⟨first, read, hfrom, hleg.firstSolved⟩,
    ⟨found, second, filtered, hfound, hnext.ownSolved⟩⟩, hparts, ?_⟩
  rw [← hcolumns]
  exact (columns_of_first hnext hmid.issued.symm
    (proveColumns_made (hissued.mono hgrows) b.criteria hcs)).symm

/-- From the same tables and by the same criteria, an item is described alone. -/
theorem described_of_item (hb : b.ReadsTables) (hgroup : b.group = []) (hhaving : b.having = none)
    {joined : Sources} (h : b.Reads setting joined) {item : Item} {part : List ResultColumn}
    (hitem : ItemDescribed setting ⟨joined.columns, []⟩ b.criteria item part) :
    ∃ e, (b.projecting [item]).described setting = .ok e ∧ e.columns = part := by
  rcases h.sources with ⟨first, read, hfrom, hfirst⟩
  rcases h.criteria with ⟨found, fourth, filtered, hfound, hfourth⟩
  rcases hitem with ⟨alone, second, ⟨own, halone, hsecond⟩, rfl⟩
  rcases exists_tablesRead hb hfrom with ⟨made, htables⟩
  have hscope := htables.scopeBehind
  have hissued := htables.scopeMade
  have hlead := htables.sound.withPlaceholders .nil
  -- the item is taken behind the tables, and the criteria behind the item
  rcases (Behind.item setting item (hscope _)).take_leg hlead.within htables.ctes hfirst halone
    hsecond with ⟨cs, mid, third, hcs, hbehind, hleg⟩
  obtain ⟨made₁, hgrows, hsound₁, -, hctes₁, hmade⟩ :=
    hlead.advance (.item setting item (Parallel.reads_all _) hissued) hcs
  have hmid := hsound₁.withPlaceholders
    (hsound₁.placeholders.append (htables.sound.placeholders.mono hgrows))
  rcases (Behind.some setting b.criteria (hscope _)).take_leg hmid.within
    (hctes₁.trans htables.ctes) hleg.wholeSolved hfound hfourth with
    ⟨_, last, whole, hlast, -, hnext⟩
  have hitems : (inferItems setting ⟨joined.columns, []⟩ [item]).outcome
      { read with placeholders := [] } = .ok (cs, mid) := by
    rw [outcome_inferItems_one, hcs]
  have hwalk := (ungrouped_eq_ok_iff (b := b.projecting [item]) hgroup hhaving).2
    ⟨joined, read, cs, mid, _, hfrom, hitems, hlast, rfl⟩
  refine ⟨_, described_iff.2 ⟨_, last, whole, hwalk, hnext.wholeSolved, rfl⟩, ?_⟩
  exact columns_of_legs hleg hnext hmid.issued.symm (hscope _) (hissued.mono hgrows) b.criteria
    hbehind hmade

end

/-- The columns of a query that only reads tables are those that its items have as the only item of
the query. -/
theorem describe_items {setting : Setting} {b : Branch} (hb : b.ReadsTables) (hgroup : b.group = [])
    (hhaving : b.having = none) {d : Description}
    (hd : describe setting (.select (.ofBranches [b])) = .ok d) :
    ∃ ds : List Description, List.Forall₂ (fun item e =>
        describe setting (.select (.ofBranches [b.projecting [item]])) = .ok e) b.items ds ∧
      d.columns = ds.flatMap (·.columns) := by
  rcases exists_items_of_described hb hgroup hhaving hd with ⟨joined, parts, hreads, hparts, hcolumns⟩
  rw [hcolumns]
  generalize b.items = items at hparts
  clear hcolumns hd
  induction hparts with
  | nil => exact ⟨[], .nil, rfl⟩
  | cons hitem _ ih =>
    rcases described_of_item hb hgroup hhaving hreads hitem with ⟨e, he, rfl⟩
    rcases ih with ⟨ds, hds, hrest⟩
    exact ⟨e :: ds, .cons he hds, by rw [List.flatten_cons, List.flatMap_cons, hrest]⟩

/-- `SELECT id, CASE WHEN id = ? THEN id ELSE id + 1 END AS b, (SELECT id FROM mytable1) AS c
FROM mytable1 WHERE id <= ?`. -/
def idBesideOthers : Branch :=
  ⟨false, [.expr (.column ⟨none, "id"⟩) none,
    .expr (.case none [⟨.compare .eq (.column ⟨none, "id"⟩) (.parameter none),
      .column ⟨none, "id"⟩⟩] (some (.arithmetic .add (.column ⟨none, "id"⟩)
        (.literal (.int 1))))) (some "b"),
    .expr (.scalar ⟨[], [⟨false, [.expr (.column ⟨none, "id"⟩) none], [.table "mytable1" none], [],
      none, [], none⟩], [], none⟩) (some "c")],
    [.table "mytable1" none], [],
    some (.compare .le (.column ⟨none, "id"⟩) (.parameter none)), [], none⟩

theorem describe_items_idBesideOthers :
    ∃ d ds, describe ⟨oneTable, .mysql⟩ (.select (.ofBranches [idBesideOthers])) = .ok d ∧
      List.Forall₂ (fun item e => describe ⟨oneTable, .mysql⟩
        (.select (.ofBranches [idBesideOthers.projecting [item]])) = .ok e)
        idBesideOthers.items ds ∧
      d.columns = ds.flatMap (·.columns) := by
  have hok : (describe ⟨oneTable, .mysql⟩ (.select (.ofBranches [idBesideOthers]))).isOk = true := by
    decide +kernel
  rcases exists_of_isOk hok with ⟨d, hd⟩
  have htables : idBesideOthers.ReadsTables := by
    refine ⟨fun x hx => ?_, fun j hj => absurd hj List.not_mem_nil⟩
    rw [List.mem_singleton.1 hx]
    rfl
  rcases describe_items htables rfl rfl hd with ⟨ds, hds, hcolumns⟩
  exact ⟨d, ds, hd, hds, hcolumns⟩

-- The sum makes the CASE a double, but not the column beside it.
example : (describe ⟨oneTable, .mysql⟩ (.select (.ofBranches [idBesideOthers]))).toOption.map
    (·.columns) = some [⟨"id", .int, true, "mytable1"⟩, ⟨"b", .double, true, ""⟩,
      ⟨"c", .int, true, ""⟩] := by
  decide +kernel

end QuerySignature
