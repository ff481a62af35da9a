import QuerySignature.Proofs.Behind.Solved
import QuerySignature.Proofs.Behind.Steps
import QuerySignature.Proofs.Placeholders.Order
import QuerySignature.Proofs.Sources.Names

namespace QuerySignature

/-! # Described unions

The branches of a query are analysed one behind the other and solved together. No branch speaks of the
variables of another, so the query is described from what its branches are described as alone.

- `exists_branches`: what a walk over branches gives is what they give alone.
- `exists_union`: branches that are described alone can be walked over in a row.
- `describe_union`: the description of a query of branches.
-/

/-! ## Queries of branches -/

/-- Branches without common tables, ORDER BY and LIMIT. -/
def Select.ofBranches (bs : List Branch) : Select := ⟨[], bs, [], none⟩

/-- What a branch is described as when it is the only one. -/
def Branch.described (setting : Setting) (b : Branch) : Except AnalysisError Description :=
  describe setting (.select (.ofBranches [b]))

section

variable {setting : Setting}

theorem outcome_ofBranches (setting : Setting) (bs : List Branch) :
    (inferQuery setting [] (.ofBranches bs)).outcome .start =
      ((inferUnion setting [] bs).outcome .start).bind fun p =>
      (unionOf (Select.ofBranches bs).text p.1).bind fun head =>
        .ok (.of head.1 head.2 bs [] none, { p.2 with ctes := [] }) := by
  rw [outcome_inferQuery]
  rfl

/-- Describing a query of branches, taken apart. -/
theorem describe_ofBranches_iff {bs : List Branch} {d : Description} :
    describe setting (.select (.ofBranches bs)) = .ok d ↔ ∃ results run head solution,
      (inferUnion setting [] bs).outcome .start = .ok (results, run) ∧
      unionOf (Select.ofBranches bs).text results = .ok head ∧
      solve setting.profile run.constraints = .ok solution ∧
      d = .of setting.profile (.select (.ofBranches bs)) ⟨.of head.1 head.2 bs [] none, 0⟩ run
        solution := by
  rw [describe_select_iff]
  simp only [outcome_ofBranches]
  constructor
  · rintro ⟨result, run, solution, hwalk, hsolve, rfl⟩
    rcases bind_eq_ok.1 hwalk with ⟨⟨results, after⟩, hunion, hwalk⟩
    rcases bind_eq_ok.1 hwalk with ⟨head, hhead, hwalk⟩
    cases hwalk
    exact ⟨results, after, head, solution, hunion, hhead, hsolve, rfl⟩
  · rintro ⟨results, run, head, solution, hunion, hhead, hsolve, rfl⟩
    refine ⟨_, { run with ctes := [] }, solution, ?_, hsolve, rfl⟩
    rw [hunion, ok_bind, hhead, ok_bind]

/-- The same for a single branch. -/
theorem described_iff {b : Branch} {d : Description} :
    b.described setting = .ok d ↔ ∃ result run solution,
      (inferBranch setting [] b).outcome .start = .ok (result, run) ∧
      solve setting.profile run.constraints = .ok solution ∧
      d = .of setting.profile (.select (.ofBranches [b])) ⟨.of result result.columns [b] [] none, 0⟩
        run solution := by
  unfold Branch.described
  rw [describe_ofBranches_iff]
  constructor
  · rintro ⟨results, run, head, solution, hunion, hhead, hsolve, rfl⟩
    rw [outcome_inferUnion_cons] at hunion
    rcases bind_eq_ok.1 hunion with ⟨⟨result, after⟩, hbranch, hunion⟩
    cases hunion
    cases hhead
    exact ⟨result, after, solution, hbranch, hsolve, rfl⟩
  · rintro ⟨result, run, solution, hbranch, hsolve, rfl⟩
    refine ⟨[result], run, (result, result.columns), solution, ?_, rfl, hsolve, rfl⟩
    rw [outcome_inferUnion_cons, hbranch]
    rfl

/-! ## Placeholders under the names of the text -/

/-- A placeholder as the text has it, with what is described of it. -/
structure TypedEntry where
  entry : Entry
  type : SqlType
  notNull : Bool

/-- A placeholder of a run. -/
def Placeholder.typed (p : Placeholder) (solution : Solution) (profile : Profile) : TypedEntry :=
  ⟨p.entry, solution.typeOf profile p.var, p.notNull⟩

/-- The described parameters: a placeholder without a name is named by its place, counted from 1. -/
def parametersOf (es : List TypedEntry) : List ResultParameter :=
  es.zipIdx.map fun (e, index) =>
    ⟨e.entry.name.getD ("param" ++ toString (index + 1)), e.type, e.notNull, e.entry.list⟩

theorem parameters_of_run (ps : List Placeholder) (solution : Solution) (profile : Profile) :
    (ps.zipIdx.map fun (p, index) => p.result index solution profile) =
      parametersOf (ps.map (·.typed solution profile)) := by
  unfold parametersOf
  rw [List.zipIdx_map, List.map_map]
  rfl

/-- A branch that is described alone, and its placeholders under the names of its text. -/
structure DescribedAlone (setting : Setting) (b : Branch) (d : Description) (es : List TypedEntry) :
    Prop where
  described : b.described setting = .ok d
  entries : es.map (·.entry) = entries b.pieces
  parameters : d.parameters = parametersOf es

theorem describedAlone {b : Branch} {result : BranchResult} {run : Run} {solution : Solution}
    (hwalk : (inferBranch setting [] b).outcome .start = .ok (result, run))
    (hsolve : solve setting.profile run.constraints = .ok solution) :
    ∃ d, DescribedAlone setting b d (run.placeholders.map (·.typed solution setting.profile)) ∧
      d.columns = result.columns.map (·.result solution setting.profile) := by
  refine ⟨_, ⟨described_iff.2 ⟨result, run, solution, hwalk, hsolve, rfl⟩, ?_, ?_⟩, rfl⟩
  · rw [List.map_map]
    exact Adds.branch setting [] b .start result run hwalk
  · exact parameters_of_run _ _ _

/-! ## Branches in a row -/

/-- What the first branch leaves: its run is closed, knows no common tables and has numbered its
placeholders, and its columns are among its variables. -/
theorem closed_of_branch {b : Branch} {result : BranchResult} {run : Run}
    (hwalk : (inferBranch setting [] b).outcome .start = .ok (result, run)) :
    run.Closed ∧ run.ctes = [] ∧ (∀ p ∈ run.placeholders, p.var.id ≤ run.issued) ∧
      ∃ made, made.length = run.issued ∧
        List.Forall₂ (OutputColumn.Matches .none made) result.columns result.columns := by
  obtain ⟨made, -, hsound, -, hctes, hresult⟩ := Run.Sound.start.advance
    (.branch setting b (Parallel.reads_all _) (.beside nothing_outer)) hwalk
  have hbehind : Behind .start (BranchResult.Behind .start) (inferBranch setting [] b)
      (inferBranch setting [] b) := .branch setting b .nil
  have hpassed := hbehind .start .start (.start rfl)
  rw [hwalk] at hpassed
  exact ⟨hsound.within, hctes, fun p hp => (hpassed.runs.numbered p hp).2, made,
    hsound.issued.symm, hresult.columns⟩

/-- Behind the first branch, its columns are described as before. -/
theorem columns_of_first {profile : Profile} {made : List TypeInfo} {lead own run : Run}
    {first second whole : Solution} (h : Leg profile lead own run first second whole)
    (hmade : made.length = lead.issued) {cs : List OutputColumn}
    (hcs : List.Forall₂ (OutputColumn.Matches .none made) cs cs) :
    cs.map (·.result first profile) = cs.map (·.result whole profile) := by
  refine List.map_congr_left fun c hc => ?_
  refine (List.forall₂_same.1 hcs c hc).result_eq fun v v' hv _ => ?_
  rw [hv.eq, Renaming.none_var]
  refine (h.infoOf_lead v ?_).symm
  rw [← hmade]
  exact hv.issued.le

/-- So are the columns of the branches behind it. -/
theorem columns_of_others {profile : Profile} {lead own run : Run} {first second whole : Solution}
    (h : Leg profile lead own run first second whole) {cs cs' : List OutputColumn}
    (hcs : List.Forall₂ (OutputColumn.Behind lead) cs cs') :
    cs'.map (·.result whole profile) = cs.map (·.result second profile) :=
  map_eq_of_rel hcs fun _ _ hc => hc.result h.infoOf_own profile

/-- And the placeholders, one after the other. -/
theorem placeholders_of_leg {profile : Profile} {lead own run : Run}
    {first second whole : Solution} (h : Leg profile lead own run first second whole)
    (hnumbered : ∀ p ∈ lead.placeholders, p.var.id ≤ lead.issued) :
    run.placeholders.map (·.typed whole profile) =
      lead.placeholders.map (·.typed first profile) ++
        own.placeholders.map (·.typed second profile) := by
  rw [h.runs.placeholders, List.map_append, List.map_map]
  refine congrArg₂ (· ++ ·) (List.map_congr_left fun p hp => ?_)
    (List.map_congr_left fun p hp => ?_)
  · unfold Placeholder.typed
    rw [typeOf_eq (h.infoOf_lead p.var (hnumbered p hp))]
  · have hbehind : p.var.Behind lead.issued (p.moved lead.issued).var :=
      ⟨(h.runs.numbered p hp).1, rfl⟩
    show (p.moved lead.issued).typed whole profile = p.typed second profile
    unfold Placeholder.typed
    rw [typeOf_eq (h.infoOf_own _ _ hbehind)]
    rfl

/-- Two lists that are related to a third one. -/
theorem rel_through {α β γ : Type} {R : α → β → Prop} {S : α → γ → Prop} {T : β → γ → Prop}
    (h : ∀ a b c, R a b → S a c → T b c) {xs : List α} {ys : List β} {zs : List γ}
    (hR : List.Forall₂ R xs ys) (hS : List.Forall₂ S xs zs) : List.Forall₂ T ys zs := by
  induction hR generalizing zs with
  | nil =>
    cases hS
    exact .nil
  | cons hxy _ ih =>
    cases hS with
    | cons hxz hS => exact .cons (h _ _ _ hxy hxz) (ih hS)

/-- A walk over branches that can be solved gives what the branches give alone. -/
theorem exists_branches {bs : List Branch} {results : List BranchResult} {run : Run}
    {solution : Solution} (hwalk : (inferUnion setting [] bs).outcome .start = .ok (results, run))
    (hsolve : solve setting.profile run.constraints = .ok solution) :
    ∃ ds : List (Description × List TypedEntry),
      List.Forall₂ (fun b d => DescribedAlone setting b d.1 d.2) bs ds ∧
      List.Forall₂ (fun (result : BranchResult) d =>
        d.1.columns = result.columns.map (·.result solution setting.profile)) results ds ∧
      run.placeholders.map (·.typed solution setting.profile) = (ds.map (·.2)).flatten := by
  induction bs generalizing results run solution with
  | nil =>
    cases hwalk
    exact ⟨[], .nil, .nil, rfl⟩
  | cons b rest ih =>
    obtain ⟨result, lead, others, hbranch, hothers, rfl⟩ := branches_of_union hwalk
    rcases closed_of_branch hbranch with ⟨hclosed, hctes, hnumbered, made, hmade, hcolumns⟩
    -- the branches behind the first one are a leg of their own
    rcases (Behind.union setting rest .nil).exists_leg hclosed hctes hothers hsolve
      with ⟨alone, own, first, second, halone, hbehind, hleg⟩
    rcases describedAlone hbranch hleg.firstSolved with ⟨d, hd, hfirst⟩
    rcases ih halone hleg.ownSolved with ⟨ds, hds, hrest, hentries⟩
    refine ⟨(d, _) :: ds, .cons hd hds, .cons ?_ ?_, ?_⟩
    · exact hfirst.trans (columns_of_first hleg hmade hcolumns)
    · refine rel_through (fun _ _ _ hresult hd => ?_) hbehind hrest
      rw [columns_of_others hleg hresult.columns]
      exact hd
    · rw [placeholders_of_leg hleg hnumbered, hentries]
      rfl

/-- Branches that are described alone can be walked over in a row, and solved together. -/
theorem exists_union {bs : List Branch} {ds : List Description}
    (h : List.Forall₂ (fun b d => b.described setting = .ok d) bs ds) :
    ∃ results run solution, (inferUnion setting [] bs).outcome .start = .ok (results, run) ∧
      solve setting.profile run.constraints = .ok solution := by
  -- the branches behind the first one are walked over alone, and then taken behind it
  induction h with
  | nil => exact ⟨[], .start, _, rfl, rfl⟩
  | @cons b d rest ds hd _ ih =>
    rcases described_iff.1 hd with ⟨result, lead, first, hbranch, hfirst, -⟩
    rcases ih with ⟨alone, own, second, halone, hsecond⟩
    rcases closed_of_branch hbranch with ⟨hclosed, hctes, -⟩
    rcases (Behind.union setting rest .nil).take_leg hclosed hctes hfirst halone
      hsecond with ⟨others, run, whole, hothers, -, hleg⟩
    refine ⟨result :: others, run, whole, ?_, hleg.wholeSolved⟩
    rw [outcome_inferUnion_cons, hbranch, ok_bind, hothers]
    rfl

end

/-! ## Columns put together -/

theorem unionVars_of_union {setting : Setting} {outer : List Level} {bs : List Branch}
    {results : List BranchResult} {r s : Run}
    (h : (inferUnion setting outer bs).outcome r = .ok (results, s)) :
    ∀ result ∈ results, ∀ c ∈ result.columns, c.unionVars = [] := by
  induction bs generalizing r s results with
  | nil =>
    cases h
    exact fun _ hresult => absurd hresult List.not_mem_nil
  | cons b rest ih =>
    obtain ⟨first, rb, others, hfirst, hothers, rfl⟩ := branches_of_union h
    exact List.forall_mem_cons.2 ⟨unionVars_of_branch hfirst, ih hothers⟩

/-- A described column with the same column of another branch. -/
def ResultColumn.union (c d : ResultColumn) : ResultColumn :=
  { c with type := c.type.widest d.type, notNull := c.notNull && d.notNull }

theorem OutputColumn.result_union {c d : OutputColumn} (h : d.unionVars = [])
    (solution : Solution) (profile : Profile) :
    (c.union d).result solution profile =
      (c.result solution profile).union (d.result solution profile) := by
  unfold OutputColumn.result OutputColumn.type ResultColumn.union OutputColumn.union
  rw [List.foldl_append, h]
  rfl

theorem zipWith_result {solution : Solution} {profile : Profile} (cs : List OutputColumn)
    {ds : List OutputColumn} (h : ∀ d ∈ ds, d.unionVars = []) :
    (List.zipWith OutputColumn.union cs ds).map (·.result solution profile) =
      List.zipWith ResultColumn.union (cs.map (·.result solution profile))
        (ds.map (·.result solution profile)) := by
  induction cs generalizing ds with
  | nil => rfl
  | cons c cs ih =>
    cases ds with
    | nil => rfl
    | cons d ds =>
      simp only [List.zipWith_cons_cons, List.map_cons]
      rw [OutputColumn.result_union (h d List.mem_cons_self),
        ih fun other hother => h other (List.mem_cons_of_mem _ hother)]

/-- The columns of branches go together when there are equally many of them. -/
theorem unionColumns_eq_ok_iff {cs found : List OutputColumn} {bs : List BranchResult} :
    unionColumns cs bs = .ok found ↔ (∀ b ∈ bs, b.columns.length = cs.length) ∧
      found = bs.foldl (fun cs b => List.zipWith OutputColumn.union cs b.columns) cs := by
  induction bs generalizing cs with
  | nil => simp [unionColumns, eq_comm]
  | cons b rest ih =>
    unfold unionColumns
    by_cases hlength : b.columns.length = cs.length
    · rw [if_pos hlength, ih, List.length_zipWith, hlength, Nat.min_self]
      simp [hlength]
    · simp [hlength]

theorem exists_head (text : String) {results : List BranchResult} {n : Nat}
    (hnonempty : results ≠ []) (hlength : ∀ result ∈ results, result.columns.length = n) :
    ∃ head, unionOf text results = .ok head := by
  cases results with
  | nil => exact absurd rfl hnonempty
  | cons first others =>
    have hfirst := hlength first List.mem_cons_self
    have hcolumns := unionColumns_eq_ok_iff.2
      ⟨fun b hb => (hlength b (List.mem_cons_of_mem _ hb)).trans hfirst.symm, rfl⟩
    simp only [unionOf, hcolumns, Except.map]
    exact ⟨_, rfl⟩

theorem foldl_result {solution : Solution} {profile : Profile} {bs : List BranchResult}
    (h : ∀ b ∈ bs, ∀ c ∈ b.columns, c.unionVars = []) (cs : List OutputColumn) :
    (bs.foldl (fun cs b => List.zipWith OutputColumn.union cs b.columns) cs).map
        (·.result solution profile) =
      (bs.map fun b => b.columns.map (·.result solution profile)).foldl
        (List.zipWith ResultColumn.union) (cs.map (·.result solution profile)) := by
  induction bs generalizing cs with
  | nil => rfl
  | cons b rest ih =>
    rw [List.foldl_cons, ih fun other hother => h other (List.mem_cons_of_mem _ hother),
      zipWith_result cs (h b List.mem_cons_self)]
    rfl

theorem length_foldl_union {cs : List OutputColumn} {bs : List BranchResult}
    (h : ∀ b ∈ bs, b.columns.length = cs.length) :
    (bs.foldl (fun cs b => List.zipWith OutputColumn.union cs b.columns) cs).length = cs.length := by
  induction bs generalizing cs with
  | nil => rfl
  | cons b rest ih =>
    have hfirst : (List.zipWith OutputColumn.union cs b.columns).length = cs.length := by
      rw [List.length_zipWith, h b List.mem_cons_self, Nat.min_self]
    rw [List.foldl_cons, ih fun other hother => ?_, hfirst]
    rw [hfirst, h other (List.mem_cons_of_mem _ hother)]

/-- A column of all branches is made of the columns at its place. -/
theorem getElem?_foldl_union {cs : List ResultColumn} {css : List (List ResultColumn)} {j : Nat}
    {column : ResultColumn}
    (h : (css.foldl (List.zipWith ResultColumn.union) cs)[j]? = some column) :
    ∃ c others, cs[j]? = some c ∧ List.Forall₂ (fun cs c => cs[j]? = some c) css others ∧
      column = others.foldl ResultColumn.union c := by
  induction css generalizing cs with
  | nil => exact ⟨column, [], h, .nil, rfl⟩
  | cons ds rest ih =>
    rcases ih h with ⟨both, others, hboth, hothers, rfl⟩
    rw [List.getElem?_zipWith_eq_some] at hboth
    rcases hboth with ⟨c, d, hc, hd, rfl⟩
    exact ⟨c, d :: others, hc, .cons hd hothers, rfl⟩

/-- It has the name of the first, the widest of the types in their order, and cannot be null if none of
them can. -/
theorem foldl_union (c : ResultColumn) (others : List ResultColumn) :
    (others.foldl ResultColumn.union c).name = c.name ∧
      (others.foldl ResultColumn.union c).type =
        others.foldl (fun type other => type.widest other.type) c.type ∧
      ((others.foldl ResultColumn.union c).notNull = true ↔
        ∀ other ∈ c :: others, other.notNull = true) := by
  induction others generalizing c with
  | nil => simp
  | cons d rest ih =>
    rcases ih (c.union d) with ⟨hname, htype, hnotNull⟩
    refine ⟨hname, htype, hnotNull.trans ?_⟩
    simp [ResultColumn.union, and_assoc]

/-! ## The description -/

/-- Descriptions of the same branches are the same. -/
theorem eq_of_describedAlone {setting : Setting} {bs : List Branch} {ds : List Description}
    {pairs : List (Description × List TypedEntry)}
    (h : List.Forall₂ (fun b d => b.described setting = .ok d) bs ds)
    (hpairs : List.Forall₂ (fun b d => DescribedAlone setting b d.1 d.2) bs pairs) :
    ds = pairs.map (·.1) := by
  induction h generalizing pairs with
  | nil =>
    cases hpairs
    rfl
  | cons hd _ ih =>
    cases hpairs with
    | cons hpair hpairs =>
      rw [List.map_cons, ih hpairs, Except.ok.inj (hd.symm.trans hpair.described)]

/-- What a query of branches is described as, from what they are described as alone. -/
structure Description.UnionOf (bs : List Branch) (ds : List Description) (d : Description) :
    Prop where
  width : ∀ e ∈ ds, e.columns.length = d.columns.length
  /-- A column has the name of the first branch's and the widest of the branches' types in their order,
  and it is not null when it is so in every branch. -/
  columns : ∀ (j : Nat) (column : ResultColumn), d.columns[j]? = some column →
    ∃ (c : ResultColumn) (cs : List ResultColumn),
      List.Forall₂ (fun (e : Description) c => e.columns[j]? = some c) ds (c :: cs) ∧
      column.name = c.name ∧
      column.type = cs.foldl (fun type other => type.widest other.type) c.type ∧
      (column.notNull = true ↔ ∀ other ∈ c :: cs, other.notNull = true)
  /-- The parameters are those of the branches, one after the other, as the text names them. -/
  parameters : ∃ es : List (List TypedEntry),
    List.Forall₂ (fun b es => es.map (·.entry) = entries b.pieces) bs es ∧
      List.Forall₂ (fun e es => e.parameters = parametersOf es) ds es ∧
      d.parameters = parametersOf es.flatten

/-- The columns that were put together are reported from the columns of the branches. -/
theorem columns_of_union {solution : Solution} {profile : Profile} {cs found : List OutputColumn}
    {bs : List BranchResult} {ds : List Description} (hunion : unionColumns cs bs = .ok found)
    (hplain : ∀ b ∈ bs, ∀ c ∈ b.columns, c.unionVars = [])
    (hds : List.Forall₂ (fun (b : BranchResult) (d : Description) =>
      d.columns = b.columns.map (·.result solution profile)) bs ds) :
    (∀ d ∈ ds, d.columns.length = cs.length) ∧ found.length = cs.length ∧
      found.map (·.result solution profile) =
        (ds.map (·.columns)).foldl (List.zipWith ResultColumn.union)
          (cs.map (·.result solution profile)) := by
  rcases unionColumns_eq_ok_iff.1 hunion with ⟨hlength, rfl⟩
  have hcolumns : (ds.map (·.columns)) = bs.map fun b => b.columns.map (·.result solution profile) :=
    map_eq_of_rel hds fun _ _ hd => hd
  refine ⟨fun d hd => ?_, ?_, ?_⟩
  · rcases exists_partner hds hd with ⟨b, hb, hcolumns⟩
    rw [hcolumns, List.length_map, hlength b hb]
  · exact length_foldl_union hlength
  · rw [foldl_result hplain, hcolumns]

/-- What is described of branches that have been put together. -/
theorem unionOf_described {setting : Setting} {first : Branch} {others : List Branch}
    {pairs : List (Description × List TypedEntry)} {results : List BranchResult} {run : Run}
    {solution : Solution} {head : BranchResult × List OutputColumn}
    (hwalk : (inferUnion setting [] (first :: others)).outcome .start = .ok (results, run))
    (hhead : unionOf (Select.ofBranches (first :: others)).text results = .ok head)
    (hpairs : List.Forall₂ (fun b d => DescribedAlone setting b d.1 d.2) (first :: others) pairs)
    (hcolumns : List.Forall₂ (fun (result : BranchResult) d =>
      d.1.columns = result.columns.map (·.result solution setting.profile)) results pairs)
    (hentries : run.placeholders.map (·.typed solution setting.profile) =
      (pairs.map (·.2)).flatten) :
    (Description.of setting.profile (.select (.ofBranches (first :: others)))
      ⟨.of head.1 head.2 (first :: others) [] none, 0⟩ run solution).UnionOf (first :: others)
        (pairs.map (·.1)) := by
  have hplain := unionVars_of_union hwalk
  cases hcolumns with
  | nil => cases hpairs
  | @cons result pair results pairs hfirst hrest =>
    have hunion := (unionOf_cons hhead).2
    rcases columns_of_union hunion (fun b hb => hplain b (List.mem_cons_of_mem _ hb))
      (List.forall₂_map_right_iff.2 hrest) with ⟨hwidths, hwidth, hfound⟩
    rw [← hfirst] at hfound
    refine ⟨?_, ?_, ?_⟩
    · -- all branches have as many columns
      intro e he
      show e.columns.length = (head.2.map _).length
      rw [List.length_map, hwidth]
      rcases List.mem_cons.1 he with rfl | he
      · rw [hfirst, List.length_map]
      · exact hwidths e he
    · -- a column is that of each branch at its place, the types folded
      intro j column hcolumn
      replace hcolumn : (head.2.map (·.result solution setting.profile))[j]? = some column := hcolumn
      rw [hfound] at hcolumn
      rcases getElem?_foldl_union hcolumn with ⟨c, cs, hc, hcs, rfl⟩
      exact ⟨c, cs, .cons hc (List.forall₂_map_left_iff.1 hcs), foldl_union c cs⟩
    · -- the placeholders are those of the branches, one branch behind the other
      refine ⟨(pair :: pairs).map (·.2), ?_, ?_, ?_⟩
      · exact List.forall₂_map_right_iff.2 (hpairs.imp fun _ _ h => h.entries)
      · rw [List.forall₂_map_left_iff, List.forall₂_map_right_iff, List.forall₂_same]
        intro p hp
        rcases exists_partner hpairs hp with ⟨_, -, halone⟩
        exact halone.parameters
      · rw [← hentries]
        exact parameters_of_run _ _ _

/-- A query of branches can be described when each branch can be described alone and all have equally
many columns; and then it is described from them. -/
theorem describe_union (setting : Setting) (first : Branch) (others : List Branch) :
    ((describe setting (.select (.ofBranches (first :: others)))).isOk = true ↔
      ∃ ds : List Description,
        List.Forall₂ (fun b d => b.described setting = .ok d) (first :: others) ds ∧
        ∃ n, ∀ d ∈ ds, d.columns.length = n) ∧
    ∀ (d : Description) (ds : List Description),
      describe setting (.select (.ofBranches (first :: others))) = .ok d →
      List.Forall₂ (fun b d => b.described setting = .ok d) (first :: others) ds →
      d.UnionOf (first :: others) ds := by
  have hdescribed : ∀ d, describe setting (.select (.ofBranches (first :: others))) = .ok d →
      ∃ pairs : List (Description × List TypedEntry),
        List.Forall₂ (fun b d => DescribedAlone setting b d.1 d.2) (first :: others) pairs ∧
        d.UnionOf (first :: others) (pairs.map (·.1)) := by
    intro d hd
    rcases describe_ofBranches_iff.1 hd with ⟨results, run, head, solution, hwalk, hhead, hsolve, rfl⟩
    rcases exists_branches hwalk hsolve with ⟨pairs, hpairs, hcolumns, hentries⟩
    exact ⟨pairs, hpairs, unionOf_described hwalk hhead hpairs hcolumns hentries⟩
  refine ⟨⟨fun hok => ?_, ?_⟩, ?_⟩
  · rcases exists_of_isOk hok with ⟨d, hd⟩
    rcases hdescribed d hd with ⟨pairs, hpairs, hunion⟩
    refine ⟨_, List.forall₂_map_right_iff.2 (hpairs.imp fun _ _ h => h.described), _, hunion.width⟩
  · rintro ⟨ds, hds, n, hwidth⟩
    rcases exists_union hds with ⟨results, run, solution, hwalk, hsolve⟩
    rcases exists_branches hwalk hsolve with ⟨pairs, hpairs, hcolumns, -⟩
    -- a branch has only one description, so the widths are those of the walk
    rw [eq_of_describedAlone hds hpairs] at hwidth
    have hlength : ∀ result ∈ results, result.columns.length = n := by
      intro result hresult
      rcases exists_partner hcolumns.flip hresult with ⟨pair, hpair, hpairColumns⟩
      rw [← hwidth pair.1 (List.mem_map_of_mem hpair), hpairColumns, List.length_map]
    have hnonempty : results ≠ [] := by
      rintro rfl
      cases hcolumns
      cases hpairs
    rcases exists_head (Select.ofBranches (first :: others)).text hnonempty hlength with
      ⟨head, hhead⟩
    rw [describe_ofBranches_iff.2 ⟨results, run, head, solution, hwalk, hhead, hsolve, rfl⟩]
    rfl
  · intro d ds hd hds
    rcases hdescribed d hd with ⟨pairs, hpairs, hunion⟩
    rw [eq_of_describedAlone hds hpairs]
    exact hunion

/-- `SELECT id AS a FROM mytable1 WHERE id = ?`. -/
def idOfValue : Branch :=
  ⟨false, [.expr (.column ⟨none, "id"⟩) (some "a")], [.table "mytable1" none], [],
    some (.compare .eq (.column ⟨none, "id"⟩) (.parameter none)), [], none⟩

/-- `SELECT id + 1 AS b FROM mytable1 WHERE id <= ?`. -/
def nextUpTo : Branch :=
  ⟨false, [.expr (.arithmetic .add (.column ⟨none, "id"⟩) (.literal (.int 1))) (some "b")],
    [.table "mytable1" none], [],
    some (.compare .le (.column ⟨none, "id"⟩) (.parameter none)), [], none⟩

theorem describe_union_idOfValue_nextUpTo :
    ∃ d ds, describe ⟨oneTable, .mysql⟩ (.select (.ofBranches [idOfValue, nextUpTo])) = .ok d ∧
      List.Forall₂ (fun b d => b.described ⟨oneTable, .mysql⟩ = .ok d) [idOfValue, nextUpTo] ds ∧
      d.UnionOf [idOfValue, nextUpTo] ds := by
  have hok : (describe ⟨oneTable, .mysql⟩
      (.select (.ofBranches [idOfValue, nextUpTo]))).isOk = true := by decide +kernel
  rcases exists_of_isOk hok with ⟨d, hd⟩
  have hunion := describe_union ⟨oneTable, .mysql⟩ idOfValue [nextUpTo]
  rcases hunion.1.1 hok with ⟨ds, hds, -⟩
  exact ⟨d, ds, hd, hds, hunion.2 d ds hd hds⟩

-- The second placeholder is `param1` when its branch is alone.
example : (describe ⟨oneTable, .mysql⟩ (.select (.ofBranches [idOfValue, nextUpTo]))).toOption.map
    (fun d => (d.columns, d.parameters)) =
      some ([⟨"a", .double, true, "mytable1"⟩],
        [⟨"param1", .int, true, false⟩, ⟨"param2", .int, true, false⟩]) := by
  decide +kernel

end QuerySignature
