import QuerySignature.Proofs.Fragments.Reduced
import QuerySignature.Proofs.Sources.Parts
import QuerySignature.Proofs.Walk.Tables

namespace QuerySignature

/-! # Common tables of reduced queries

What remains of a dynamic query is to be a query again, so whatever part of it reads a common table
must be kept with the definition of that table. The definition follows the sources under one visible
name: the name of the first source that is written as the common table.

- `Fragments.keepsCte_iff`: the definition is kept with the sources that it follows;
- `describeAnnotated_keeps_cte`: so a part that reads the common table keeps its definition, if the
  definition follows this part and no other;
- `describeAnnotated_keeps_readers_iff`: when it does so in general;
- `second_reader_loses_cte`: a second source that reads the common table does not keep it.
-/

/-! ## Parts of a branch -/

/-- A part of a branch that may be left out, by its place. -/
inductive BranchPart where
  | item (place : Nat)
  | source (place : Nat)
  | condition (place : Nat)
  deriving DecidableEq, Repr

/-- The tables that a part of a branch reads, at any depth. -/
def Branch.tablesOf (branch : Branch) : BranchPart → List String
  | .item place => (branch.items[place]?.map Item.tables).getD []
  | .source place =>
    (branch.clause[place]?.map fun step => step.1.tables ++ step.2.tables).getD []
  | .condition place => (branch.conditions[place]?.map Expr.tables).getD []

/-- A part of a branch reads a common table. -/
def Branch.ReadsCte (branch : Branch) (part : BranchPart) (cte : Cte) : Prop :=
  ∃ table ∈ branch.tablesOf part, sameName (lastSegment table) cte.name = true

instance (branch : Branch) (part : BranchPart) (cte : Cte) :
    Decidable (branch.ReadsCte part cte) :=
  inferInstanceAs
    (Decidable (∃ table ∈ branch.tablesOf part, sameName (lastSegment table) cte.name = true))

/-- The name of the sources that the definition of a common table follows. -/
def Branch.followedName (branch : Branch) (cte : Cte) : String :=
  ((branch.allSources.find? (·.isTable cte.name)).map Source.label).getD cte.name

/-- The definition of a common table follows the source at a place. -/
def Branch.FollowedAt (branch : Branch) (cte : Cte) (place : Nat) : Prop :=
  ∃ source, branch.allSources[place]? = some source ∧ source.label = branch.followedName cte

/-- Whether a part of a branch is kept under a choice: an item if it is selected. -/
def Needs.keeps (needs : Needs) (choice : Choice) : BranchPart → Bool
  | .item place => place ∈ choice.items
  | .source place => needs.keepsSource choice place
  | .condition place => needs.keepsCondition choice place

/-- Whether the definition of the common table at a place is kept under a choice. -/
def Needs.keepsCte (needs : Needs) (choice : Choice) (place : Nat) : Bool :=
  needs.ctes[place]?.any fun need => need.isKept choice

/-! ## What several fragments are needed for -/

namespace Need

/-- What one of several fragments is needed for, with a text of its own. -/
def united (text : String) (parameters : List String) (readers : List Need) : Need :=
  { text
    items := distinct (readers.flatMap (·.items))
    bound := distinct (readers.flatMap (·.bound))
    parameters
    order := distinct (readers.flatMap (·.order)) }

variable {text : String} {parameters : List String} {readers : List Need} {choice : Choice}

/-- What is needed for the same as several fragments needs no reason if none of them does. -/
theorem isRequired_united_iff :
    (united text parameters readers).isRequired = true ↔
      ∀ need ∈ readers, need.isRequired = true := by
  have hempty {α : Type} [DecidableEq α] (f : Need → List α) :
      distinct (readers.flatMap f) = [] ↔ ∀ need ∈ readers, f need = [] := by
    rw [List.eq_nil_iff_forall_not_mem, ← List.flatMap_eq_nil_iff, List.eq_nil_iff_forall_not_mem]
    exact forall_congr' fun x => not_congr mem_distinct
  simp only [united, isRequired, Bool.and_eq_true, List.isEmpty_iff, hempty]
  constructor
  · rintro ⟨⟨hitems, hbound⟩, horder⟩ need hneed
    exact ⟨⟨hitems need hneed, hbound need hneed⟩, horder need hneed⟩
  · intro h
    exact ⟨⟨fun need hneed => (h need hneed).1.1, fun need hneed => (h need hneed).1.2⟩,
      fun need hneed => (h need hneed).2⟩

/-- A fragment that is kept for a reason keeps what is needed for the same. -/
theorem isKept_united {need : Need} (hneed : need ∈ readers) (hkept : need.isKept choice = true) :
    need.isRequired = true ∨ (united text parameters readers).isKept choice = true := by
  refine Within.isKept (b := united text parameters readers) ⟨?_, ?_, ?_⟩ hkept
  · exact fun item hitem => mem_distinct.2 (List.mem_flatMap.2 ⟨need, hneed, hitem⟩)
  · exact fun name hname => mem_distinct.2 (List.mem_flatMap.2 ⟨need, hneed, hname⟩)
  · exact fun column hcolumn => mem_distinct.2 (List.mem_flatMap.2 ⟨need, hneed, hcolumn⟩)

/-- What is needed for the same as several fragments is kept if all of these need no reason, or with
one of them that is kept for a reason. -/
theorem isKept_united_iff :
    (united text parameters readers).isKept choice = true ↔
      (∀ need ∈ readers, need.isKept .nothing = true) ∨
        ∃ need ∈ readers, need.isKept choice = true ∧ need.isKept .nothing = false := by
  simp only [isKept_nothing]
  constructor
  · intro h
    rcases isKept_iff.1 h with hrequired | ⟨item, hitem, hin⟩ | ⟨name, hname, hin⟩ |
      ⟨column, hcolumn, hin⟩
    · exact .inl (isRequired_united_iff.1 hrequired)
    · rcases List.mem_flatMap.1 (mem_distinct.1 hitem) with ⟨need, hneed, hitem⟩
      refine .inr ⟨need, hneed, isKept_iff.2 (.inr (.inl ⟨item, hitem, hin⟩)), ?_⟩
      simp [isRequired, List.ne_nil_of_mem hitem]
    · rcases List.mem_flatMap.1 (mem_distinct.1 hname) with ⟨need, hneed, hname⟩
      refine .inr ⟨need, hneed, isKept_iff.2 (.inr (.inr (.inl ⟨name, hname, hin⟩))), ?_⟩
      simp [isRequired, List.ne_nil_of_mem hname]
    · rcases List.mem_flatMap.1 (mem_distinct.1 hcolumn) with ⟨need, hneed, hcolumn⟩
      refine .inr ⟨need, hneed, isKept_iff.2 (.inr (.inr (.inr ⟨column, hcolumn, hin⟩))), ?_⟩
      simp [isRequired, List.ne_nil_of_mem hcolumn]
  · rintro (hall | ⟨need, hneed, hkept, hreason⟩)
    · exact isKept_of_isRequired (isRequired_united_iff.2 hall)
    · exact (isKept_united hneed hkept).resolve_left (Bool.eq_false_iff.1 hreason)

end Need

/-! ## Definitions and the sources that they follow -/

namespace Fragments

/-- The common tables of a query are cut out with the name that they follow. -/
theorem ctes_of_ofQuery {schema : Schema} {names : List String} {q : Select} {branch : Branch}
    {rest : List Branch} (hbranch : q.branches = branch :: rest) {fragments : Fragments}
    (h : Fragments.ofQuery schema names q = .ok fragments) :
    fragments.ctes = q.ctes.map (cteFragment names branch.allSources) := by
  obtain ⟨listed, -, -, hctes, -, -⟩ := sources_of_ofQuery hbranch h
  exact hctes

variable {fragments : Fragments} {names order : List String} {choice : Choice}

/-- What the sources of a name are needed for. -/
def followed (fragments : Fragments) (names order : List String) (relation : String) : List Need :=
  (fragments.sources.zip (fragments.needs names order).sources).filterMap fun (source, need) =>
    if source.relation.isSome && source.relation == some relation then some need else none

theorem mem_followed_iff {relation : String} {need : Need} :
    need ∈ fragments.followed names order relation ↔
      ∃ place source, fragments.sources[place]? = some source ∧ source.relation = some relation ∧
        need = fragments.sourceNeed names order source place := by
  unfold followed
  constructor
  · intro h
    obtain ⟨⟨source, found⟩, hpair, hfound⟩ := List.mem_filterMap.1 h
    obtain ⟨place, hplace⟩ := List.mem_iff_getElem?.1 hpair
    obtain ⟨hsource, hneed⟩ := List.getElem?_zip_eq_some.1 hplace
    rw [getElem?_sources_needs, hsource] at hneed
    dsimp only at hfound
    split at hfound
    case isTrue hrelation =>
      cases hfound
      simp only [Bool.and_eq_true, beq_iff_eq] at hrelation
      exact ⟨place, source, hsource, hrelation.2, (Option.some.inj hneed).symm⟩
    case isFalse => cases hfound
  · -- the sources and what they are needed for are numbered alike
    rintro ⟨place, source, hsource, hrelation, rfl⟩
    have hneed := getElem?_sources_needs fragments names order place
    rw [hsource, Option.map_some] at hneed
    have hpair : (fragments.sources.zip (fragments.needs names order).sources)[place]? =
        some (source, fragments.sourceNeed names order source place) :=
      List.getElem?_zip_eq_some.2 ⟨hsource, hneed⟩
    exact List.mem_filterMap.2 ⟨_, List.mem_of_getElem? hpair, by simp [hrelation]⟩

/-- A definition is needed for the same as the sources of the name that it follows. -/
theorem cteNeed_eq {fragment : Fragment} {relation : String}
    (own : fragment.relation = some relation) :
    fragments.cteNeed names (fragments.needs names order).sources fragment =
      Need.united fragment.text (namesAt names fragment.parameters)
        (fragments.followed names order relation) := by
  unfold cteNeed followed
  rw [own]
  rfl

section

variable {schema : Schema} {q : Select} {branch : Branch} {rest : List Branch}
  (hbranch : q.branches = branch :: rest)
  (hcut : Fragments.ofQuery schema names q = .ok fragments) {cte : Cte} {k : Nat}
  (hcte : q.ctes[k]? = some cte)

include hbranch hcut

/-- The sources of a name are cut out as such. -/
theorem followedAt_iff {place : Nat} :
    branch.FollowedAt cte place ↔ ∃ source, fragments.sources[place]? = some source ∧
      source.relation = some (branch.followedName cte) := by
  have hsources := (Fragments.ofQuery_eq_ok hbranch hcut).1
  constructor
  · rintro ⟨source, hsource, hlabel⟩
    obtain ⟨fragment, hfragment, hbrings⟩ := exists_partner_at hsources.flip hsource
    exact ⟨fragment, hfragment, by rw [hbrings.relation, hlabel]⟩
  · rintro ⟨fragment, hfragment, hrelation⟩
    obtain ⟨source, hsource, hbrings⟩ := exists_partner_at hsources hfragment
    have hlabel := hbrings.relation.symm.trans hrelation
    exact ⟨source, hsource, Option.some.inj hlabel⟩

/-- The sources that a definition follows, by what they are needed for and by their places. -/
theorem exists_followed_iff (P : (Choice → Bool) → Prop) :
    (∃ need ∈ fragments.followed names order (branch.followedName cte), P need.isKept) ↔
      ∃ place, branch.FollowedAt cte place ∧
        P fun choice => (fragments.needs names order).keepsSource choice place := by
  constructor
  · rintro ⟨need, hneed, hkept⟩
    rcases mem_followed_iff.1 hneed with ⟨place, source, hsource, hrelation, rfl⟩
    refine ⟨place, (followedAt_iff hbranch hcut).2 ⟨source, hsource, hrelation⟩, ?_⟩
    rwa [funext fun choice => keepsSource_eq hsource]
  · rintro ⟨place, hplace, hkept⟩
    rcases (followedAt_iff hbranch hcut).1 hplace with ⟨source, hsource, hrelation⟩
    refine ⟨_, mem_followed_iff.2 ⟨place, source, hsource, hrelation, rfl⟩, ?_⟩
    rwa [funext fun choice => keepsSource_eq hsource] at hkept

include hcte

theorem keepsCte_eq :
    (fragments.needs names order).keepsCte choice k =
      (Need.united (cteFragment names branch.allSources cte).text
        (namesAt names (cteFragment names branch.allSources cte).parameters)
        (fragments.followed names order (branch.followedName cte))).isKept choice := by
  have hneed : (fragments.needs names order).ctes[k]? =
      some (fragments.cteNeed names (fragments.needs names order).sources
        (cteFragment names branch.allSources cte)) := by
    show (fragments.ctes.map _)[k]? = _
    rw [ctes_of_ofQuery hbranch hcut, List.getElem?_map, List.getElem?_map, hcte]
    rfl
  unfold Needs.keepsCte
  rw [hneed, Option.any_some]
  exact congrArg (Need.isKept · choice) (cteNeed_eq rfl)

/-- A definition is kept if all the sources that it follows are kept whatever is chosen, or with one of
them that is not. -/
theorem keepsCte_iff :
    (fragments.needs names order).keepsCte choice k = true ↔
      (∀ place, branch.FollowedAt cte place →
        (fragments.needs names order).keepsSource .nothing place = true) ∨
      ∃ place, branch.FollowedAt cte place ∧
        (fragments.needs names order).keepsSource choice place = true ∧
        (fragments.needs names order).keepsSource .nothing place = false := by
  rw [keepsCte_eq hbranch hcut hcte, Need.isKept_united_iff]
  refine or_congr ?_ ?_
  · have hsome : (∃ need ∈ fragments.followed names order (branch.followedName cte),
        need.isKept .nothing = false) ↔ _ :=
      exists_followed_iff hbranch hcut fun kept => kept .nothing = false
    rw [← not_iff_not]
    push Not
    simpa only [Bool.not_eq_true, ne_eq] using hsome
  · exact exists_followed_iff hbranch hcut fun kept => kept choice = true ∧ kept .nothing = false

/-- A definition is kept with all the sources that it follows; without any it is always kept. -/
theorem keepsCte_of_followed
    (h : ∀ place, branch.FollowedAt cte place →
      (fragments.needs names order).keepsSource choice place = true) :
    (fragments.needs names order).keepsCte choice k = true := by
  refine (keepsCte_iff hbranch hcut hcte).2 (or_iff_not_imp_left.2 fun hreason => ?_)
  push Not at hreason
  rcases hreason with ⟨place, hplace, hreason⟩
  exact ⟨place, hplace, h place hplace, Bool.eq_false_iff.2 hreason⟩

/-- A definition that follows sources is kept with one of them only. -/
theorem exists_followed_of_keepsCte {place : Nat} (hplace : branch.FollowedAt cte place)
    (h : (fragments.needs names order).keepsCte choice k = true) :
    ∃ place, branch.FollowedAt cte place ∧
      (fragments.needs names order).keepsSource choice place = true := by
  rcases (keepsCte_iff hbranch hcut hcte).1 h with halways | ⟨other, hother, hkept, -⟩
  · exact ⟨place, hplace, Needs.keepsSource_of_nothing (halways place hplace) choice⟩
  · exact ⟨other, hother, hkept⟩

end

end Fragments

/-! ## Annotated descriptions -/

/-- If one source of a dynamic query is all that reads a common table, and no other source has the
name that the definition of the common table follows, then under every choice the definition is kept
with whatever reads the common table. In any case it is kept with all the sources that it follows,
and with one of them only. -/
theorem describeAnnotated_keeps_cte {setting : Setting} {sql : String} {q : Select}
    {branch : Branch} {rest : List Branch} {d : Description} {needs : Needs}
    (hd : describeAnnotated setting sql (.select q) = .ok d) (hneeds : d.needs = some needs)
    (hbranch : q.branches = branch :: rest) {cte : Cte} {k : Nat} (hcte : q.ctes[k]? = some cte)
    (choice : Choice) :
    (∀ place, (∀ part, branch.ReadsCte part cte → part = .source place) →
      (∀ other, branch.FollowedAt cte other → other = place) →
        ∀ part, branch.ReadsCte part cte → needs.keeps choice part = true →
          needs.keepsCte choice k = true) ∧
    ((∀ place, branch.FollowedAt cte place → needs.keepsSource choice place = true) →
      needs.keepsCte choice k = true) ∧
    (needs.keepsCte choice k = true → ∀ place, branch.FollowedAt cte place →
      ∃ place, branch.FollowedAt cte place ∧ needs.keepsSource choice place = true) := by
  obtain ⟨plain, names, order, fragments, -, hcut, rfl⟩ := needs_of_described hd hneeds
  refine ⟨?_, ?_, ?_⟩
  · intro place hsole hname part hreads hkept
    refine Fragments.keepsCte_of_followed hbranch hcut hcte fun other hother => ?_
    rw [hname other hother]
    rw [hsole part hreads] at hkept
    exact hkept
  · exact Fragments.keepsCte_of_followed hbranch hcut hcte
  · intro h place hplace
    exact Fragments.exists_followed_of_keepsCte hbranch hcut hcte hplace h

/-- Exactly when a dynamic query keeps a definition: if all the sources that the definition follows are
kept whatever is chosen, or with one of them that is not. -/
theorem describeAnnotated_cte_kept_iff {setting : Setting} {sql : String} {q : Select}
    {branch : Branch} {rest : List Branch} {d : Description} {needs : Needs}
    (hd : describeAnnotated setting sql (.select q) = .ok d) (hneeds : d.needs = some needs)
    (hbranch : q.branches = branch :: rest) {cte : Cte} {k : Nat} (hcte : q.ctes[k]? = some cte)
    (choice : Choice) :
    needs.keepsCte choice k = true ↔
      (∀ place, branch.FollowedAt cte place → needs.keepsSource .nothing place = true) ∨
      ∃ place, branch.FollowedAt cte place ∧ needs.keepsSource choice place = true ∧
        needs.keepsSource .nothing place = false := by
  rcases needs_of_described hd hneeds with ⟨plain, names, order, fragments, -, hcut, rfl⟩
  exact Fragments.keepsCte_iff hbranch hcut hcte

/-- A definition that follows one source is kept with all its readers under every choice exactly if
each of them keeps that source. -/
theorem describeAnnotated_keeps_readers_iff {setting : Setting} {sql : String} {q : Select}
    {branch : Branch} {rest : List Branch} {d : Description} {needs : Needs}
    (hd : describeAnnotated setting sql (.select q) = .ok d) (hneeds : d.needs = some needs)
    (hbranch : q.branches = branch :: rest) {cte : Cte} {k : Nat} (hcte : q.ctes[k]? = some cte)
    {place : Nat} (hplace : ∀ other, branch.FollowedAt cte other ↔ other = place) :
    (∀ choice part, branch.ReadsCte part cte → needs.keeps choice part = true →
        needs.keepsCte choice k = true) ↔
      ∀ choice part, branch.ReadsCte part cte → needs.keeps choice part = true →
        needs.keepsSource choice place = true := by
  rcases needs_of_described hd hneeds with ⟨plain, names, order, fragments, -, hcut, rfl⟩
  have hfollows : ∀ choice, (fragments.needs names order).keepsCte choice k = true ↔
      (fragments.needs names order).keepsSource choice place = true := by
    intro choice
    constructor
    · intro h
      rcases Fragments.exists_followed_of_keepsCte hbranch hcut hcte ((hplace place).2 rfl) h with
        ⟨other, hother, hkept⟩
      rwa [(hplace other).1 hother] at hkept
    · intro h
      refine Fragments.keepsCte_of_followed hbranch hcut hcte fun other hother => ?_
      rwa [(hplace other).1 hother]
  simp only [hfollows]

/-! ## Small numbers -/

/-- `small AS (SELECT id FROM numbers)`. -/
def smallNumbers : Cte :=
  ⟨"small", ⟨[], [⟨false, [.expr (.column ⟨none, "id"⟩) none], [.table "numbers" none], [], none,
    [], none⟩], [], none⟩⟩

/-- `INNER JOIN small name ON name.id = m.id`. -/
def smallJoin (name : String) : Join :=
  ⟨.inner, .table "small" (some name),
    .predicate (.compare .eq (.column ⟨some name, "id"⟩) (.column ⟨some "m", "id"⟩))⟩

/-- `SELECT m.name, a.id, b.id, ... FROM names m INNER JOIN small a ON a.id = m.id
INNER JOIN small b ON b.id = m.id ...`, with an item and a join for each of the given names. -/
def namesOfSmall (aliases : List String) : Branch :=
  ⟨false, .expr (.column ⟨some "m", "name"⟩) none ::
      aliases.map fun name => .expr (.column ⟨some name, "id"⟩) none,
    [.table "names" (some "m")], aliases.map smallJoin, none, [], none⟩

/-- The small numbers, joined once, are defined if the item that reads them is selected, and not
without it. -/
theorem describeAnnotated_keeps_cte_namesOfSmall :
    ∃ d needs, describeAnnotated ⟨numberTables, .mysql⟩ dynamicText
        (.select ⟨[smallNumbers], [namesOfSmall ["a"]], [], none⟩) = .ok d ∧
      d.needs = some needs ∧ needs.keeps ⟨[0, 1], [], []⟩ (.source 1) = true ∧
      needs.keepsCte ⟨[0, 1], [], []⟩ 0 = true ∧ needs.keepsCte ⟨[0], [], []⟩ 0 = false := by
  obtain ⟨d, hd⟩ := exists_of_isOk (x := describeAnnotated ⟨numberTables, .mysql⟩ dynamicText
    (.select ⟨[smallNumbers], [namesOfSmall ["a"]], [], none⟩)) (by decide +kernel)
  have hkeeps : (describeAnnotated ⟨numberTables, .mysql⟩ dynamicText
      (.select ⟨[smallNumbers], [namesOfSmall ["a"]], [], none⟩)).toOption.any (fun d =>
        d.needs.any fun needs => needs.keeps ⟨[0, 1], [], []⟩ (.source 1) &&
          !needs.keepsCte ⟨[0], [], []⟩ 0) = true := by decide +kernel
  simp only [hd, Except.toOption, Option.any_some] at hkeeps
  obtain ⟨needs, hneeds, hkeeps⟩ := (Option.any_eq_true _ _).1 hkeeps
  obtain ⟨hkept, hleft⟩ := Bool.and_eq_true_iff.1 hkeeps
  -- no part but the join reads the small numbers
  have hsole : ∀ part, (namesOfSmall ["a"]).ReadsCte part smallNumbers → part = .source 1 := by
    rintro part ⟨table, htable, hname⟩
    match part with
    | .source 0 =>
      obtain rfl : table = "names" := List.mem_singleton.1 htable
      exact absurd hname (by decide)
    | .source 1 => rfl
    | .source (_ + 2) => nomatch htable
    | .item 0 | .item 1 | .item (_ + 2) => nomatch htable
    | .condition _ => nomatch htable
  -- and no source but the join is followed for them
  have hfollows : ∀ other, (namesOfSmall ["a"]).FollowedAt smallNumbers other → other = 1 := by
    rintro other ⟨source, hsource, hlabel⟩
    match other with
    | 0 =>
      cases hsource
      exact absurd hlabel (by decide)
    | 1 => rfl
    | _ + 2 => nomatch hsource
  have hcte : [smallNumbers][0]? = some smallNumbers := rfl
  obtain ⟨hreader, -, -⟩ := describeAnnotated_keeps_cte hd hneeds rfl hcte ⟨[0, 1], [], []⟩
  have hdefined := hreader 1 hsole hfollows (.source 1) (by decide) hkept
  exact ⟨d, needs, hd, hneeds, hkept, hdefined, by simpa using hleft⟩

/-- Joined twice, the small numbers are defined for the first join only: with the items `m.name` and
`b.id` the second join is kept, and the definition is not. -/
theorem second_reader_loses_cte :
    (namesOfSmall ["a", "b"]).ReadsCte (.source 2) smallNumbers ∧
      (describeAnnotated ⟨numberTables, .mysql⟩ dynamicText
        (.select ⟨[smallNumbers], [namesOfSmall ["a", "b"]], [], none⟩)).toOption.any (fun d =>
          d.needs.any fun needs => needs.keeps ⟨[0, 2], [], []⟩ (.source 2) &&
            !needs.keepsCte ⟨[0, 2], [], []⟩ 0) = true := by
  decide +kernel

end QuerySignature
