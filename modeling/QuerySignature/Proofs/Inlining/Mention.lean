import QuerySignature.Analysis.Output
import QuerySignature.Proofs.Walk.Tables

namespace QuerySignature

/-! # Mentions of a common table

A common table that a FROM clause mentions can stand there as a derived table instead, under the alias
of the mention or under its own name.

- `Branch.inlined`: a branch with a common table in the place of its mentions.
- `exists_spot`: a source that is mentioned once, with nothing else that changes around it.
-/

/-! ## Inlining -/

/-- Whether a source is a mention of a common table. -/
def Source.mentions (c : Cte) : Source → Bool
  | .table name _ => sameName c.name (lastSegment name)
  | .derived _ _ => false

/-- The alias of a mention, or the name of the common table if it has none. -/
def Cte.aliasOf (c : Cte) (aliasName : Option String) : String :=
  if (aliasName.getD "").isEmpty then c.name else aliasName.getD ""

/-- A source, with the common table in its place if it is a mention of it. -/
def Source.inlined (c : Cte) : Source → Source
  | .table name aliasName =>
    if sameName c.name (lastSegment name) then .derived c.query (c.aliasOf aliasName)
    else .table name aliasName
  | .derived query aliasName => .derived query aliasName

/-- A join, with the common table in the place of a mention. -/
def Join.inlined (c : Cte) (j : Join) : Join := { j with source := j.source.inlined c }

/-- A branch, with the common table in the place of its mentions in the FROM clause. -/
def Branch.inlined (c : Cte) (b : Branch) : Branch :=
  { b with sources := b.sources.map (Source.inlined c), joins := b.joins.map (Join.inlined c) }

/-! ## Places -/

/-- A place for a source, among the listed or among the joined sources. -/
inductive Spot where
  | listed (before after : List Source) (joins : List Join)
  | joined (sources : List Source) (before : List Join) (kind : JoinKind)
      (condition : JoinCondition) (after : List Join)

namespace Spot

/-- The listed sources, with a source at the place. -/
def sources (x : Source) : Spot → List Source
  | listed before after _ => before ++ x :: after
  | joined sources _ _ _ _ => sources

/-- The joins, with a source at the place. -/
def joins (x : Source) : Spot → List Join
  | listed _ _ joins => joins
  | joined _ before kind condition after => before ++ ⟨kind, x, condition⟩ :: after

/-- The tables that are read around the place. -/
def tables : Spot → List String
  | listed before after joins =>
    tablesOfSources before ++ tablesOfSources after ++ tablesOfJoins joins
  | joined sources before _ condition after =>
    tablesOfSources sources ++ tablesOfJoins before ++ condition.tables ++ tablesOfJoins after

end Spot

/-- A source of a branch stands at a place. -/
theorem exists_spot {b : Branch} {x : Source} (hx : x ∈ b.sources ++ b.joins.map Join.source) :
    ∃ spot : Spot, b.sources = spot.sources x ∧ b.joins = spot.joins x := by
  rcases List.mem_append.1 hx with hx | hx
  · -- the source is listed
    obtain ⟨before, after, hsources⟩ := List.append_of_mem hx
    exact ⟨.listed before after b.joins, hsources, rfl⟩
  · -- the source is joined
    obtain ⟨⟨kind, source, condition⟩, hj, rfl⟩ := List.mem_map.1 hx
    obtain ⟨before, after, hjoins⟩ := List.append_of_mem hj
    exact ⟨.joined b.sources before kind condition after, rfl, hjoins⟩

theorem tablesOfSources_append (xs ys : List Source) :
    tablesOfSources (xs ++ ys) = tablesOfSources xs ++ tablesOfSources ys := by
  induction xs with
  | nil => rfl
  | cons x rest ih =>
    rw [List.cons_append, tablesOfSources, tablesOfSources, ih, List.append_assoc]

theorem tablesOfJoins_append (xs ys : List Join) :
    tablesOfJoins (xs ++ ys) = tablesOfJoins xs ++ tablesOfJoins ys := by
  induction xs with
  | nil => rfl
  | cons j rest ih =>
    rcases j with ⟨kind, source, condition⟩
    rw [List.cons_append, tablesOfJoins, tablesOfJoins, ih]
    simp only [List.append_assoc]

/-- A FROM clause reads the tables of a source and those around it. -/
theorem Spot.countP_tables (spot : Spot) (x : Source) (p : String → Bool) :
    (tablesOfSources (spot.sources x) ++ tablesOfJoins (spot.joins x)).countP p =
      x.tables.countP p + spot.tables.countP p := by
  cases spot with
  | listed before after joins =>
    simp only [Spot.sources, Spot.joins, Spot.tables, tablesOfSources_append, tablesOfSources,
      List.countP_append]
    omega
  | joined sources before kind condition after =>
    simp only [Spot.sources, Spot.joins, Spot.tables, tablesOfJoins_append, tablesOfJoins,
      List.countP_append]
    omega

/-- Whether there are listed sources does not depend on which source stands at the place. -/
theorem Spot.isEmpty_sources (spot : Spot) (x y : Source) :
    (spot.sources x).isEmpty = (spot.sources y).isEmpty := by
  cases spot with
  | listed before after joins =>
    cases before with
    | nil => rfl
    | cons first rest => rfl
  | joined sources before kind condition after => rfl

/-! ## What does not change -/

/-- Tables among which there is no mention of a common table. -/
def Unmentioned (c : Cte) (tables : List String) : Prop :=
  ∀ t ∈ tables, sameName c.name (lastSegment t) = false

section

variable {c : Cte}

theorem unmentioned_append {first second : List String} :
    Unmentioned c (first ++ second) ↔ Unmentioned c first ∧ Unmentioned c second :=
  List.forall_mem_append

theorem Source.inlined_eq {x : Source} (h : Unmentioned c x.tables) : x.inlined c = x := by
  cases x with
  | derived query aliasName => rfl
  | table name aliasName =>
    have hname : sameName c.name (lastSegment name) = false := h name (List.mem_singleton.2 rfl)
    unfold Source.inlined
    simp only [hname, Bool.false_eq_true, if_false]

theorem map_inlined_sources {xs : List Source} (h : Unmentioned c (tablesOfSources xs)) :
    xs.map (Source.inlined c) = xs := by
  induction xs with
  | nil => rfl
  | cons x rest ih =>
    obtain ⟨hx, hrest⟩ := unmentioned_append.1 h
    rw [List.map_cons, Source.inlined_eq hx, ih hrest]

theorem map_inlined_joins {js : List Join} (h : Unmentioned c (tablesOfJoins js)) :
    js.map (Join.inlined c) = js := by
  induction js with
  | nil => rfl
  | cons j rest ih =>
    rcases j with ⟨kind, source, condition⟩
    obtain ⟨hj, hrest⟩ := unmentioned_append.1 h
    have hsource := Source.inlined_eq (unmentioned_append.1 hj).1
    rw [List.map_cons, ih hrest, Join.inlined, hsource]

/-- Only the source at the place changes, if nothing around it mentions the common table. -/
theorem Spot.map_inlined {spot : Spot} (h : Unmentioned c spot.tables) (x : Source) :
    (spot.sources x).map (Source.inlined c) = spot.sources (x.inlined c) ∧
      (spot.joins x).map (Join.inlined c) = spot.joins (x.inlined c) := by
  cases spot with
  | listed before after joins =>
    obtain ⟨hlisted, hjoins⟩ := unmentioned_append.1 h
    obtain ⟨hbefore, hafter⟩ := unmentioned_append.1 hlisted
    refine ⟨?_, map_inlined_joins hjoins⟩
    simp only [Spot.sources, List.map_append, List.map_cons, map_inlined_sources hbefore,
      map_inlined_sources hafter]
  | joined sources before kind condition after =>
    obtain ⟨h, hafter⟩ := unmentioned_append.1 h
    obtain ⟨h, -⟩ := unmentioned_append.1 h
    obtain ⟨hsources, hbefore⟩ := unmentioned_append.1 h
    refine ⟨map_inlined_sources hsources, ?_⟩
    simp only [Spot.joins, List.map_append, List.map_cons, map_inlined_joins hbefore,
      map_inlined_joins hafter, Join.inlined]

end

/-! ## A FROM clause of one table -/

theorem readsOneTable_eq_true {sources : List Source} {joins : List Join}
    (h : readsOneTable sources joins = true) :
    ∃ name aliasName, sources = [.table name aliasName] ∧ joins = [] := by
  unfold readsOneTable at h
  split at h
  · exact ⟨_, _, rfl, rfl⟩
  · exact absurd h Bool.false_ne_true

/-- A FROM clause that reads one table alone reads nothing around it. -/
theorem Spot.eq_of_readsOneTable {spot : Spot} {x : Source}
    (h : readsOneTable (spot.sources x) (spot.joins x) = true) :
    spot = .listed [] [] [] ∧ ∃ name aliasName, x = .table name aliasName := by
  obtain ⟨name, aliasName, hsources, hjoins⟩ := readsOneTable_eq_true h
  cases spot with
  | listed before after joins =>
    obtain rfl : joins = [] := hjoins
    have hsole : before ++ x :: after = [.table name aliasName] := hsources
    rcases List.append_eq_singleton_iff.1 hsole with ⟨rfl, hrest⟩ | ⟨-, hrest⟩
    · cases hrest
      exact ⟨rfl, name, aliasName, rfl⟩
    · cases hrest
  | joined sources before kind condition after =>
    exact absurd hjoins (List.append_ne_nil_of_right_ne_nil _ (List.cons_ne_nil _ _))

/-! ## One mention -/

/-- The tables that a query of one branch reads behind its FROM clause. -/
def restTables (b : Branch) (order : List OrderTerm) (limit : Option Limit) : List String :=
  tablesOfItems b.items ++ tablesOfSome b.criteria ++ tablesOfAll b.group ++
    tablesOfSome b.having ++ tablesOfOrder order ++ tablesOfLimit limit

/-- Two branches that differ at most in their FROM clauses. -/
structure Branch.SameBehindFrom (b b' : Branch) : Prop where
  items : b'.items = b.items
  criteria : b'.criteria = b.criteria
  group : b'.group = b.group
  having : b'.having = b.having

/-- A branch with a mention of a common table at a place, and the branch with a derived table there. The
query mentions the common table nowhere else. -/
structure InlinedAt (c : Cte) (order : List OrderTerm) (limit : Option Limit) (b b' : Branch)
    (spot : Spot) (name : String) (aliasName : Option String) : Prop where
  named : sameName c.name (lastSegment name) = true
  sources : b.sources = spot.sources (.table name aliasName)
  joins : b.joins = spot.joins (.table name aliasName)
  sources' : b'.sources = spot.sources (.derived c.query (c.aliasOf aliasName))
  joins' : b'.joins = spot.joins (.derived c.query (c.aliasOf aliasName))
  same : b.SameBehindFrom b'
  around : Unmentioned c spot.tables
  behind : Unmentioned c (restTables b order limit)

/-- How often a query of one branch mentions a common table, in its FROM clause and anywhere else. -/
def mentionsOf (c : Cte) (b : Branch) (order : List OrderTerm) (limit : Option Limit) : Nat :=
  (b.tables ++ tablesOfOrder order ++ tablesOfLimit limit).countP fun t =>
    sameName c.name (lastSegment t)

theorem mentionsOf_eq (c : Cte) {b : Branch} (order : List OrderTerm) (limit : Option Limit)
    {spot : Spot} {x : Source} (hsources : b.sources = spot.sources x)
    (hjoins : b.joins = spot.joins x) :
    mentionsOf c b order limit =
      x.tables.countP (fun t => sameName c.name (lastSegment t)) +
        spot.tables.countP (fun t => sameName c.name (lastSegment t)) +
        (restTables b order limit).countP fun t => sameName c.name (lastSegment t) := by
  have hclause := spot.countP_tables x fun t => sameName c.name (lastSegment t)
  rw [← hsources, ← hjoins] at hclause
  rcases b with ⟨distinct, items, sources, joins, criteria, group, having⟩
  unfold mentionsOf restTables Branch.tables
  simp only [List.countP_append] at hclause ⊢
  omega

theorem unmentioned_of_countP {c : Cte} {tables : List String}
    (h : (tables.countP fun t => sameName c.name (lastSegment t)) = 0) : Unmentioned c tables :=
  fun t ht => Bool.eq_false_iff.2 (List.countP_eq_zero.1 h t ht)

/-- A query that mentions a common table once, in the FROM clause of its branch, mentions it at a
place. -/
theorem exists_inlinedAt {c : Cte} {b : Branch} {order : List OrderTerm} {limit : Option Limit}
    (honce : mentionsOf c b order limit = 1)
    (hmention : ∃ x ∈ b.sources ++ b.joins.map Join.source, x.mentions c = true) :
    ∃ spot name aliasName, InlinedAt c order limit b (b.inlined c) spot name aliasName := by
  obtain ⟨x, hx, hmentions⟩ := hmention
  obtain ⟨spot, hsources, hjoins⟩ := exists_spot hx
  cases x with
  | derived query aliasName => exact absurd hmentions Bool.false_ne_true
  | table name aliasName =>
    have hnamed : sameName c.name (lastSegment name) = true := hmentions
    have hsole : ([name].countP fun t => sameName c.name (lastSegment t)) = 1 := by
      simp [hnamed]
    -- the mention at the place is the one that is counted
    have hcount := mentionsOf_eq c order limit hsources hjoins
    rw [honce, Source.tables, hsole] at hcount
    have haround : Unmentioned c spot.tables := unmentioned_of_countP (by omega)
    have hinlined : (Source.table name aliasName).inlined c =
        .derived c.query (c.aliasOf aliasName) := if_pos hnamed
    obtain ⟨hmapSources, hmapJoins⟩ := Spot.map_inlined haround (.table name aliasName)
    rw [hinlined, ← hsources] at hmapSources
    rw [hinlined, ← hjoins] at hmapJoins
    exact ⟨spot, name, aliasName, hnamed, hsources, hjoins, hmapSources, hmapJoins,
      ⟨rfl, rfl, rfl, rfl⟩, haround, unmentioned_of_countP (by omega)⟩

end QuerySignature
