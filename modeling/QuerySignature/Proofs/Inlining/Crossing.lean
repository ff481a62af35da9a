import QuerySignature.Proofs.Abreast.Walk
import QuerySignature.Proofs.Behind.Steps
import QuerySignature.Proofs.Inlining.Exchange
import QuerySignature.Proofs.Inlining.Mention
import QuerySignature.Proofs.Inlining.Rest
import QuerySignature.Proofs.Sources.Place

namespace QuerySignature

/-! # A query before or behind a FROM clause

A common table is analysed before the FROM clause that mentions it, a derived table in its midst. The
query and what stands before the mention know nothing of each other, so that both orders come to the
same, and from the mention on the two walks go abreast.

- `Spot.outcome_inferFrom`: the walk over a FROM clause, taken apart at one of its sources.
- `Abreast.readBefore`, `Abreast.readAfter`: the two parts go abreast.
- `Run.Sound.readBefore`: what the first part speaks of has been made.
- `Crossing`: the two walks where they have come to the mention.
- `Crossing.pasts`: they go abreast from there on.
- `Crossing.inEitherOrder`, `Crossing.placeholders`: what they have collected, in either order.
-/

/-! ## A place in a FROM clause -/

namespace Spot

/-- Reads what stands before the place. -/
def readBefore (setting : Setting) : Spot → Analyze Sources
  | listed before _ _ => inferSources setting .empty before
  | joined sources before _ _ _ => do
    let listed ← inferSources setting .empty sources
    inferJoins setting [] listed (Sources.lastName sources) before

/-- Reads what stands behind the place, once the columns of the source there are known. -/
def readAfter (setting : Setting) (x : Source) (done : Sources) (columns : Level) :
    Spot → Analyze Sources
  | listed before after joins => do
    let listed ← inferSources setting (done.add x columns) after
    inferJoins setting [] listed (Sources.lastName (before ++ x :: after)) joins
  | joined sources before kind condition after => do
    inferCondition setting ⟨done.columns ++ columns, []⟩ condition
    let previous := lastJoined (Sources.lastName sources) before
    inferJoins setting [] (done.join [] previous kind x condition columns) x.visibleName after

/-- The walk over a FROM clause, taken apart at a place. -/
theorem outcome_inferFrom (setting : Setting) {b : Branch} {spot : Spot} {x : Source}
    (hsources : b.sources = spot.sources x) (hjoins : b.joins = spot.joins x) (r : Run) :
    (inferFrom setting [] b).outcome r =
      ((spot.readBefore setting).outcome r).bind fun done =>
      ((inferSource setting x).outcome done.2).bind fun level =>
        (spot.readAfter setting x done.1 level.1).outcome level.2 := by
  unfold inferFrom
  rw [hsources, hjoins, Analyze.outcome_bind]
  cases spot with
  | listed before after joins =>
    unfold Spot.sources Spot.joins readBefore readAfter
    simp only [outcome_inferSources_append, outcome_inferSources_cons, bind_bind,
      Analyze.outcome_bind]
  | joined sources before kind condition after =>
    unfold Spot.sources Spot.joins readBefore readAfter
    simp only [outcome_inferJoins_append, outcome_inferJoins_cons, bind_bind, Analyze.outcome_bind]

end Spot

/-! ## Abreast -/

namespace Abreast

open Parallel (Reads reads_append)

variable {P : Pasts} {T : String → Prop} {setting : Setting} {spot : Spot}

theorem readBefore (ht : Reads T spot.tables) :
    Abreast P T (Sources.Abreast P) (spot.readBefore setting) (spot.readBefore setting) := by
  have hempty : Sources.Abreast P .empty .empty := List.Forall₂.nil
  cases spot with
  | listed before after joins =>
    obtain ⟨htListed, -⟩ := reads_append ht
    obtain ⟨htBefore, -⟩ := reads_append htListed
    exact sourceList setting before htBefore hempty
  | joined sources before kind condition after =>
    obtain ⟨ht, -⟩ := reads_append ht
    obtain ⟨ht, -⟩ := reads_append ht
    obtain ⟨htSources, htBefore⟩ := reads_append ht
    refine bind (sourceList setting sources htSources hempty) fun listed listed' hlisted => ?_
    exact joinList setting before htBefore .nil hlisted _ _

/-- What stands behind the place, after sources whose columns stand for one another. -/
theorem readAfter (ht : Reads T spot.tables) (x x' : Source) {done done' : Sources}
    (hdone : done.Abreast P done') {l l' : Level} (hl : P.Levels l l') :
    Abreast P T (Sources.Abreast P) (spot.readAfter setting x done l)
      (spot.readAfter setting x' done' l') := by
  cases spot with
  | listed before after joins =>
    obtain ⟨htListed, htJoins⟩ := reads_append ht
    obtain ⟨-, htAfter⟩ := reads_append htListed
    refine bind (sourceList setting after htAfter (hdone.add x x' hl)) fun listed listed' hlisted => ?_
    exact joinList setting joins htJoins .nil hlisted _ _
  | joined sources before kind condition after =>
    obtain ⟨ht, htAfter⟩ := reads_append ht
    obtain ⟨-, htCondition⟩ := reads_append ht
    have hscope : Scope.Related P.Columns ⟨done.columns ++ l, []⟩ ⟨done'.columns ++ l', []⟩ :=
      ⟨List.rel_append hdone hl, .nil⟩
    refine bind (Abreast.condition setting condition htCondition hscope) fun _ _ _ => ?_
    exact joinList setting after htAfter .nil (hdone.join [] [] _ _ kind x x' condition hl) _ _

end Abreast

/-- What stands before a place leads from a sound run to a sound run, and shows columns whose variables
have been made. -/
theorem Run.Sound.readBefore {made : List TypeInfo} {r s : Run} (h : r.Sound made)
    {setting : Setting} {spot : Spot} {done : Sources}
    (hs : (spot.readBefore setting).outcome r = .ok (done, s)) :
    ∃ made', s.Sound made' ∧ s.ctes = r.ctes ∧ done.Matches .none made' done := by
  cases spot with
  | listed before after joins =>
    obtain ⟨made', -, hsound, -, hctes, hdone⟩ := h.sources (.empty made) hs
    exact ⟨made', hsound, hctes, hdone⟩
  | joined sources before kind condition after =>
    unfold Spot.readBefore at hs
    rw [Analyze.outcome_bind] at hs
    rcases bind_eq_ok.1 hs with ⟨⟨listed, t⟩, hsources, hjoins⟩
    obtain ⟨made₁, -, hsound₁, -, hctes₁, hlisted⟩ := h.sources (.empty made) hsources
    obtain ⟨made₂, -, hsound₂, -, hctes₂, hdone⟩ := hsound₁.joins nothing_outer hlisted hjoins
    exact ⟨made₂, hsound₂, hctes₂.trans hctes₁, hdone⟩

/-! ## Up to the mention -/

/-- A run that knows a common table. -/
def Run.knowing (r : Run) (c : Cte) (q : QueryResult) : Run :=
  { r with ctes := (c.name, levelOf c.name q.columns) :: r.ctes }

section Alone

variable {setting : Setting}

/-- A query is analysed behind a run without common tables as where nothing has happened. -/
theorem query_behind (q : Select) {lead : Run} (hlead : lead.ctes = []) :
    Alike (Arrived (.moved lead) (QueryResult.Abreast (.moved lead)) .start lead)
      ((inferQuery setting [] q).outcome .start) ((inferQuery setting [] q).outcome lead) := by
  have hquery : Abreast (.moved lead) (fun _ => True) (QueryResult.Abreast (.moved lead))
      (inferQuery setting [] q) (inferQuery setting [] q) :=
    .query setting q (Parallel.reads_all _) .nil
  exact hquery .start lead (.start _) fun name _ => (Run.Ahead.start hlead).seesAlike name

/-- What stands before a place is read where a common table is known as where nothing has happened, when
nothing around the place mentions the common table. -/
theorem before_behind {c : Cte} {spot : Spot} (hspot : Unmentioned c spot.tables)
    (query : QueryResult) {own : Run} (hown : own.ctes = []) :
    Alike (Arrived (.moved (own.knowing c query))
        (Sources.Abreast (.moved (own.knowing c query))) .start (own.knowing c query))
      ((spot.readBefore setting).outcome .start)
      ((spot.readBefore setting).outcome (own.knowing c query)) := by
  have hbefore : Abreast (.moved (own.knowing c query)) (fun name => sameName c.name name = false)
      (Sources.Abreast (.moved (own.knowing c query))) (spot.readBefore setting)
      (spot.readBefore setting) :=
    .readBefore hspot
  refine hbefore .start (own.knowing c query) (.start _) fun name hname => ?_
  unfold Pasts.SeesAlike Run.knowing
  rw [Run.cte?_declare, hname]
  unfold Run.cte?
  rw [hown]
  exact .none

end Alone

/-- The columns of a common table, as a mention shows them under its alias. -/
def Cte.mentioned (c : Cte) (query : QueryResult) (aliasName : Option String) : Level :=
  (levelOf c.name query.columns).map fun column => { column with aliasName := aliasName.getD "" }

/-- A query and what stands before a place in a FROM clause, in either order: where nothing has
happened, and behind the other one. -/
structure Crossing (setting : Setting) (c : Cte) (spot : Spot) where
  query : QueryResult
  own : Run
  queryOk : (inferQuery setting [] c.query).outcome .start = .ok (query, own)
  before : Sources
  lead : Run
  beforeOk : (spot.readBefore setting).outcome .start = .ok (before, lead)
  beforeBehind : Sources
  run : Run
  beforeBehindOk :
    (spot.readBefore setting).outcome (own.knowing c query) = .ok (beforeBehind, run)
  queryBehind : QueryResult
  run' : Run
  queryBehindOk : (inferQuery setting [] c.query).outcome lead = .ok (queryBehind, run')
  queries : Arrived (.moved lead) (QueryResult.Abreast (.moved lead)) .start lead (query, own)
    (queryBehind, run')
  befores : Arrived (.moved (own.knowing c query))
    (Sources.Abreast (.moved (own.knowing c query))) .start (own.knowing c query) (before, lead)
    (beforeBehind, run)
  ownClosed : own.Closed
  leadClosed : lead.Closed
  queryMade : ∀ column ∈ query.columns, column.var.id ≤ own.issued
  beforeMade : ∀ column ∈ before.columns, column.var.id ≤ lead.issued

/-- What can be analysed in one order can be analysed in the other. -/
theorem exists_crossing {setting : Setting} {c : Cte} {spot : Spot}
    (hspot : Unmentioned c spot.tables) {query : QueryResult} {own : Run}
    (hquery : (inferQuery setting [] c.query).outcome .start = .ok (query, own)) {before : Sources}
    {lead : Run} (hbefore : (spot.readBefore setting).outcome .start = .ok (before, lead)) :
    Nonempty (Crossing setting c spot) := by
  obtain ⟨made, -, hsound, -, hctes, hmade⟩ := Run.Sound.start.query nothing_outer hquery
  obtain ⟨made', hsound', hctes', hmade'⟩ := Run.Sound.start.readBefore hbefore
  obtain ⟨⟨queryBehind, run'⟩, hrun', hqueries⟩ := (query_behind c.query hctes').of_ok hquery
  obtain ⟨⟨beforeBehind, run⟩, hrun, hbefores⟩ :=
    (before_behind hspot query hctes).of_ok hbefore
  have hqueryMade : ∀ column ∈ query.columns, column.var.id ≤ own.issued := by
    intro column hcolumn
    obtain ⟨_, -, hpair⟩ := exists_partner hmade.flip hcolumn
    rw [hsound.issued]
    exact hpair.var.issued.le
  have hbeforeMade : ∀ column ∈ before.columns, column.var.id ≤ lead.issued := by
    intro column hcolumn
    rw [hsound'.issued]
    exact (hmade'.issued column hcolumn).le
  exact ⟨⟨query, own, hquery, before, lead, hbefore, beforeBehind, run, hrun, queryBehind, run',
    hrun', hqueries, hbefores, hsound.within, hsound'.within, hqueryMade, hbeforeMade⟩⟩

namespace Crossing

variable {setting : Setting} {c : Cte} {spot : Spot} (x : Crossing setting c spot)

theorem run_issued : x.run.issued = x.own.issued + x.lead.issued := by
  obtain ⟨k, hk, hk'⟩ := x.befores.runs.issued
  have hlead : x.lead.issued = 0 + k := hk
  have hrun : x.run.issued = x.own.issued + k := hk'
  omega

theorem run'_issued : x.run'.issued = x.own.issued + x.lead.issued := by
  obtain ⟨k, hk, hk'⟩ := x.queries.runs.issued
  have hown : x.own.issued = 0 + k := hk
  have hrun : x.run'.issued = x.lead.issued + k := hk'
  omega

/-- The two walks where they have come to the place. -/
def pasts : Pasts where
  toPairing := .byLooks (exchange x.own.issued x.lead.issued)
  first := x.run
  second := x.run'
  later k := by
    show exchange _ _ (x.run.issued + k + 1) = x.run'.issued + k + 1
    rw [x.run_issued, x.run'_issued]
    exact exchange_beyond (by omega)

/-- What stands before the place shows columns that look alike. -/
theorem sources : Sources.Abreast x.pasts x.beforeBehind x.before := by
  have hpairs : List.Forall₂ (SourceColumn.Behind x.own.issued) x.before.columns
      x.beforeBehind.columns := x.befores.values
  refine (((List.forall₂_and_left _ _).2 ⟨x.beforeMade, hpairs⟩).imp fun _ _ h => ?_).flip
  exact ((Pairing.moved _).looksLike h.2).second h.1

/-- The columns of the common table under the alias of a mention look like those of the derived
table. -/
theorem levels (aliasName : Option String) :
    x.pasts.Levels (c.mentioned x.query aliasName)
      (levelOf (c.aliasOf aliasName) x.queryBehind.columns) := by
  have hpairs : List.Forall₂ (OutputColumn.Abreast (.moved x.lead)) x.query.columns
      x.queryBehind.columns := x.queries.values
  unfold Cte.mentioned levelOf
  rw [List.map_map]
  refine List.rel_map (fun o o' h => ?_) ((List.forall₂_and_left _ _).2 ⟨x.queryMade, hpairs⟩)
  obtain ⟨hmade, hpair⟩ := h
  have hvar : o.var.asProjected.Paired (· + x.lead.issued) o'.var.asProjected :=
    hpair.var.asProjected
  -- the alias is shown for the mention, and is the table of the derived columns
  refine ⟨hpair.name, ?_, hpair.notNull, rfl, hvar.info, fun _ => hvar.first hmade⟩
  unfold SourceColumn.visibleTable Cte.aliasOf
  simp [OutputColumn.asSource]

/-- Under other names than that of the common table, both walks see the same. -/
theorem seesAlike (name : String) (hname : sameName c.name name = false) :
    x.pasts.SeesAlike x.pasts.first x.pasts.second name := by
  have hknown : x.run.ctes = (c.name, levelOf c.name x.query.columns) :: x.own.ctes :=
    x.befores.ctes'
  have hown : x.own.ctes = [] := x.queries.ctes
  have hrun' : x.run'.ctes = [] := x.queries.ctes'.trans x.befores.ctes
  have hnone : x.run.cte? name = none := by
    unfold Run.cte?
    rw [hknown, hown]
    simp [hname]
  show Option.Rel _ (x.run.cte? name) (x.run'.cte? name)
  rw [hnone, Run.cte?_of_nil hrun' name]
  exact .none

/-- Behind the query, a mention finds its columns. -/
theorem cte?_run {name : String} (hname : sameName c.name (lastSegment name) = true) :
    x.run.cte? (lastSegment name) = some (levelOf c.name x.query.columns) := by
  have hknown : x.run.ctes = (c.name, levelOf c.name x.query.columns) :: x.own.ctes :=
    x.befores.ctes'
  unfold Run.cte?
  rw [hknown]
  simp [hname]

/-- The constraints of both walks and of what follows the place. -/
theorem inEitherOrder {cs cs' added added' : List Constraint} (hcs : cs = x.run.constraints ++ added)
    (hcs' : cs' = x.run'.constraints ++ added')
    (hpairs : List.Forall₂ (Constraint.Paired x.pasts.number) added added') :
    ∃ a a' b b' k k', InEitherOrder x.own.issued x.lead.issued cs cs' a a' b b' k k' := by
  obtain ⟨own, behindLead, hown, hrun', hpairsOwn⟩ := x.queries.runs.constraints
  obtain ⟨lead, behindOwn, hlead, hrun, hpairsLead⟩ := x.befores.runs.constraints
  have hrunFirst : x.run.constraints = x.own.constraints ++ behindOwn := hrun
  have hrunSecond : x.run'.constraints = x.lead.constraints ++ behindLead := hrun'
  have hownFirst : x.own.constraints = own := hown
  have hleadFirst : x.lead.constraints = lead := hlead
  refine ⟨equationsOf x.own.constraints, equationsOf behindLead, equationsOf x.lead.constraints,
    equationsOf behindOwn, equationsOf added, equationsOf added', ?_, ?_, ?_, ?_, ?_,
    x.ownClosed, x.leadClosed⟩
  · rw [hcs, hrunFirst, equationsOf_append, equationsOf_append]
  · rw [hcs', hrunSecond, equationsOf_append, equationsOf_append]
  · rw [hownFirst]
    exact equationsOf_paired hpairsOwn
  · rw [hleadFirst]
    exact equationsOf_paired hpairsLead
  · exact equationsOf_paired hpairs

/-- The placeholders of both walks. -/
theorem placeholders {bound : Nat} (hbound : x.own.issued + x.lead.issued ≤ bound) :
    ∃ own' lead', x.run.placeholders = x.own.placeholders ++ lead' ∧
      x.run'.placeholders = x.lead.placeholders ++ own' ∧
      List.Forall₂ (Placeholder.Paired x.pasts.number bound) x.own.placeholders own' ∧
      List.Forall₂ (Placeholder.Paired x.pasts.number bound) lead' x.lead.placeholders := by
  obtain ⟨own, own', hown, hrun', hpairsOwn⟩ := x.queries.runs.placeholders
  obtain ⟨lead, lead', hlead, hrun, hpairsLead⟩ := x.befores.runs.placeholders
  have hownFirst : x.own.placeholders = own := hown
  have hleadFirst : x.lead.placeholders = lead := hlead
  refine ⟨own', lead', hrun, hrun', ?_, ?_⟩
  · rw [hownFirst]
    exact hpairsOwn.imp fun _ _ hp => hp.first (Nat.le_trans (Nat.le_add_right _ _) hbound)
  · rw [hleadFirst]
    exact (hpairsLead.imp fun _ _ hp => hp.second hbound).flip

end Crossing

end QuerySignature
