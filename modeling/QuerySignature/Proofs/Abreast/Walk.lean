import QuerySignature.Proofs.Abreast.Clauses
import QuerySignature.Proofs.Walk.Simulation

namespace QuerySignature

/-! # The walk abreast

Two walks over one expression or one query go abreast, from scopes whose columns stand for one another
and from runs that see alike the common tables that the text reads. The proof follows the walk: one case
for each form of expression and for each clause.

- `Abreast.expr`: for expressions.
- `Abreast.query`, `Abreast.branch`: for queries and their branches.
- `Abreast.sourceList`, `Abreast.joinList`: for the two parts of a FROM clause.
-/

namespace Abreast

open Parallel (Reads reads_append)

variable {P : Pasts}

mutual

theorem expr (setting : Setting) (e : Expr) {T : String → Prop} (ht : Reads T e.tables)
    {s s' : Scope} (hs : s.Related P.Columns s') :
    Abreast P T (Inferred.Compared P.likeness) (inferExpr setting s e) (inferExpr setting s' e) := by
  match e with
  | .literal value => exact (comparison P T).literal setting.profile value
  | .column c => exact column hs c
  | .parameter name => exact addPlaceholder name false
  | .paren inner => exact expr setting inner ht hs
  | .arithmetic op left right =>
    rcases reads_append ht with ⟨htl, htr⟩
    refine bind (expr setting left htl hs) fun l l' hl => ?_
    exact bind (expr setting right htr hs) fun r r' hr =>
      (comparison P T).arithmetic rfl hl hr
  | .compare op left right =>
    rcases reads_append ht with ⟨htl, htr⟩
    refine bind (expr setting left htl hs) fun l l' hl => ?_
    exact bind (expr setting right htr hs) fun r r' hr =>
      (comparison P T).compare setting rfl hl hr
  | .between negated value low high =>
    rcases reads_append ht with ⟨htvl, hth⟩
    rcases reads_append htvl with ⟨htv, htl⟩
    refine bind (expr setting value htv hs) fun v v' hv => ?_
    refine bind (expr setting low htl hs) fun l l' hl => ?_
    refine bind (expr setting high hth hs) fun h h' hh => ?_
    exact (comparison P T).between setting rfl hv hl hh
  | .inList negated value items =>
    rcases reads_append ht with ⟨htv, hti⟩
    refine bind (expr setting value htv hs) fun v v' hv => ?_
    refine bind ((comparison P T).forceNotNull hv) fun _ _ _ => ?_
    dsimp only
    -- a placeholder that is all of the list stands for a list
    cases soleParameter? items with
    | some name =>
      refine bind (addPlaceholder name true) fun p p' hp => ?_
      have hsole : Abreast P T (List.Forall₂ (Inferred.Compared P.likeness)) (Pure.pure [p])
          (Pure.pure [p']) := pure (.cons hp .nil)
      exact bind hsole fun es es' hes => (comparison P T).inList setting rfl hv hes
    | none =>
      refine bind (all setting items hti hs) fun es es' hes => ?_
      exact (comparison P T).inList setting rfl hv hes
  | .inQuery negated value q =>
    rcases reads_append ht with ⟨htv, htq⟩
    refine bind (expr setting value htv hs) fun v v' hv => ?_
    refine bind ((comparison P T).forceNotNull hv) fun _ _ _ => ?_
    refine bind (query setting q htq hs.levels) fun result result' hresult => ?_
    refine bind (firstColumn _ hresult) fun c c' hc => ?_
    exact (comparison P T).inQuery setting rfl hv hc
  | .like negated value pattern =>
    rcases reads_append ht with ⟨htv, htp⟩
    refine bind (expr setting value htv hs) fun v v' hv => ?_
    refine bind (expr setting pattern htp hs) fun p p' hp => ?_
    exact (comparison P T).like setting rfl hv hp
  | .isNull negated value =>
    exact bind (expr setting value ht hs) fun _ _ _ =>
      (comparison P T).predicate setting rfl
  | .and left right =>
    rcases reads_append ht with ⟨htl, htr⟩
    refine bind (expr setting left htl hs) fun _ _ _ => ?_
    exact bind (expr setting right htr hs) fun _ _ _ =>
      (comparison P T).predicate setting rfl
  | .or left right =>
    rcases reads_append ht with ⟨htl, htr⟩
    refine bind (expr setting left htl hs) fun _ _ _ => ?_
    exact bind (expr setting right htr hs) fun _ _ _ =>
      (comparison P T).predicate setting rfl
  | .not operand =>
    exact bind (expr setting operand ht hs) fun _ _ _ =>
      (comparison P T).predicate setting rfl
  | .call function distinct es =>
    refine bind (arguments setting es ht hs) fun es es' hes => ?_
    exact (comparison P T).call setting.profile rfl rfl rfl hes
  | .case operand branches otherwise =>
    rcases reads_append ht with ⟨htob, hte⟩
    rcases reads_append htob with ⟨hto, htb⟩
    refine bind (some setting operand hto hs) fun o o' ho => ?_
    -- the result is made before the branches, which are related to it
    refine bind (fresh _ _) fun v v' hv => ?_
    refine bind (caseBranches setting branches htb hs ho hv) fun b b' hb => ?_
    refine bind (caseElse setting otherwise hte hs hv) fun c c' hc => ?_
    rw [hb, hc]
    exact pure (.ofVar hv _)
  | .scalar q =>
    refine bind (query setting q ht hs.levels) fun result result' hresult => ?_
    refine bind (firstColumn _ hresult) fun c c' hc => ?_
    rw [hc.notNull]
    exact pure (.ofVar hc.var _)
  | .hasRows q =>
    exact bind (query setting q ht hs.levels) fun _ _ _ =>
      (comparison P T).predicate setting rfl
  | .star => exact throw _

theorem all (setting : Setting) (es : List Expr) {T : String → Prop} (ht : Reads T (tablesOfAll es))
    {s s' : Scope} (hs : s.Related P.Columns s') :
    Abreast P T (List.Forall₂ (Inferred.Compared P.likeness)) (inferAll setting s es)
      (inferAll setting s' es) := by
  match es with
  | [] => exact pure .nil
  | e :: rest =>
    rcases reads_append ht with ⟨hte, htr⟩
    refine bind (expr setting e hte hs) fun i i' hi => ?_
    exact bind (all setting rest htr hs) fun is is' his => pure (.cons hi his)

theorem arguments (setting : Setting) (es : List Expr) {T : String → Prop}
    (ht : Reads T (tablesOfAll es)) {s s' : Scope} (hs : s.Related P.Columns s') :
    Abreast P T (List.Forall₂ (Inferred.Compared P.likeness)) (inferArguments setting s es)
      (inferArguments setting s' es) := by
  match es with
  | [] => exact pure .nil
  | e :: rest =>
    rcases reads_append ht with ⟨hte, htr⟩
    unfold inferArguments
    cases e.isStar with
    | true => exact arguments setting rest htr hs
    | false =>
      refine bind (expr setting e hte hs) fun i i' hi => ?_
      exact bind (arguments setting rest htr hs) fun is is' his => pure (.cons hi his)

theorem some (setting : Setting) (o : Option Expr) {T : String → Prop}
    (ht : Reads T (tablesOfSome o)) {s s' : Scope} (hs : s.Related P.Columns s') :
    Abreast P T (Option.Rel (Inferred.Compared P.likeness)) (inferSome setting s o)
      (inferSome setting s' o) := by
  match o with
  | .none => exact pure .none
  | .some e => exact bind (expr setting e ht hs) fun i i' hi => pure (.some hi)

theorem caseBranches (setting : Setting) (bs : List WhenThen) {T : String → Prop}
    (ht : Reads T (tablesOfBranches bs)) {s s' : Scope} (hs : s.Related P.Columns s')
    {o o' : Option Inferred} (ho : Option.Rel (Inferred.Compared P.likeness) o o') {v v' : TypeVar}
    (hv : v.Paired P.number v') :
    Abreast P T (fun b b' => b' = b) (inferBranches setting s o v bs)
      (inferBranches setting s' o' v' bs) := by
  match bs with
  | [] => exact pure rfl
  | ⟨condition, value⟩ :: rest =>
    rcases reads_append ht with ⟨htcv, htr⟩
    rcases reads_append htcv with ⟨htc, htv⟩
    refine bind (expr setting condition htc hs) fun c c' hc => ?_
    refine bind ((comparison P T).when setting rfl ho hc) fun _ _ _ => ?_
    refine bind (expr setting value htv hs) fun r r' hr => ?_
    refine bind ((comparison P T).demand (.widest rfl none hv hr.var)) fun _ _ _ => ?_
    refine bind (caseBranches setting rest htr hs ho hv) fun b b' hb => ?_
    rw [hr.notNull, hb]
    exact pure rfl

theorem caseElse (setting : Setting) (o : Option Expr) {T : String → Prop}
    (ht : Reads T (tablesOfSome o)) {s s' : Scope} (hs : s.Related P.Columns s') {v v' : TypeVar}
    (hv : v.Paired P.number v') :
    Abreast P T (fun b b' => b' = b) (inferElse setting s v o) (inferElse setting s' v' o) := by
  match o with
  | .none => exact pure rfl
  | .some e =>
    refine bind (expr setting e ht hs) fun i i' hi => ?_
    refine bind ((comparison P T).demand (.widest rfl none hv hi.var)) fun _ _ _ => ?_
    exact pure hi.notNull

theorem query (setting : Setting) (q : Select) {T : String → Prop} (ht : Reads T q.tables)
    {outer outer' : List Level} (ho : List.Forall₂ P.Levels outer outer') :
    Abreast P T (QueryResult.Abreast P) (inferQuery setting outer q)
      (inferQuery setting outer' q) := by
  match q with
  | ⟨ctes, branches, order, limit⟩ =>
    rw [inferQuery_eq, inferQuery_eq]
    refine keepingCtes fun r r' hr hsees => ?_
    rw [Analyze.outcome_bind, Analyze.outcome_bind]
    refine (commonTables setting ctes _ ht ho r r' hr hsees).bind ?_
    rintro ⟨_, t⟩ ⟨_, t'⟩ ⟨hruns₁, hgrows₁, hsees₁⟩
    -- behind the common tables, the names that the rest of the query reads are seen alike
    let T₁ : String → Prop := fun name => ∃ t ∈ tablesOfUnion branches ++ tablesOfOrder order ++
      tablesOfLimit limit, lastSegment t = name
    have hbody : Abreast P T₁ (QueryResult.Abreast P)
        (inferBody setting outer ⟨ctes, branches, order, limit⟩)
        (inferBody setting outer' ⟨ctes, branches, order, limit⟩) := by
      have htUnion : Reads T₁ (tablesOfUnion branches) := fun t ht' => ⟨t, by simp [ht'], rfl⟩
      have htOrder : Reads T₁ (tablesOfOrder order) := fun t ht' => ⟨t, by simp [ht'], rfl⟩
      have htLimit : Reads T₁ (tablesOfLimit limit) := fun t ht' => ⟨t, by simp [ht'], rfl⟩
      refine bind (union setting branches htUnion ho) fun bs bs' hbs => ?_
      cases hbs with
      | nil => exact throw _
      | @cons b b' rest rest' hb hrest =>
        refine bind (lift (unionColumns_abreast hb.columns hrest)) fun cs cs' hcs => ?_
        have hsOrder : Scope.Related P.Columns ⟨levelOf "" cs, b.visible :: outer⟩
            ⟨levelOf "" cs', b'.visible :: outer'⟩ :=
          ⟨levels_of_levelOf "" hcs, .cons hb.visible ho⟩
        refine bind (orderBy setting order htOrder hsOrder) fun _ _ _ => ?_
        exact bind (limitTo setting limit htLimit ⟨hb.visible, ho⟩) fun _ _ _ => pure hcs
    refine (hbody t t' hruns₁ ?_).mono fun p p' hp => ?_
    · rintro _ ⟨name, hname, rfl⟩
      exact hsees₁ name hname
    · exact ⟨hp.values, hp.runs, Nat.le_trans hgrows₁ hp.grows⟩

/-- Common tables go abreast, and what follows them sees alike whatever it reads. -/
theorem commonTables (setting : Setting) (ctes : List Cte) (following : List String)
    {T : String → Prop} (ht : Reads T (tablesBehind ctes following)) {outer outer' : List Level}
    (ho : List.Forall₂ P.Levels outer outer') (r r' : Run) (hr : r.Abreast P r')
    (hsees : ∀ name, T name → P.SeesAlike r r' name) :
    Alike (fun p p' => p.2.Abreast P p'.2 ∧ r.issued ≤ p.2.issued ∧
        ∀ t ∈ following, P.SeesAlike p.2 p'.2 (lastSegment t))
      ((inferCtes setting outer ctes).outcome r) ((inferCtes setting outer' ctes).outcome r') := by
  match ctes with
  | [] => exact ⟨hr, Nat.le_refl _, fun t ht' => hsees _ (ht t ht')⟩
  | ⟨name, q⟩ :: rest =>
    rcases reads_append ht with ⟨htq, htr⟩
    -- the query of the first common table, and then the others with its name declared
    show Alike _ (Analyze.outcome (inferQuery setting outer q >>= _) r)
      (Analyze.outcome (inferQuery setting outer' q >>= _) r')
    rw [Analyze.outcome_bind, Analyze.outcome_bind]
    refine (query setting q htq ho r r' hr hsees).bind ?_
    rintro ⟨result, s⟩ ⟨result', s'⟩ hfirst
    have htables : P.Tables (levelOf name result.columns) (levelOf name result'.columns) :=
      tables_of_levelOf name hfirst.values
    refine (commonTables setting rest following
      (T := fun other => sameName name other = true ∨ T other) ?_ ho
      { s with ctes := (name, levelOf name result.columns) :: s.ctes }
      { s' with ctes := (name, levelOf name result'.columns) :: s'.ctes }
      (hfirst.runs.withCtes _ _) ?_).mono ?_
    · -- the new common table hides the others of its name from what follows
      intro t ht'
      cases hname : sameName name (lastSegment t) with
      | true => exact .inl rfl
      | false => exact .inr (htr t (List.mem_filter.2 ⟨ht', by simp [hname]⟩))
    · intro other hother
      refine Pasts.SeesAlike.declare htables fun hname => ?_
      have hold := hsees other (hother.resolve_left (by simp [hname]))
      exact seesAlike_of_ctes hold hfirst.ctes hfirst.ctes'
    · rintro p p' ⟨hruns, hgrows, hlast⟩
      exact ⟨hruns, Nat.le_trans hfirst.grows hgrows, hlast⟩

theorem union (setting : Setting) (bs : List Branch) {T : String → Prop}
    (ht : Reads T (tablesOfUnion bs)) {outer outer' : List Level}
    (ho : List.Forall₂ P.Levels outer outer') :
    Abreast P T (List.Forall₂ (BranchResult.Abreast P)) (inferUnion setting outer bs)
      (inferUnion setting outer' bs) := by
  match bs with
  | [] => exact pure .nil
  | b :: rest =>
    rcases reads_append ht with ⟨htb, htr⟩
    refine bind (branch setting b htb ho) fun r r' hr => ?_
    exact bind (union setting rest htr ho) fun rs rs' hrs => pure (.cons hr hrs)

/-- The placeholders of a FROM clause are counted from where the branch begins in each walk. -/
theorem branch (setting : Setting) (b : Branch) {T : String → Prop} (ht : Reads T b.tables)
    {outer outer' : List Level} (ho : List.Forall₂ P.Levels outer outer') :
    Abreast P T (BranchResult.Abreast P) (inferBranch setting outer b)
      (inferBranch setting outer' b) := by
  match b with
  | ⟨_, itemList, sources, joins, criteria, group, having⟩ =>
    rcases reads_append ht with ⟨ht, hth⟩
    rcases reads_append ht with ⟨ht, htg⟩
    rcases reads_append ht with ⟨ht, htc⟩
    rcases reads_append ht with ⟨ht, htj⟩
    rcases reads_append ht with ⟨hti, hts⟩
    refine bind get fun r r' hr => ?_
    have hempty : Sources.Abreast P .empty .empty := List.Forall₂.nil
    refine bind (sourceList setting sources hts hempty) fun listed listed' hlisted => ?_
    refine bind (joinList setting joins htj ho hlisted _ _) fun joined joined' hjoined => ?_
    dsimp only
    have hs : Scope.Related P.Columns ⟨joined.columns, outer⟩ ⟨joined'.columns, outer'⟩ :=
      ⟨hjoined, ho⟩
    -- the placeholders of the FROM clause stay aside while the items are walked
    refine aside hr.placeholders_length (items setting itemList hti hs) fun cs cs' hcs => ?_
    refine bind (some setting criteria htc hs) fun _ _ _ => ?_
    -- GROUP BY and HAVING see the projected columns, too
    have hgrouped : Scope.Related P.Columns ⟨joined.columns, levelOf "" cs :: outer⟩
        ⟨joined'.columns, levelOf "" cs' :: outer'⟩ :=
      ⟨hjoined, .cons (levels_of_levelOf "" hcs) ho⟩
    refine bind (all setting group htg hgrouped) fun _ _ _ => ?_
    refine bind (some setting having hth hgrouped) fun _ _ _ => ?_
    exact pure (.of hs sources sources joins joins criteria group group hcs)

theorem items (setting : Setting) (is : List Item) {T : String → Prop}
    (ht : Reads T (tablesOfItems is)) {s s' : Scope} (hs : s.Related P.Columns s') :
    Abreast P T (List.Forall₂ (OutputColumn.Abreast P)) (inferItems setting s is)
      (inferItems setting s' is) := by
  match is with
  | [] => exact pure .nil
  | i :: rest =>
    rcases reads_append ht with ⟨hti, htr⟩
    refine bind (item setting i hti hs) fun cs cs' hcs => ?_
    exact bind (items setting rest htr hs) fun ds ds' hds => pure (List.rel_append hcs hds)

theorem item (setting : Setting) (i : Item) {T : String → Prop} (ht : Reads T i.tables)
    {s s' : Scope} (hs : s.Related P.Columns s') :
    Abreast P T (List.Forall₂ (OutputColumn.Abreast P)) (inferItem setting s i)
      (inferItem setting s' i) := by
  match i with
  | .star => exact star hs.columns
  | .tableStar table =>
    have hof := Pairing.ofTable hs.columns table
    unfold inferItem
    generalize Level.ofTable s.columns table = l, Level.ofTable s'.columns table = l' at hof
    cases hof with
    | nil => exact throw _
    | cons hc hrest => exact star (.cons hc hrest)
  | .expr value aliasName =>
    refine bind (expr setting value ht hs) fun e e' he => ?_
    exact pure (.cons (OutputColumn.abreast_iff.2 (.ofInferred rfl he)) .nil)

theorem sourceList (setting : Setting) (xs : List Source) {T : String → Prop}
    (ht : Reads T (tablesOfSources xs)) {done done' : Sources} (hdone : done.Abreast P done') :
    Abreast P T (Sources.Abreast P) (inferSources setting done xs)
      (inferSources setting done' xs) := by
  match xs with
  | [] => exact pure hdone
  | x :: rest =>
    rcases reads_append ht with ⟨htx, htr⟩
    refine bind (source setting x htx) fun l l' hl => ?_
    exact sourceList setting rest htr (hdone.add x x hl)

theorem source (setting : Setting) (x : Source) {T : String → Prop} (ht : Reads T x.tables) :
    Abreast P T P.Levels (inferSource setting x) (inferSource setting x) := by
  match x with
  | .table name aliasName =>
    exact tableColumns setting.schema name aliasName (ht name (List.mem_singleton.2 rfl))
  | .derived q aliasName =>
    refine bind (query setting q ht .nil) fun result result' hresult => ?_
    exact pure (levels_of_levelOf aliasName hresult)

/-- The name of the source before the joins counts for the relations only. -/
theorem joinList (setting : Setting) (js : List Join) {T : String → Prop}
    (ht : Reads T (tablesOfJoins js)) {outer outer' : List Level}
    (ho : List.Forall₂ P.Levels outer outer') {done done' : Sources} (hdone : done.Abreast P done')
    (previous previous' : String) :
    Abreast P T (Sources.Abreast P) (inferJoins setting outer done previous js)
      (inferJoins setting outer' done' previous' js) := by
  match js with
  | [] => exact pure hdone
  | ⟨kind, x, on⟩ :: rest =>
    rcases reads_append ht with ⟨htxc, htr⟩
    rcases reads_append htxc with ⟨htx, htc⟩
    refine bind (source setting x htx) fun l l' hl => ?_
    have hs : Scope.Related P.Columns ⟨done.columns ++ l, outer⟩ ⟨done'.columns ++ l', outer'⟩ :=
      ⟨List.rel_append hdone hl, ho⟩
    refine bind (condition setting on htc hs) fun _ _ _ => ?_
    exact joinList setting rest htr ho
      (hdone.join outer outer' previous previous' kind x x on hl) _ _

theorem condition (setting : Setting) (c : JoinCondition) {T : String → Prop}
    (ht : Reads T c.tables) {s s' : Scope} (hs : s.Related P.Columns s') :
    Abreast P T Done (inferCondition setting s c) (inferCondition setting s' c) := by
  match c with
  | .predicate e => exact bind (expr setting e ht hs) fun _ _ _ => pure trivial
  | .shared _ => exact pure trivial
  | .unconditional => exact pure trivial

theorem orderBy (setting : Setting) (terms : List OrderTerm) {T : String → Prop}
    (ht : Reads T (tablesOfOrder terms)) {s s' : Scope} (hs : s.Related P.Columns s') :
    Abreast P T Done (inferOrder setting s terms) (inferOrder setting s' terms) := by
  match terms with
  | [] => exact pure trivial
  | ⟨value, _⟩ :: rest =>
    rcases reads_append ht with ⟨htv, htr⟩
    unfold inferOrder
    cases value.isParameter with
    | true => exact orderBy setting rest htr hs
    | false => exact bind (expr setting value htv hs) fun _ _ _ => orderBy setting rest htr hs

theorem limitTo (setting : Setting) (l : Option Limit) {T : String → Prop}
    (ht : Reads T (tablesOfLimit l)) {s s' : Scope} (hs : s.Related P.Columns s') :
    Abreast P T Done (inferLimit setting s l) (inferLimit setting s' l) := by
  match l with
  | .none => exact pure trivial
  | .some ⟨count, offset⟩ =>
    rcases reads_append ht with ⟨htc, hto⟩
    refine bind (expr setting count htc hs) fun c c' hc => ?_
    refine bind ((comparison P T).bound setting rfl hc) fun _ _ _ => ?_
    exact offsetBy setting offset hto hs

theorem offsetBy (setting : Setting) (o : Option Expr) {T : String → Prop}
    (ht : Reads T (tablesOfSome o)) {s s' : Scope} (hs : s.Related P.Columns s') :
    Abreast P T Done (inferOffset setting s o) (inferOffset setting s' o) := by
  match o with
  | .none => exact pure trivial
  | .some e => exact bind (expr setting e ht hs) fun _ _ hi =>
      (comparison P T).bound setting rfl hi

end

end Abreast

end QuerySignature
