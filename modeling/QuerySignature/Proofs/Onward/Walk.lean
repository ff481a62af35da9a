import QuerySignature.Proofs.Onward.Steps
import QuerySignature.Proofs.Walk.Parts

namespace QuerySignature

/-! # The walk goes on alike

Two walks over one expression or one query go on alike, from scopes of the same columns, when every name
in the text is one that may be asked for. The proof follows the walk: one case for each form of expression
and for each clause.

- `inferBranch_parts`: a branch, with the placeholders of its FROM clause set aside.
- `Onward.expr`: for expressions.
- `Onward.query`, `Onward.branch`: for queries and their branches.
-/

/-! ## Branches -/

/-- What a branch reads and what it projects. The placeholders of the FROM clause come behind those of
the projection. -/
def inferProjected (setting : Setting) (outer : List Level) (b : Branch) :
    Analyze (Sources × List OutputColumn) :=
  Analyze.aside (inferFrom setting outer b) fun joined => do
    let columns ← inferItems setting ⟨joined.columns, outer⟩ b.items
    pure (joined, columns)

/-- What follows the projection of a branch. -/
def inferConditions (setting : Setting) (outer : List Level) (b : Branch)
    (front : Sources × List OutputColumn) : Analyze BranchResult := do
  let _ ← inferSome setting ⟨front.1.columns, outer⟩ b.criteria
  let _ ← inferAll setting (groupedScope outer front) b.group
  let _ ← inferSome setting (groupedScope outer front) b.having
  pure (b.result outer front)

theorem inferBranch_parts (setting : Setting) (outer : List Level) (b : Branch) (r : Run) :
    (inferBranch setting outer b).outcome r =
      (inferProjected setting outer b >>= inferConditions setting outer b).outcome r := by
  rw [outcome_inferBranch, outcome_inferFront, Analyze.outcome_bind, inferProjected,
    Analyze.outcome_aside]
  unfold inferFrom inferConditions
  simp only [Analyze.outcome_bind, bind_bind]
  rfl

/-! ## Results -/

/-- A branch with the same columns in two walks. -/
structure BranchResult.Stands (O : Outlook) (b b' : BranchResult) : Prop where
  columns : List.Forall₂ (OutputColumn.Stands O) b.columns b'.columns
  visible : b.visible.Stands O b'.visible

/-- A query with the same columns in two walks. -/
def QueryResult.Stands (O : Outlook) (q q' : QueryResult) : Prop :=
  List.Forall₂ (OutputColumn.Stands O) q.columns q'.columns

/-- FROM clauses that show the same columns in two walks. -/
def Sources.Stands (O : Outlook) (s s' : Sources) : Prop := s.columns.Stands O s'.columns

section

variable {O : Outlook} {cs cs' : List OutputColumn}

theorem levelOf_stands (table : String) (h : List.Forall₂ (OutputColumn.Stands O) cs cs') :
    Level.Stands O (levelOf table cs) (levelOf table cs') := by
  refine List.rel_map (fun c c' hc => ?_) h
  refine ⟨hc.var.asProjected, hc.name, ?_⟩
  unfold OutputColumn.asSource
  rw [hc.notNull]

theorem Sources.Stands.add {s s' : Sources} (h : s.Stands O s') (source source' : Source)
    {l l' : Level} (hl : l.Stands O l') :
    Sources.Stands O (s.add source l) (s'.add source' l') :=
  List.rel_append h hl

theorem Sources.Stands.join {s s' : Sources} (h : s.Stands O s') (outer outer' : List Level)
    (previous previous' : String) (kind : JoinKind) (source source' : Source)
    {condition : JoinCondition} (hcondition : condition.Spelled O.naming) {l l' : Level}
    (hl : l.Stands O l') :
    Sources.Stands O (s.join outer previous kind source condition l)
      (s'.join outer' previous' kind source' condition l') :=
  List.rel_append (Level.Stands.earlier h kind)
    (Level.Stands.joined (Level.Stands.added hl hcondition) kind)

/-- WHERE proves the same output columns not null. -/
theorem proveColumns_stands {scope scope' : Scope} {criteria criteria' : Option Expr}
    (hproves : ∀ c c', c.Stands O c' → (criteria'.any (scope'.provesNotNull c')) =
      criteria.any (scope.provesNotNull c))
    (h : List.Forall₂ (OutputColumn.Stands O) cs cs') :
    List.Forall₂ (OutputColumn.Stands O) (proveColumns scope criteria cs)
      (proveColumns scope' criteria' cs') := by
  refine List.rel_map (fun c c' hc => ?_) h
  have hsource := hc.source
  refine { hc with notNull := ?_ }
  simp only [hc.notNull]
  generalize c.source = source, c'.source = source' at hsource
  cases hsource with
  | none => cases criteria <;> cases criteria' <;> rfl
  | some hsource =>
    have hsame := hproves _ _ hsource
    cases criteria <;> cases criteria' <;> simp_all

/-- The criteria of a branch, if it has any, prove the same columns not null. -/
theorem any_provesNotNull {scope scope' : Scope} (h : scope.Stands O scope')
    {criteria : Option Expr} (hcriteria : SpelledSome O.naming criteria) {c c' : SourceColumn}
    (hc : c.Stands O c') :
    criteria.any (scope'.provesNotNull c') = criteria.any (scope.provesNotNull c) := by
  cases criteria with
  | none => rfl
  | some e => exact h.provesNotNull hc hcriteria

theorem unionColumns_stands {bs bs' : List BranchResult}
    (hbs : List.Forall₂ (BranchResult.Stands O) bs bs')
    (hcs : List.Forall₂ (OutputColumn.Stands O) cs cs') :
    AlikeInKind (List.Forall₂ (OutputColumn.Stands O)) (unionColumns cs bs)
      (unionColumns cs' bs') := by
  induction hbs generalizing cs cs' with
  | nil => exact .ok hcs
  | @cons b b' _ _ hb _ ih =>
    unfold unionColumns
    rw [← hcs.length_eq, ← hb.columns.length_eq]
    split
    · exact ih (zipWith_union_compared hcs hb.columns)
    · exact .error rfl

end

/-- What is read and projected, in two walks. -/
structure FrontStands (O : Outlook) (front front' : Sources × List OutputColumn) : Prop where
  sources : front.1.Stands O front'.1
  columns : List.Forall₂ (OutputColumn.Stands O) front.2 front'.2

theorem FrontStands.grouped {O : Outlook} {front front' : Sources × List OutputColumn}
    (h : FrontStands O front front') {outer outer' : List Level}
    (ho : List.Forall₂ (Level.Stands O) outer outer') :
    Scope.Stands O (groupedScope outer front) (groupedScope outer' front') :=
  ⟨h.sources, .cons (levelOf_stands "" h.columns) ho⟩

namespace Onward

/-! ## Forms -/

variable {O : Outlook} {scope scope' : Scope}

theorem column (hs : scope.Stands O scope') {c : ColumnRef} (hc : O.naming.name c.name) :
    Onward O (Inferred.Stands O) (inferColumn scope c) (inferColumn scope' c) := by
  refine bind (resolve hs hc) fun d d' hd => ?_
  exact bind (O.comparison.reference hd) fun v v' hv => pure (.ofColumn hv hd)

/-- What follows the projection goes on alike in two branches if their clauses do. -/
theorem conditions_of {setting : Setting} {b b' : Branch} {outer outer' : List Level}
    {front front' : Sources × List OutputColumn} (h : FrontStands O front front')
    (hproves : ∀ c c', c.Stands O c' →
      b'.criteria.any (Scope.provesNotNull ⟨front'.1.columns, outer'⟩ c') =
        b.criteria.any (Scope.provesNotNull ⟨front.1.columns, outer⟩ c))
    (hcriteria : Onward O (Option.Rel (Inferred.Stands O))
      (inferSome setting ⟨front.1.columns, outer⟩ b.criteria)
      (inferSome setting ⟨front'.1.columns, outer'⟩ b'.criteria))
    (hgroup : Onward O (List.Forall₂ (Inferred.Stands O))
      (inferAll setting (groupedScope outer front) b.group)
      (inferAll setting (groupedScope outer' front') b'.group))
    (hhaving : Onward O (Option.Rel (Inferred.Stands O))
      (inferSome setting (groupedScope outer front) b.having)
      (inferSome setting (groupedScope outer' front') b'.having)) :
    Onward O (BranchResult.Stands O) (inferConditions setting outer b front)
      (inferConditions setting outer' b' front') := by
  refine bind hcriteria fun _ _ _ => bind hgroup fun _ _ _ => bind hhaving fun _ _ _ => ?_
  exact pure ⟨proveColumns_stands hproves h.columns, h.sources⟩

/-! ## The walk -/

mutual

theorem expr (setting : Setting) (e : Expr) (he : e.Spelled O.naming) {scope scope' : Scope}
    (hs : scope.Stands O scope') :
    Onward O (Inferred.Stands O) (inferExpr setting scope e) (inferExpr setting scope' e) := by
  -- only columns and sources look at that in which the two walks may differ
  match e with
  | .literal value => exact O.comparison.literal setting.profile value
  | .column c => exact column hs he.2
  | .parameter name => exact addPlaceholder name false
  | .paren inner => exact expr setting inner he hs
  | .arithmetic op left right =>
    refine bind (expr setting left he.1 hs) fun l l' hl => ?_
    exact bind (expr setting right he.2 hs) fun r r' hr => O.comparison.arithmetic trivial hl hr
  | .compare op left right =>
    refine bind (expr setting left he.1 hs) fun l l' hl => ?_
    exact bind (expr setting right he.2 hs) fun r r' hr =>
      O.comparison.compare setting trivial hl hr
  | .between negated value low high =>
    refine bind (expr setting value he.1 hs) fun v v' hv => ?_
    refine bind (expr setting low he.2.1 hs) fun l l' hl => ?_
    refine bind (expr setting high he.2.2 hs) fun h h' hh => ?_
    exact O.comparison.between setting trivial hv hl hh
  | .inList negated value items =>
    refine bind (expr setting value he.1 hs) fun v v' hv => ?_
    refine bind (O.comparison.forceNotNull hv) fun _ _ _ => ?_
    dsimp only
    cases soleParameter? items with
    | some name =>
      refine bind (addPlaceholder name true) fun p p' hp => ?_
      have hsole : Onward O (List.Forall₂ (Inferred.Stands O)) (Pure.pure [p]) (Pure.pure [p']) :=
        pure (.cons hp .nil)
      exact bind hsole fun es es' hes => O.comparison.inList setting trivial hv hes
    | none =>
      refine bind (all setting items he.2 hs) fun es es' hes => ?_
      exact O.comparison.inList setting trivial hv hes
  | .inQuery negated value q =>
    refine bind (expr setting value he.1 hs) fun v v' hv => ?_
    refine bind (O.comparison.forceNotNull hv) fun _ _ _ => ?_
    refine bind (query setting q he.2 hs.levels) fun result result' hresult => ?_
    refine bind (O.comparison.firstColumn trivial hresult) fun c c' hc => ?_
    exact O.comparison.inQuery setting trivial hv hc
  | .like negated value pattern =>
    refine bind (expr setting value he.1 hs) fun v v' hv => ?_
    exact bind (expr setting pattern he.2 hs) fun p p' hp => O.comparison.like setting trivial hv hp
  | .isNull negated value =>
    exact bind (expr setting value he hs) fun _ _ _ => O.comparison.predicate setting trivial
  | .and left right =>
    refine bind (expr setting left he.1 hs) fun _ _ _ => ?_
    exact bind (expr setting right he.2 hs) fun _ _ _ => O.comparison.predicate setting trivial
  | .or left right =>
    refine bind (expr setting left he.1 hs) fun _ _ _ => ?_
    exact bind (expr setting right he.2 hs) fun _ _ _ => O.comparison.predicate setting trivial
  | .not operand =>
    exact bind (expr setting operand he hs) fun _ _ _ => O.comparison.predicate setting trivial
  | .call function distinct es =>
    refine bind (arguments setting es he.2 hs) fun es es' hes => ?_
    exact O.comparison.call setting.profile trivial rfl trivial hes
  | .case operand branches otherwise =>
    refine bind (some setting operand he.1 hs) fun o o' ho => ?_
    refine bind (fresh _ _ .unknown) fun v v' hv => ?_
    refine bind (caseBranches setting branches he.2.1 hs ho hv) fun b b' hb => ?_
    refine bind (caseElse setting otherwise he.2.2 hs hv) fun c c' hc => ?_
    rw [hb, hc]
    exact pure (.ofVar hv _)
  | .scalar q =>
    refine bind (query setting q he hs.levels) fun result result' hresult => ?_
    refine bind (O.comparison.firstColumn trivial hresult) fun c c' hc => ?_
    rw [hc.notNull]
    exact pure (.ofVar hc.var _)
  | .hasRows q =>
    refine bind (query setting q he hs.levels) fun _ _ _ => ?_
    exact O.comparison.predicate setting trivial
  | .star => exact throw _ _

theorem all (setting : Setting) (es : List Expr) (hes : SpelledAll O.naming es)
    {scope scope' : Scope} (hs : scope.Stands O scope') :
    Onward O (List.Forall₂ (Inferred.Stands O)) (inferAll setting scope es)
      (inferAll setting scope' es) := by
  match es with
  | [] => exact pure .nil
  | e :: rest =>
    refine bind (expr setting e hes.1 hs) fun i i' hi => ?_
    exact bind (all setting rest hes.2 hs) fun is is' his => pure (.cons hi his)

theorem arguments (setting : Setting) (es : List Expr) (hes : SpelledAll O.naming es)
    {scope scope' : Scope} (hs : scope.Stands O scope') :
    Onward O (List.Forall₂ (Inferred.Stands O)) (inferArguments setting scope es)
      (inferArguments setting scope' es) := by
  match es with
  | [] => exact pure .nil
  | e :: rest =>
    unfold inferArguments
    cases e.isStar with
    | true => exact arguments setting rest hes.2 hs
    | false =>
      refine bind (expr setting e hes.1 hs) fun i i' hi => ?_
      exact bind (arguments setting rest hes.2 hs) fun is is' his => pure (.cons hi his)

theorem some (setting : Setting) (o : Option Expr) (ho : SpelledSome O.naming o)
    {scope scope' : Scope} (hs : scope.Stands O scope') :
    Onward O (Option.Rel (Inferred.Stands O)) (inferSome setting scope o)
      (inferSome setting scope' o) := by
  match o with
  | .none => exact pure .none
  | .some e => exact bind (expr setting e ho hs) fun i i' hi => pure (.some hi)

theorem caseBranches (setting : Setting) (bs : List WhenThen) (hbs : SpelledBranches O.naming bs)
    {scope scope' : Scope} (hs : scope.Stands O scope') {o o' : Option Inferred}
    (ho : Option.Rel (Inferred.Stands O) o o') {v v' : TypeVar} (hv : v.Stands O v') :
    Onward O (fun b b' => b' = b) (inferBranches setting scope o v bs)
      (inferBranches setting scope' o' v' bs) := by
  match bs with
  | [] => exact pure rfl
  | ⟨condition, value⟩ :: rest =>
    refine bind (expr setting condition hbs.1 hs) fun c c' hc => ?_
    refine bind (O.comparison.when setting trivial ho hc) fun _ _ _ => ?_
    refine bind (expr setting value hbs.2.1 hs) fun r r' hr => ?_
    refine bind (demand (Constraint.Compared.widest trivial none hv hr.var)) fun _ _ _ => ?_
    refine bind (caseBranches setting rest hbs.2.2 hs ho hv) fun b b' hb => ?_
    rw [hr.notNull, hb]
    exact pure rfl

theorem caseElse (setting : Setting) (o : Option Expr) (ho : SpelledSome O.naming o)
    {scope scope' : Scope} (hs : scope.Stands O scope') {v v' : TypeVar} (hv : v.Stands O v') :
    Onward O (fun b b' => b' = b) (inferElse setting scope v o) (inferElse setting scope' v' o) := by
  match o with
  | .none => exact pure rfl
  | .some e =>
    refine bind (expr setting e ho hs) fun i i' hi => ?_
    exact bind (demand (Constraint.Compared.widest trivial none hv hi.var)) fun _ _ _ =>
      pure hi.notNull

theorem query (setting : Setting) (q : Select) (hq : q.Spelled O.naming) {outer outer' : List Level}
    (ho : List.Forall₂ (Level.Stands O) outer outer') :
    Onward O (QueryResult.Stands O) (inferQuery setting outer q) (inferQuery setting outer' q) := by
  match q with
  | ⟨ctes, branches, order, limit⟩ =>
    rw [inferQuery_eq, inferQuery_eq]
    refine keepingCtes (bind (commonTables setting ctes hq.1 ho) fun _ _ _ => ?_)
    refine bind (union setting branches hq.2.1 ho) fun bs bs' hbs => ?_
    cases hbs with
    | nil => exact throw _ _
    | @cons b b' rest rest' hb hrest =>
      refine bind (lift (unionColumns_stands hrest hb.columns)) fun cs cs' hcs => ?_
      have hsOrder : Scope.Stands O ⟨levelOf "" cs, b.visible :: outer⟩
          ⟨levelOf "" cs', b'.visible :: outer'⟩ := ⟨levelOf_stands "" hcs, .cons hb.visible ho⟩
      refine bind (orderBy setting order hq.2.2.1 hsOrder) fun _ _ _ => ?_
      refine bind (limitTo setting limit hq.2.2.2 ⟨hb.visible, ho⟩) fun _ _ _ => ?_
      exact pure hcs

theorem commonTables (setting : Setting) (ctes : List Cte) (hctes : SpelledCtes O.naming ctes)
    {outer outer' : List Level} (ho : List.Forall₂ (Level.Stands O) outer outer') :
    Onward O Done (inferCtes setting outer ctes) (inferCtes setting outer' ctes) := by
  match ctes with
  | [] => exact pure trivial
  | ⟨name, q⟩ :: rest =>
    refine bind (query setting q hctes.2.1 ho) fun result result' hresult => ?_
    refine bind (declareCte name (levelOf_stands name hresult)) fun _ _ _ => ?_
    exact commonTables setting rest hctes.2.2 ho

theorem union (setting : Setting) (bs : List Branch) (hbs : SpelledUnion O.naming bs)
    {outer outer' : List Level} (ho : List.Forall₂ (Level.Stands O) outer outer') :
    Onward O (List.Forall₂ (BranchResult.Stands O)) (inferUnion setting outer bs)
      (inferUnion setting outer' bs) := by
  match bs with
  | [] => exact pure .nil
  | b :: rest =>
    refine bind (branch setting b hbs.1 ho) fun r r' hr => ?_
    exact bind (union setting rest hbs.2 ho) fun rs rs' hrs => pure (.cons hr hrs)

theorem branch (setting : Setting) (b : Branch) (hb : b.Spelled O.naming) {outer outer' : List Level}
    (ho : List.Forall₂ (Level.Stands O) outer outer') :
    Onward O (BranchResult.Stands O) (inferBranch setting outer b)
      (inferBranch setting outer' b) := by
  match b with
  | ⟨_, itemList, sources, joins, criteria, group, having⟩ =>
    obtain ⟨hitems, hsources, hjoins, hcriteria, hgroup, hhaving⟩ := hb
    refine congr (bind (R := FrontStands O) (aside (R := Sources.Stands O) ?_ fun _ _ hjoined => ?_)
      fun front front' hfront => ?_) (inferBranch_parts setting outer _)
      (inferBranch_parts setting outer' _)
    · have hempty : Sources.Stands O .empty .empty := List.Forall₂.nil
      exact bind (sourceList setting sources hsources hempty) fun listed listed' hlisted =>
        joinList setting joins hjoins ho hlisted _ _
    · exact bind (items setting itemList hitems ⟨hjoined, ho⟩) fun _ _ hcs => pure ⟨hjoined, hcs⟩
    · have hs : Scope.Stands O ⟨front.1.columns, outer⟩ ⟨front'.1.columns, outer'⟩ :=
        ⟨hfront.sources, ho⟩
      have hgrouped := hfront.grouped ho
      exact conditions_of hfront (fun _ _ => any_provesNotNull hs hcriteria)
        (some setting criteria hcriteria hs) (all setting group hgroup hgrouped)
        (some setting having hhaving hgrouped)

theorem items (setting : Setting) (is : List Item) (his : SpelledItems O.naming is)
    {scope scope' : Scope} (hs : scope.Stands O scope') :
    Onward O (List.Forall₂ (OutputColumn.Stands O)) (inferItems setting scope is)
      (inferItems setting scope' is) := by
  match is with
  | [] => exact pure .nil
  | i :: rest =>
    refine bind (item setting i his.1 hs) fun cs cs' hcs => ?_
    exact bind (items setting rest his.2 hs) fun ds ds' hds => pure (List.rel_append hcs hds)

theorem item (setting : Setting) (i : Item) (hi : i.Spelled O.naming) {scope scope' : Scope}
    (hs : scope.Stands O scope') :
    Onward O (List.Forall₂ (OutputColumn.Stands O)) (inferItem setting scope i)
      (inferItem setting scope' i) := by
  match i with
  | .star => exact O.comparison.star hs.columns
  | .tableStar table =>
    have hof := Level.Stands.ofTable hs.columns table
    unfold inferItem
    generalize Level.ofTable scope.columns table = l, Level.ofTable scope'.columns table = l' at hof
    cases hof with
    | nil => exact throw _ _
    | cons hc hrest => exact O.comparison.star (.cons hc hrest)
  | .expr value aliasName =>
    refine bind (expr setting value hi.1 hs) fun e e' he => ?_
    exact pure (.cons (.ofInferred (.refl O.naming _) he) .nil)

theorem sourceList (setting : Setting) (xs : List Source) (hxs : SpelledSources O.naming xs)
    {done done' : Sources} (hdone : done.Stands O done') :
    Onward O (Sources.Stands O) (inferSources setting done xs)
      (inferSources setting done' xs) := by
  match xs with
  | [] => exact pure hdone
  | x :: rest =>
    refine bind (source setting x hxs.1) fun l l' hl => ?_
    exact sourceList setting rest hxs.2 (hdone.add x x hl)

theorem source (setting : Setting) (x : Source) (hx : x.Spelled O.naming) :
    Onward O (Level.Stands O) (inferSource setting x) (inferSource setting x) := by
  match x with
  | .table name aliasName => exact tableColumns setting.schema name aliasName
  | .derived q aliasName =>
    refine bind (query setting q hx.1 .nil) fun result result' hresult => ?_
    exact pure (levelOf_stands aliasName hresult)

/-- The name of the source before the joins counts for the relations only. -/
theorem joinList (setting : Setting) (js : List Join) (hjs : SpelledJoins O.naming js)
    {outer outer' : List Level} (ho : List.Forall₂ (Level.Stands O) outer outer')
    {done done' : Sources} (hdone : done.Stands O done') (previous previous' : String) :
    Onward O (Sources.Stands O) (inferJoins setting outer done previous js)
      (inferJoins setting outer' done' previous' js) := by
  match js with
  | [] => exact pure hdone
  | ⟨kind, x, on⟩ :: rest =>
    refine bind (source setting x hjs.1) fun l l' hl => ?_
    have hs : Scope.Stands O ⟨done.columns ++ l, outer⟩ ⟨done'.columns ++ l', outer'⟩ :=
      ⟨List.rel_append hdone hl, ho⟩
    refine bind (condition setting on hjs.2.1 hs) fun _ _ _ => ?_
    exact joinList setting rest hjs.2.2 ho
      (hdone.join outer outer' previous previous' kind x x hjs.2.1 hl) _ _

theorem condition (setting : Setting) (c : JoinCondition) (hc : c.Spelled O.naming)
    {scope scope' : Scope} (hs : scope.Stands O scope') :
    Onward O Done (inferCondition setting scope c) (inferCondition setting scope' c) := by
  match c with
  | .predicate e => exact bind (expr setting e hc hs) fun _ _ _ => pure trivial
  | .shared _ => exact pure trivial
  | .unconditional => exact pure trivial

theorem orderBy (setting : Setting) (terms : List OrderTerm) (hterms : SpelledOrder O.naming terms)
    {scope scope' : Scope} (hs : scope.Stands O scope') :
    Onward O Done (inferOrder setting scope terms) (inferOrder setting scope' terms) := by
  match terms with
  | [] => exact pure trivial
  | ⟨value, _⟩ :: rest =>
    unfold inferOrder
    cases value.isParameter with
    | true => exact orderBy setting rest hterms.2 hs
    | false =>
      exact bind (expr setting value hterms.1 hs) fun _ _ _ => orderBy setting rest hterms.2 hs

theorem limitTo (setting : Setting) (l : Option Limit) (hl : SpelledLimit O.naming l)
    {scope scope' : Scope} (hs : scope.Stands O scope') :
    Onward O Done (inferLimit setting scope l) (inferLimit setting scope' l) := by
  match l with
  | .none => exact pure trivial
  | .some ⟨count, offset⟩ =>
    refine bind (expr setting count hl.1 hs) fun c c' hc => ?_
    refine bind (O.comparison.bound setting trivial hc) fun _ _ _ => ?_
    exact offsetBy setting offset hl.2 hs

theorem offsetBy (setting : Setting) (o : Option Expr) (ho : SpelledSome O.naming o)
    {scope scope' : Scope} (hs : scope.Stands O scope') :
    Onward O Done (inferOffset setting scope o) (inferOffset setting scope' o) := by
  match o with
  | .none => exact pure trivial
  | .some e =>
    exact bind (expr setting e ho hs) fun _ _ hi => O.comparison.bound setting trivial hi

end

/-! ## Parts of a branch -/

variable {outer outer' : List Level}

theorem fromClause (setting : Setting) {b : Branch} (hb : b.Spelled O.naming)
    (ho : List.Forall₂ (Level.Stands O) outer outer') :
    Onward O (Sources.Stands O) (inferFrom setting outer b) (inferFrom setting outer' b) := by
  rcases b with ⟨_, _, sources, joins, _, _, _⟩
  obtain ⟨-, hsources, hjoins, -⟩ := hb
  have hempty : Sources.Stands O .empty .empty := List.Forall₂.nil
  exact bind (sourceList setting sources hsources hempty) fun listed listed' hlisted =>
    joinList setting joins hjoins ho hlisted _ _

theorem projected (setting : Setting) {b : Branch} (hb : b.Spelled O.naming)
    (ho : List.Forall₂ (Level.Stands O) outer outer') :
    Onward O (FrontStands O) (inferProjected setting outer b) (inferProjected setting outer' b) := by
  refine aside (fromClause setting hb ho) fun joined joined' hjoined => ?_
  rcases b with ⟨_, itemList, _, _, _, _, _⟩
  exact bind (items setting itemList hb.1 ⟨hjoined, ho⟩) fun _ _ hcs => pure ⟨hjoined, hcs⟩

/-- What follows the projection in two branches with the same clauses there. -/
theorem conditions (setting : Setting) {distinct distinct' : Bool} {is is' : List Item}
    {sources sources' : List Source} {joins joins' : List Join} {criteria : Option Expr}
    {group : List Expr} {having : Option Expr} (hcriteria : SpelledSome O.naming criteria)
    (hgroup : SpelledAll O.naming group) (hhaving : SpelledSome O.naming having)
    (ho : List.Forall₂ (Level.Stands O) outer outer') {front front' : Sources × List OutputColumn}
    (h : FrontStands O front front') :
    Onward O (BranchResult.Stands O)
      (inferConditions setting outer ⟨distinct, is, sources, joins, criteria, group, having⟩ front)
      (inferConditions setting outer' ⟨distinct', is', sources', joins', criteria, group, having⟩
        front') := by
  have hs : Scope.Stands O ⟨front.1.columns, outer⟩ ⟨front'.1.columns, outer'⟩ := ⟨h.sources, ho⟩
  exact conditions_of h (fun _ _ => any_provesNotNull hs hcriteria)
    (some setting criteria hcriteria hs) (all setting group hgroup (h.grouped ho))
    (some setting having hhaving (h.grouped ho))

end Onward

end QuerySignature
