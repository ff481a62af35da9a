import QuerySignature.Proofs.Comparison.Forms
import QuerySignature.Proofs.Spelling.Steps
import QuerySignature.Proofs.Walk.Simulation

namespace QuerySignature

/-! # The walk by plain forms

A walk over an expression or a query goes in step with the walk over its plain form, from scopes of the
same columns. The proof follows the walk: one case for each form of expression and for each clause. A
projected expression whose text is its name keeps its parentheses, so there the walk goes on for the
spelling that keeps them all.

- `Spelling.InStep.expr`: for expressions.
- `Spelling.InStep.query`, `Spelling.InStep.branch`: for queries and their branches.
- `Spelling.InStep.sourceList`, `Spelling.InStep.joinList`: for the two parts of a FROM clause.
-/

namespace Spelling.InStep

/-! ## Parentheses -/

/-- A walk goes through the parentheses that stay. -/
theorem inferExpr_paren (s : Spelling) (setting : Setting) (scope : Scope) (e : Expr) :
    inferExpr setting scope (s.paren e) = inferExpr setting scope e := by
  unfold Spelling.paren
  split <;> rfl

theorem inferAll_plainList (setting : Setting) (scope : Scope) (items plain : List Expr) :
    inferAll setting scope (plainList items plain) = inferAll setting scope plain := by
  unfold plainList
  split <;> rfl

/-! ## Forms -/

variable {scope scope' : Scope} {outer outer' : List Level}

theorem column (s : Spelling) (hs : scope.Respelled s scope') (c : ColumnRef) :
    s.InStep (Inferred.Respelled s) (inferColumn scope c) (inferColumn scope' (c.plain s)) := by
  refine bind (resolve hs c) fun d d' hd => ?_
  exact bind (s.comparison.reference hd) fun v v' hv => pure (.ofColumn hv hd)

/-- A function is found by a name in any case, or by none. -/
theorem call (s : Spelling) (profile : Profile) (function : String) {label label' : String}
    {es es' : List Inferred} (hes : List.Forall₂ (Inferred.Respelled s) es es') :
    s.InStep (Inferred.Respelled s) (inferCall profile function label es)
      (inferCall profile (s.name function) label' es') := by
  have hfunction : SqlFunction.ofName? (s.name function) = SqlFunction.ofName? function := by
    unfold SqlFunction.ofName?
    congr 1
    exact funext fun f => (Same.refl s f.name).compared (s.same_name function)
  exact s.comparison.call profile trivial hfunction rfl hes

/-! ## The walk -/

mutual

theorem expr (s : Spelling) {setting : Setting} (hschema : s.FindsTables setting.schema) (e : Expr)
    {scope scope' : Scope} (hs : scope.Respelled s scope') :
    s.InStep (Inferred.Respelled s) (inferExpr setting scope e)
      (inferExpr setting scope' (e.plain s)) := by
  -- a spelling leaves the form alone, so both walks come to the same parts
  match e with
  | .literal value => exact s.comparison.literal setting.profile value
  | .column c => exact column s hs c
  | .parameter name => exact addPlaceholder name false
  | .paren inner =>
    show s.InStep _ (inferExpr setting scope inner)
      (inferExpr setting scope' (s.paren (inner.plain s)))
    rw [inferExpr_paren]
    exact expr s hschema inner hs
  | .arithmetic op left right =>
    refine bind (expr s hschema left hs) fun l l' hl => ?_
    exact bind (expr s hschema right hs) fun r r' hr => s.comparison.arithmetic trivial hl hr
  | .compare op left right =>
    refine bind (expr s hschema left hs) fun l l' hl => ?_
    exact bind (expr s hschema right hs) fun r r' hr => s.comparison.compare setting trivial hl hr
  | .between negated value low high =>
    refine bind (expr s hschema value hs) fun v v' hv => ?_
    refine bind (expr s hschema low hs) fun l l' hl => ?_
    refine bind (expr s hschema high hs) fun h h' hh => ?_
    exact s.comparison.between setting trivial hv hl hh
  | .inList negated value items =>
    refine bind (expr s hschema value hs) fun v v' hv => ?_
    refine bind (s.comparison.forceNotNull hv) fun _ _ _ => ?_
    dsimp only
    rw [soleParameter?_plain]
    cases soleParameter? items with
    | some name =>
      refine bind (addPlaceholder name true) fun p p' hp => ?_
      have hsole : s.InStep (List.Forall₂ (Inferred.Respelled s)) (Pure.pure [p])
          (Pure.pure [p']) := pure (.cons hp .nil)
      exact bind hsole fun es es' hes => s.comparison.inList setting trivial hv hes
    | none =>
      dsimp only
      rw [inferAll_plainList]
      refine bind (all s hschema items hs) fun es es' hes => ?_
      exact s.comparison.inList setting trivial hv hes
  | .inQuery negated value q =>
    refine bind (expr s hschema value hs) fun v v' hv => ?_
    refine bind (s.comparison.forceNotNull hv) fun _ _ _ => ?_
    refine bind (query s hschema q hs.levels) fun result result' hresult => ?_
    refine bind (s.comparison.firstColumn trivial hresult.columns) fun c c' hc => ?_
    exact s.comparison.inQuery setting trivial hv hc
  | .like negated value pattern =>
    refine bind (expr s hschema value hs) fun v v' hv => ?_
    exact bind (expr s hschema pattern hs) fun p p' hp => s.comparison.like setting trivial hv hp
  | .isNull negated value =>
    exact bind (expr s hschema value hs) fun _ _ _ => s.comparison.predicate setting trivial
  | .and left right =>
    refine bind (expr s hschema left hs) fun _ _ _ => ?_
    exact bind (expr s hschema right hs) fun _ _ _ => s.comparison.predicate setting trivial
  | .or left right =>
    refine bind (expr s hschema left hs) fun _ _ _ => ?_
    exact bind (expr s hschema right hs) fun _ _ _ => s.comparison.predicate setting trivial
  | .not operand =>
    exact bind (expr s hschema operand hs) fun _ _ _ => s.comparison.predicate setting trivial
  | .call function distinct es =>
    exact bind (arguments s hschema es hs) fun es es' hes => call s setting.profile function hes
  | .case operand branches otherwise =>
    refine bind (some s hschema operand hs) fun o o' ho => ?_
    refine bind (fresh _ _ .unknown) fun v v' hv => ?_
    refine bind (caseBranches s hschema branches hs ho hv) fun b b' hb => ?_
    refine bind (caseElse s hschema otherwise hs hv) fun c c' hc => ?_
    rw [hb, hc]
    exact pure (.ofVar hv _)
  | .scalar q =>
    refine bind (query s hschema q hs.levels) fun result result' hresult => ?_
    refine bind (s.comparison.firstColumn trivial hresult.columns) fun c c' hc => ?_
    rw [hc.notNull]
    exact pure (.ofVar hc.var _)
  | .hasRows q =>
    refine bind (query s hschema q hs.levels) fun _ _ _ => ?_
    exact s.comparison.predicate setting trivial
  | .star => exact throw rfl

theorem all (s : Spelling) {setting : Setting} (hschema : s.FindsTables setting.schema)
    (es : List Expr) {scope scope' : Scope} (hs : scope.Respelled s scope') :
    s.InStep (List.Forall₂ (Inferred.Respelled s)) (inferAll setting scope es)
      (inferAll setting scope' (plainAll s es)) := by
  match es with
  | [] => exact pure .nil
  | e :: rest =>
    refine bind (expr s hschema e hs) fun i i' hi => ?_
    exact bind (all s hschema rest hs) fun is is' his => pure (.cons hi his)

theorem arguments (s : Spelling) {setting : Setting} (hschema : s.FindsTables setting.schema)
    (es : List Expr) {scope scope' : Scope} (hs : scope.Respelled s scope') :
    s.InStep (List.Forall₂ (Inferred.Respelled s)) (inferArguments setting scope es)
      (inferArguments setting scope' (plainAll s es)) := by
  match es with
  | [] => exact pure .nil
  | e :: rest =>
    unfold plainAll inferArguments
    rw [Expr.isStar_plain]
    cases e.isStar with
    | true => exact arguments s hschema rest hs
    | false =>
      refine bind (expr s hschema e hs) fun i i' hi => ?_
      exact bind (arguments s hschema rest hs) fun is is' his => pure (.cons hi his)

theorem some (s : Spelling) {setting : Setting} (hschema : s.FindsTables setting.schema)
    (o : Option Expr) {scope scope' : Scope} (hs : scope.Respelled s scope') :
    s.InStep (Option.Rel (Inferred.Respelled s)) (inferSome setting scope o)
      (inferSome setting scope' (plainSome s o)) := by
  match o with
  | .none => exact pure .none
  | .some e => exact bind (expr s hschema e hs) fun i i' hi => pure (.some hi)

theorem caseBranches (s : Spelling) {setting : Setting} (hschema : s.FindsTables setting.schema)
    (bs : List WhenThen) {scope scope' : Scope} (hs : scope.Respelled s scope')
    {o o' : Option Inferred} (ho : Option.Rel (Inferred.Respelled s) o o') {v v' : TypeVar}
    (hv : v.Relabelled v') :
    s.InStep (fun b b' => b' = b) (inferBranches setting scope o v bs)
      (inferBranches setting scope' o' v' (plainWhens s bs)) := by
  match bs with
  | [] => exact pure rfl
  | ⟨condition, value⟩ :: rest =>
    refine bind (expr s hschema condition hs) fun c c' hc => ?_
    refine bind (s.comparison.when setting trivial ho hc) fun _ _ _ => ?_
    refine bind (expr s hschema value hs) fun r r' hr => ?_
    refine bind (demand (Constraint.Compared.widest trivial none hv hr.var)) fun _ _ _ => ?_
    refine bind (caseBranches s hschema rest hs ho hv) fun b b' hb => ?_
    rw [hr.notNull, hb]
    exact pure rfl

theorem caseElse (s : Spelling) {setting : Setting} (hschema : s.FindsTables setting.schema)
    (o : Option Expr) {scope scope' : Scope} (hs : scope.Respelled s scope') {v v' : TypeVar}
    (hv : v.Relabelled v') :
    s.InStep (fun b b' => b' = b) (inferElse setting scope v o)
      (inferElse setting scope' v' (plainSome s o)) := by
  match o with
  | .none => exact pure rfl
  | .some e =>
    refine bind (expr s hschema e hs) fun i i' hi => ?_
    exact bind (demand (Constraint.Compared.widest trivial none hv hi.var)) fun _ _ _ => pure hi.notNull

theorem query (s : Spelling) {setting : Setting} (hschema : s.FindsTables setting.schema)
    (q : Select) {outer outer' : List Level} (ho : List.Forall₂ (Level.Respelled s) outer outer') :
    s.InStep (QueryResult.Respelled s) (inferQuery setting outer q)
      (inferQuery setting outer' (q.plain s)) := by
  match q with
  | ⟨ctes, branches, order, limit⟩ =>
    rw [inferQuery_eq, inferQuery_eq]
    refine keepingCtes (bind (commonTables s hschema ctes ho) fun _ _ _ => ?_)
    refine bind (union s hschema branches ho) fun bs bs' hbs => ?_
    cases hbs with
    | nil => exact throw rfl
    | @cons b b' rest rest' hb hrest =>
      refine bind (lift (unionColumns_respelled hrest hb.columns)) fun cs cs' hcs => ?_
      have hsOrder : Scope.Respelled s ⟨levelOf "" cs, b.visible :: outer⟩
          ⟨levelOf "" cs', b'.visible :: outer'⟩ :=
        ⟨levelOf_respelled hcs rfl, .cons hb.visible ho⟩
      refine bind (orderBy s hschema order hsOrder) fun _ _ _ => ?_
      refine bind (limitTo s hschema limit ⟨hb.visible, ho⟩) fun _ _ _ => ?_
      exact pure (.of hb hcs branches order limit)

theorem commonTables (s : Spelling) {setting : Setting} (hschema : s.FindsTables setting.schema)
    (ctes : List Cte) {outer outer' : List Level}
    (ho : List.Forall₂ (Level.Respelled s) outer outer') :
    s.InStep Done (inferCtes setting outer ctes) (inferCtes setting outer' (plainCtes s ctes)) := by
  match ctes with
  | [] => exact pure trivial
  | ⟨name, q⟩ :: rest =>
    refine bind (query s hschema q ho) fun result result' hresult => ?_
    have hname := s.same_name name
    refine bind (declareCte hname (levelOf_respelled hresult.columns hname)) fun _ _ _ => ?_
    exact commonTables s hschema rest ho

theorem union (s : Spelling) {setting : Setting} (hschema : s.FindsTables setting.schema)
    (bs : List Branch) {outer outer' : List Level}
    (ho : List.Forall₂ (Level.Respelled s) outer outer') :
    s.InStep (List.Forall₂ (BranchResult.Respelled s)) (inferUnion setting outer bs)
      (inferUnion setting outer' (plainUnion s bs)) := by
  match bs with
  | [] => exact pure .nil
  | b :: rest =>
    refine bind (branch s hschema b ho) fun r r' hr => ?_
    exact bind (union s hschema rest ho) fun rs rs' hrs => pure (.cons hr hrs)

theorem branch (s : Spelling) {setting : Setting} (hschema : s.FindsTables setting.schema)
    (b : Branch) {outer outer' : List Level}
    (ho : List.Forall₂ (Level.Respelled s) outer outer') :
    s.InStep (BranchResult.Respelled s) (inferBranch setting outer b)
      (inferBranch setting outer' (b.plain s)) := by
  match b with
  | ⟨_, itemList, sources, joins, criteria, group, having⟩ =>
    refine bind get fun r r' hr => ?_
    refine bind (sourceList s hschema sources (.empty s)) fun listed listed' hlisted => ?_
    refine bind (joinList s hschema joins ho hlisted (Sources.Respelled.lastName s sources))
      fun joined joined' hjoined => ?_
    -- as many placeholders have been met before in both walks
    have hstart : r'.placeholders.length = r.placeholders.length := hr.placeholders.length_eq.symm
    rw [hstart]
    refine bind (cutPlaceholders _) fun later later' hlater => ?_
    have hs : Scope.Respelled s ⟨joined.columns, outer⟩ ⟨joined'.columns, outer'⟩ :=
      ⟨hjoined.columns, ho⟩
    refine bind (items s hschema itemList hs) fun cs cs' hcs => ?_
    refine bind (appendPlaceholders hlater) fun _ _ _ => ?_
    refine bind (some s hschema criteria hs) fun _ _ _ => ?_
    have hgrouped : Scope.Respelled s ⟨joined.columns, levelOf "" cs :: outer⟩
        ⟨joined'.columns, levelOf "" cs' :: outer'⟩ :=
      ⟨hjoined.columns, .cons (levelOf_respelled hcs rfl) ho⟩
    refine bind (all s hschema group hgrouped) fun _ _ _ => ?_
    refine bind (some s hschema having hgrouped) fun _ _ _ => ?_
    exact pure (.of hjoined hs sources joins criteria group hcs)

theorem items (s : Spelling) {setting : Setting} (hschema : s.FindsTables setting.schema)
    (is : List Item) {scope scope' : Scope} (hs : scope.Respelled s scope') :
    s.InStep (List.Forall₂ (OutputColumn.Respelled s)) (inferItems setting scope is)
      (inferItems setting scope' (plainItems s is)) := by
  match is with
  | [] => exact pure .nil
  | i :: rest =>
    refine bind (item s hschema i hs) fun cs cs' hcs => ?_
    exact bind (items s hschema rest hs) fun ds ds' hds => pure (List.rel_append hcs hds)

theorem item (s : Spelling) {setting : Setting} (hschema : s.FindsTables setting.schema)
    (i : Item) {scope scope' : Scope} (hs : scope.Respelled s scope') :
    s.InStep (List.Forall₂ (OutputColumn.Respelled s)) (inferItem setting scope i)
      (inferItem setting scope' (i.plain s)) := by
  match i with
  | .star => exact s.comparison.star hs.columns
  | .tableStar table =>
    have hof := Level.Respelled.ofTable hs.columns table
    unfold Item.plain inferItem
    generalize Level.ofTable scope.columns table = l,
      Level.ofTable scope'.columns (s.name table) = l' at hof
    cases hof with
    | nil => exact throw rfl
    | cons hc hrest => exact s.comparison.star (.cons hc hrest)
  | .expr value aliasName =>
    have hvalue : s.InStep (Inferred.Respelled s) (inferExpr setting scope value)
        (inferExpr setting scope' (value.plain (s.projected value aliasName))) := by
      unfold Spelling.projected
      split
      · exact .of_kept (expr s.kept hschema value hs.kept)
      · exact expr s hschema value hs
    refine bind hvalue fun e e' he => ?_
    exact pure (.cons (.ofInferred (outputName_plain s value aliasName) he) .nil)

theorem sourceList (s : Spelling) {setting : Setting} (hschema : s.FindsTables setting.schema)
    (xs : List Source) {done done' : Sources} (hdone : done.Respelled s done') :
    s.InStep (Sources.Respelled s) (inferSources setting done xs)
      (inferSources setting done' (plainSources s xs)) := by
  match xs with
  | [] => exact pure hdone
  | x :: rest =>
    refine bind (source s hschema x) fun l l' hl => ?_
    exact sourceList s hschema rest (hdone.add x hl)

theorem source (s : Spelling) {setting : Setting} (hschema : s.FindsTables setting.schema)
    (x : Source) :
    s.InStep (Level.Respelled s) (inferSource setting x) (inferSource setting (x.plain s)) := by
  match x with
  | .table name aliasName => exact tableColumns hschema name aliasName
  | .derived q aliasName =>
    refine bind (query s hschema q .nil) fun result result' hresult => ?_
    exact pure (levelOf_respelled hresult.columns (s.same_name aliasName))

theorem joinList (s : Spelling) {setting : Setting} (hschema : s.FindsTables setting.schema)
    (js : List Join) {outer outer' : List Level}
    (ho : List.Forall₂ (Level.Respelled s) outer outer') {done done' : Sources}
    (hdone : done.Respelled s done') {previous previous' : String}
    (hprevious : s.Same previous previous') :
    s.InStep (Sources.Respelled s) (inferJoins setting outer done previous js)
      (inferJoins setting outer' done' previous' (plainJoins s js)) := by
  match js with
  | [] => exact pure hdone
  | ⟨kind, x, on⟩ :: rest =>
    refine bind (source s hschema x) fun l l' hl => ?_
    have hs : Scope.Respelled s ⟨done.columns ++ l, outer⟩ ⟨done'.columns ++ l', outer'⟩ :=
      ⟨List.rel_append hdone.columns hl, ho⟩
    refine bind (condition s hschema on hs) fun _ _ _ => ?_
    have hname : s.Same x.visibleName (x.plain s).visibleName := by
      rw [Source.visibleName_plain]
      exact s.same_name _
    exact joinList s hschema rest ho (hdone.join ho hprevious kind x on hl) hname

theorem condition (s : Spelling) {setting : Setting} (hschema : s.FindsTables setting.schema)
    (c : JoinCondition) {scope scope' : Scope} (hs : scope.Respelled s scope') :
    s.InStep Done (inferCondition setting scope c)
      (inferCondition setting scope' (c.plain s)) := by
  match c with
  | .predicate e => exact bind (expr s hschema e hs) fun _ _ _ => pure trivial
  | .shared _ => exact pure trivial
  | .unconditional => exact pure trivial

theorem orderBy (s : Spelling) {setting : Setting} (hschema : s.FindsTables setting.schema)
    (terms : List OrderTerm) {scope scope' : Scope} (hs : scope.Respelled s scope') :
    s.InStep Done (inferOrder setting scope terms)
      (inferOrder setting scope' (plainOrder s terms)) := by
  match terms with
  | [] => exact pure trivial
  | ⟨value, _⟩ :: rest =>
    unfold plainOrder inferOrder
    rw [Expr.isParameter_plain]
    cases value.isParameter with
    | true => exact orderBy s hschema rest hs
    | false => exact bind (expr s hschema value hs) fun _ _ _ => orderBy s hschema rest hs

theorem limitTo (s : Spelling) {setting : Setting} (hschema : s.FindsTables setting.schema)
    (l : Option Limit) {scope scope' : Scope} (hs : scope.Respelled s scope') :
    s.InStep Done (inferLimit setting scope l) (inferLimit setting scope' (plainLimit s l)) := by
  match l with
  | .none => exact pure trivial
  | .some ⟨count, offset⟩ =>
    refine bind (expr s hschema count hs) fun c c' hc => ?_
    refine bind (s.comparison.bound setting trivial hc) fun _ _ _ => ?_
    exact offsetBy s hschema offset hs

theorem offsetBy (s : Spelling) {setting : Setting} (hschema : s.FindsTables setting.schema)
    (o : Option Expr) {scope scope' : Scope} (hs : scope.Respelled s scope') :
    s.InStep Done (inferOffset setting scope o) (inferOffset setting scope' (plainSome s o)) := by
  match o with
  | .none => exact pure trivial
  | .some e =>
    refine bind (expr s hschema e hs) fun i i' hi => ?_
    exact s.comparison.bound setting trivial hi

end

end Spelling.InStep

end QuerySignature
