import QuerySignature.Proofs.Drawn.Steps
import QuerySignature.Proofs.Walk.Rules

namespace QuerySignature

/-! # Where the types of a walk come from

The forms of expressions and the clauses of queries draw on the types of the profile and of the
schema, and on those of the columns that they see. By induction over the statement, so does the
whole walk.

- `Draws.call`: a call of a function.
- `Draws.expr`, `Draws.query`, ...: one case for each form of expression and for each clause.
- `Draws.statement`: a statement.
-/

namespace Draws

variable {T : SqlType → Prop} {setting : Setting}

/-! ## Calls -/

section

variable {profile : Profile} (hprofile : ∀ t ∈ profile.types, T t) (label : String)
  {e : Inferred} {es : List Inferred}

theorem texts {v : TypeVar} (hv : v.DrawnFrom T) (hes : ∀ e ∈ es, e.DrawnFrom T) :
    Draws T (fun _ => True) (demandText label v es) := by
  induction es with
  | nil => exact pure trivial
  | cons e rest ih =>
    refine bind (demand (.bestEffort _ hv (hes e (.head _)))) fun _ _ => ?_
    exact ih fun other hother => hes other (.tail _ hother)

theorem widest {v : TypeVar} (hv : v.DrawnFrom T) (hes : ∀ e ∈ es, e.DrawnFrom T) :
    Draws T (fun _ => True) (demandWidest label v es) := by
  induction es with
  | nil => exact pure trivial
  | cons e rest ih =>
    refine bind (demand (.widest _ _ hv (hes e (.head _)))) fun _ _ => ?_
    exact ih fun other hother => hes other (.tail _ hother)

theorem choice (hes : ∀ e ∈ es, e.DrawnFrom T) (notNull : Bool) :
    Draws T (Inferred.DrawnFrom T) (inferChoice label es notNull) := by
  refine bind (fresh _ .unknown) fun v hv => ?_
  exact bind (widest _ hv hes) fun _ _ => pure hv

theorem sum (he : e.DrawnFrom T) : Draws T (Inferred.DrawnFrom T) (inferSum label e) := by
  refine bind (fresh _ .unknown) fun v hv => ?_
  exact bind (demand (.widest _ _ hv he)) fun _ _ => pure hv

theorem extreme (he : e.DrawnFrom T) : Draws T (Inferred.DrawnFrom T) (inferExtreme label e) := by
  refine bind (fresh _ .unknown) fun v hv => ?_
  exact bind (demand (.bestEffort _ hv he)) fun _ _ => pure hv

include hprofile

theorem concat (hes : ∀ e ∈ es, e.DrawnFrom T) :
    Draws T (Inferred.DrawnFrom T) (inferConcat profile label es) := by
  refine bind (freshExact _ (hprofile _ (by simp [Profile.types]))) fun v hv => ?_
  exact bind (texts _ hv hes) fun _ _ => pure hv

theorem date (he : e.DrawnFrom T) :
    Draws T (Inferred.DrawnFrom T) (inferDate profile label e) := by
  refine bind (freshExact _ (hprofile _ (by simp [Profile.types]))) fun v hv => ?_
  refine bind (demand (.bestEffort _ hv he)) fun _ _ => bind (forceNotNull e) fun _ _ => ?_
  exact bind (freshExact _ (hprofile _ (by simp [Profile.types]))) fun w hw => pure hw

theorem avg (he : e.DrawnFrom T) : Draws T (Inferred.DrawnFrom T) (inferAvg profile label e) := by
  refine bind (fresh _ .number) fun v hv => ?_
  refine bind (demand (.bestEffort _ he hv)) fun _ _ => ?_
  exact bind (freshExact _ (hprofile _ (by simp [Profile.types]))) fun w hw => pure hw

theorem round (he : e.DrawnFrom T) {digits : Option Inferred}
    (hdigits : ∀ d ∈ digits, d.DrawnFrom T) :
    Draws T (Inferred.DrawnFrom T) (inferRound profile label e digits) := by
  refine bind (fresh _ .unknown) fun v hv => ?_
  refine bind (demand (.strict _ hv he)) fun _ _ => ?_
  cases digits with
  | none => exact pure hv
  | some digits =>
    refine bind (freshExact _ (hprofile _ (by simp [Profile.types]))) fun w hw => ?_
    exact bind (demand (.bestEffort _ (hdigits digits rfl) hw)) fun _ _ => pure hv

theorem floor (he : e.DrawnFrom T) :
    Draws T (Inferred.DrawnFrom T) (inferFloor profile label e) := by
  refine bind (freshExact _ (hprofile _ (by simp [Profile.types]))) fun v hv => ?_
  refine bind (demand (.bestEffort _ he hv)) fun _ _ => ?_
  exact bind (freshExact _ (hprofile _ (by simp [Profile.types]))) fun w hw => pure hw

theorem text (he : e.DrawnFrom T) :
    Draws T (Inferred.DrawnFrom T) (inferText profile label e) := by
  refine bind (freshExact _ (hprofile _ (by simp [Profile.types]))) fun v hv => ?_
  exact bind (demand (.bestEffort _ hv he)) fun _ _ => pure hv

theorem length (he : e.DrawnFrom T) :
    Draws T (Inferred.DrawnFrom T) (inferLength profile label e) := by
  refine bind (freshExact _ (hprofile _ (by simp [Profile.types]))) fun v hv => ?_
  refine bind (demand (.bestEffort _ hv he)) fun _ _ => ?_
  exact bind (freshExact _ (hprofile _ (by simp [Profile.types]))) fun w hw => pure hw

/-- The rule of a function takes the types that it makes from the profile. -/
theorem rule {f : SqlFunction} (hes : ∀ e ∈ es, e.DrawnFrom T) {rule : Analyze Inferred}
    (h : f.rule? profile label es = some rule) : Draws T (Inferred.DrawnFrom T) rule := by
  cases SqlFunction.ruleForm h with
  | count => exact bind (freshExact _ (hprofile _ (by simp [Profile.types]))) fun v hv => pure hv
  | concat => exact concat hprofile label hes
  | choice => exact choice label hes _
  | date _ he => exact date hprofile label (hes _ he)
  | sum he => exact sum label (hes _ he)
  | avg he => exact avg hprofile label (hes _ he)
  | extreme he => exact extreme label (hes _ he)
  | round he hdigits => exact round hprofile label (hes _ he) fun d hd => hes d (hdigits d hd)
  | floor he => exact floor hprofile label (hes _ he)
  | text he => exact text hprofile label (hes _ he)
  | length he => exact length hprofile label (hes _ he)

theorem call (function : String) (hes : ∀ e ∈ es, e.DrawnFrom T) :
    Draws T (Inferred.DrawnFrom T) (inferCall profile function label es) := by
  obtain ⟨e, heq⟩ | ⟨f, rule, -, -, hrule, heq⟩ := inferCall_cases profile function label es
  · rw [heq]
    exact throw e
  · rw [heq]
    exact bind (Draws.rule hprofile label hes hrule) fun e he => pure he

end

/-! ## Forms -/

section

variable (hsetting : ∀ t ∈ setting.types, T t)

theorem firstColumn (text : String) {result : QueryResult} (hresult : result.DrawnFrom T) :
    Draws T (OutputColumn.DrawnFrom T) (QuerySignature.firstColumn text result) := by
  unfold QuerySignature.firstColumn
  split
  · next column rest hcolumns => exact pure (hresult column (by rw [hcolumns]; exact .head _))
  · exact throw _

theorem forceAllNotNull (es : List Inferred) :
    Draws T (fun _ => True) (QuerySignature.forceAllNotNull es) := by
  induction es with
  | nil => exact pure trivial
  | cons e rest ih => exact bind (forceNotNull e) fun _ _ => ih

theorem column {scope : Scope} (hscope : scope.DrawnFrom T) (c : ColumnRef) :
    Draws T (Inferred.DrawnFrom T) (inferColumn scope c) := by
  refine bind (resolve hscope c) fun column hcolumn => ?_
  exact bind (reference hcolumn) fun v hv => pure hv

theorem arithmetic (label : String) {left right : Inferred} (hleft : left.DrawnFrom T)
    (hright : right.DrawnFrom T) :
    Draws T (Inferred.DrawnFrom T) (inferArithmetic label left right) := by
  refine bind (fresh _ .number) fun v hv => ?_
  refine bind (demand (.widest _ _ hleft hright)) fun _ _ => ?_
  refine bind (demand (.widest _ _ hv hleft)) fun _ _ => ?_
  exact bind (demand (.widest _ _ hv hright)) fun _ _ => pure hv

include hsetting

theorem profile_types : ∀ t ∈ setting.profile.types, T t :=
  fun t ht => hsetting t (List.mem_append_left _ ht)

theorem predicate (label : String) :
    Draws T (Inferred.DrawnFrom T) (QuerySignature.predicate setting label) := by
  have htype : T setting.profile.predicateType :=
    profile_types hsetting _ (by simp [Profile.types])
  exact bind (freshExact _ htype) fun v hv => pure hv

theorem literal (value : Literal) :
    Draws T (Inferred.DrawnFrom T) (inferLiteral setting.profile value) := by
  have hprofile := profile_types hsetting
  cases value with
  | string s =>
    exact bind (freshExact _ (hprofile _ (by simp [Profile.types]))) fun v hv => pure hv
  | int n =>
    exact bind (freshExact _ (hprofile _ (by simp [Profile.types]))) fun v hv => pure hv
  | float x =>
    exact bind (freshExact _ (hprofile _ (by simp [Profile.types]))) fun v hv => pure hv
  | bool b => exact bind (fresh _ .unknown) fun v hv => pure hv
  | null => exact bind (fresh _ .unknown) fun v hv => pure hv

theorem compare (label : String) {left right : Inferred} (hleft : left.DrawnFrom T)
    (hright : right.DrawnFrom T) :
    Draws T (Inferred.DrawnFrom T) (inferCompare setting label left right) := by
  refine bind (demand (.strict _ hleft hright)) fun _ _ => ?_
  refine bind (forceNotNull left) fun _ _ => bind (forceNotNull right) fun _ _ => ?_
  exact predicate hsetting label

theorem between (label : String) {value low high : Inferred} (hvalue : value.DrawnFrom T)
    (hlow : low.DrawnFrom T) (hhigh : high.DrawnFrom T) :
    Draws T (Inferred.DrawnFrom T) (inferBetween setting label value low high) := by
  refine bind (demand (.strict _ hvalue hlow)) fun _ _ => ?_
  refine bind (demand (.strict _ hvalue hhigh)) fun _ _ => ?_
  refine bind (forceNotNull value) fun _ _ => bind (forceNotNull low) fun _ _ => ?_
  exact bind (forceNotNull high) fun _ _ => predicate hsetting label

theorem inList (label : String) {value : Inferred} (hvalue : value.DrawnFrom T)
    {items : List Inferred} (hitems : ∀ e ∈ items, e.DrawnFrom T) :
    Draws T (Inferred.DrawnFrom T) (inferInList setting label value items) := by
  have hvars : ∀ v ∈ items.map (·.var), v.DrawnFrom T := by
    intro v hv
    obtain ⟨e, he, rfl⟩ := List.mem_map.1 hv
    exact hitems e he
  refine bind (demand (.row _ _ hvalue hvars)) fun _ _ => ?_
  exact bind (forceAllNotNull items) fun _ _ => predicate hsetting label

theorem inQuery (label : String) {value : Inferred} (hvalue : value.DrawnFrom T)
    {column : OutputColumn} (hcolumn : column.DrawnFrom T) :
    Draws T (Inferred.DrawnFrom T) (inferInQuery setting label value column) := by
  have hvars : ∀ v ∈ [column.var], v.DrawnFrom T := List.forall_mem_singleton.2 hcolumn.var
  exact bind (demand (.row _ _ hvalue hvars)) fun _ _ => predicate hsetting label

theorem like (label : String) {value pattern : Inferred} (hvalue : value.DrawnFrom T)
    (hpattern : pattern.DrawnFrom T) :
    Draws T (Inferred.DrawnFrom T) (inferLike setting label value pattern) := by
  have htype : T setting.profile.textType := profile_types hsetting _ (by simp [Profile.types])
  refine bind (freshExact _ htype) fun v hv => ?_
  refine bind (demand (.bestEffort _ hv hpattern)) fun _ _ => ?_
  refine bind (demand (.bestEffort _ hvalue hpattern)) fun _ _ => ?_
  refine bind (forceNotNull value) fun _ _ => bind (forceNotNull pattern) fun _ _ => ?_
  exact predicate hsetting label

theorem caseWhen (label : String) {operand : Option Inferred}
    (hoperand : ∀ o ∈ operand, o.DrawnFrom T) {condition : Inferred}
    (hcondition : condition.DrawnFrom T) :
    Draws T (fun _ => True) (inferWhen setting label operand condition) := by
  cases operand with
  | some operand =>
    refine bind (demand (.strict _ (hoperand operand rfl) hcondition)) fun _ _ => ?_
    exact forceNotNull condition
  | none =>
    have htype : T setting.profile.predicateType :=
      profile_types hsetting _ (by simp [Profile.types])
    refine bind (freshExact _ htype) fun v hv => ?_
    exact demand (.bestEffort _ hcondition hv)

theorem bound (label : String) {e : Inferred} (he : e.DrawnFrom T) :
    Draws T (fun _ => True) (inferBound setting label e) := by
  have htype : T setting.profile.limitType := profile_types hsetting _ (by simp [Profile.types])
  refine bind (freshExact _ htype) fun v hv => ?_
  exact bind (demand (.strict _ hv he)) fun _ _ => forceNotNull e

theorem schema_types {name : String} {records : List ColumnRecord}
    (h : setting.schema.columnsOf? name = some records) :
    ∀ record ∈ records, T record.type := by
  intro record hrecord
  obtain ⟨entry, hentry, rfl⟩ := Option.map_eq_some_iff.1 h
  have hmem : entry ∈ setting.schema.entries := by
    rcases Option.or_eq_some_iff.1 hentry with hexact | ⟨-, hcaseless⟩
    · exact List.mem_of_find?_eq_some hexact
    · exact List.mem_of_find?_eq_some hcaseless
  refine hsetting _ (List.mem_append_right _ ?_)
  exact List.mem_flatMap.2 ⟨entry, hmem, List.mem_map.2 ⟨record, hrecord, rfl⟩⟩

/-- The columns of a table have their declared types; those of a common table are in the run. -/
theorem tableColumns (name : String) (aliasName : Option String) :
    Draws T (Level.DrawnFrom T) (QuerySignature.tableColumns setting.schema name aliasName) := by
  refine bind get fun run hrun => ?_
  -- a common table hides a table of the schema
  cases hcte : run.cte? (lastSegment name) with
  | some columns =>
    obtain ⟨entry, hentry, rfl⟩ := Option.map_eq_some_iff.1 hcte
    have hcolumns := hrun.ctes entry (List.mem_of_find?_eq_some hentry)
    refine pure fun column hcolumn => ?_
    obtain ⟨found, hfound, rfl⟩ := List.mem_map.1 hcolumn
    exact hcolumns found hfound
  | none =>
    cases hrecords : setting.schema.columnsOf? (lastSegment name) with
    | some records => exact freshColumns _ (schema_types hsetting hrecords)
    | none => exact throw _

end

/-! ## Expressions and queries -/

mutual

theorem expr (hsetting : ∀ t ∈ setting.types, T t) {scope : Scope} (hscope : scope.DrawnFrom T)
    (e : Expr) :
    Draws T (Inferred.DrawnFrom T) (inferExpr setting scope e) := by
  match e with
  | .literal value => exact literal hsetting value
  | .column c => exact column hscope c
  | .parameter name => exact addPlaceholder name false
  | .paren inner => exact expr hsetting hscope inner
  | .arithmetic op left right =>
    refine bind (expr hsetting hscope left) fun l hl => ?_
    exact bind (expr hsetting hscope right) fun r hr => arithmetic _ hl hr
  | .compare op left right =>
    refine bind (expr hsetting hscope left) fun l hl => ?_
    exact bind (expr hsetting hscope right) fun r hr => compare hsetting _ hl hr
  | .between negated value low high =>
    refine bind (expr hsetting hscope value) fun v hv => ?_
    refine bind (expr hsetting hscope low) fun l hl => ?_
    exact bind (expr hsetting hscope high) fun h hh => between hsetting _ hv hl hh
  | .inList negated value items =>
    refine bind (expr hsetting hscope value) fun v hv => ?_
    refine bind (forceNotNull v) fun _ _ => ?_
    dsimp only
    -- a placeholder that is all of the list stands for a list
    cases soleParameter? items with
    | some name =>
      refine bind (addPlaceholder name true) fun list hlist => ?_
      have hitems : ∀ e ∈ [list], e.DrawnFrom T := List.forall_mem_singleton.2 hlist
      exact bind (pure hitems) fun es hes => inList hsetting _ hv hes
    | none => exact bind (all hsetting hscope items) fun es hes => inList hsetting _ hv hes
  | .inQuery negated value q =>
    refine bind (expr hsetting hscope value) fun v hv => ?_
    refine bind (forceNotNull v) fun _ _ => ?_
    refine bind (query hsetting hscope q) fun result hresult => ?_
    exact bind (firstColumn _ hresult) fun c hc => inQuery hsetting _ hv hc
  | .like negated value pattern =>
    refine bind (expr hsetting hscope value) fun v hv => ?_
    exact bind (expr hsetting hscope pattern) fun p hp => like hsetting _ hv hp
  | .isNull negated value => exact bind (expr hsetting hscope value) fun _ _ => predicate hsetting _
  | .and left right =>
    refine bind (expr hsetting hscope left) fun _ _ => ?_
    exact bind (expr hsetting hscope right) fun _ _ => predicate hsetting _
  | .or left right =>
    refine bind (expr hsetting hscope left) fun _ _ => ?_
    exact bind (expr hsetting hscope right) fun _ _ => predicate hsetting _
  | .not operand => exact bind (expr hsetting hscope operand) fun _ _ => predicate hsetting _
  | .call function distinct es =>
    refine bind (arguments hsetting hscope es) fun es hes => ?_
    exact call (profile_types hsetting) _ function hes
  | .case operand branches otherwise =>
    refine bind (option hsetting hscope operand) fun o ho => ?_
    refine bind (fresh _ .unknown) fun v hv => ?_
    refine bind (caseBranches hsetting hscope ho hv branches) fun _ _ => ?_
    exact bind (caseElse hsetting hscope hv otherwise) fun _ _ => pure hv
  | .scalar q =>
    refine bind (query hsetting hscope q) fun result hresult => ?_
    exact bind (firstColumn _ hresult) fun c hc => pure hc.var
  | .hasRows q => exact bind (query hsetting hscope q) fun _ _ => predicate hsetting _
  | .star => exact throw _

theorem all (hsetting : ∀ t ∈ setting.types, T t) {scope : Scope} (hscope : scope.DrawnFrom T)
    (es : List Expr) :
    Draws T (fun inferred => ∀ e ∈ inferred, e.DrawnFrom T) (inferAll setting scope es) := by
  match es with
  | [] => exact pure fun _ he => absurd he List.not_mem_nil
  | e :: rest =>
    refine bind (expr hsetting hscope e) fun first hfirst => ?_
    refine bind (all hsetting hscope rest) fun others hothers => ?_
    exact pure (List.forall_mem_cons.2 ⟨hfirst, hothers⟩)

theorem arguments (hsetting : ∀ t ∈ setting.types, T t) {scope : Scope} (hscope : scope.DrawnFrom T)
    (es : List Expr) :
    Draws T (fun inferred => ∀ e ∈ inferred, e.DrawnFrom T) (inferArguments setting scope es) := by
  match es with
  | [] => exact pure fun _ he => absurd he List.not_mem_nil
  | e :: rest =>
    unfold inferArguments
    split
    · exact arguments hsetting hscope rest
    · refine bind (expr hsetting hscope e) fun first hfirst => ?_
      refine bind (arguments hsetting hscope rest) fun others hothers => ?_
      exact pure (List.forall_mem_cons.2 ⟨hfirst, hothers⟩)

theorem option (hsetting : ∀ t ∈ setting.types, T t) {scope : Scope} (hscope : scope.DrawnFrom T)
    (o : Option Expr) :
    Draws T (fun inferred => ∀ e ∈ inferred, e.DrawnFrom T) (inferSome setting scope o) := by
  match o with
  | none => exact pure fun _ h => absurd h (Option.not_mem_none _)
  | some e =>
    refine bind (expr hsetting hscope e) fun inferred he => pure fun other hother => ?_
    rw [← Option.some.inj hother]
    exact he

theorem caseBranches (hsetting : ∀ t ∈ setting.types, T t) {scope : Scope}
    (hscope : scope.DrawnFrom T) {operand : Option Inferred}
    (hoperand : ∀ o ∈ operand, o.DrawnFrom T) {v : TypeVar} (hv : v.DrawnFrom T)
    (bs : List WhenThen) :
    Draws T (fun _ => True) (inferBranches setting scope operand v bs) := by
  match bs with
  | [] => exact pure trivial
  | ⟨condition, value⟩ :: rest =>
    refine bind (expr hsetting hscope condition) fun c hc => ?_
    refine bind (caseWhen hsetting _ hoperand hc) fun _ _ => ?_
    refine bind (expr hsetting hscope value) fun e he => ?_
    refine bind (demand (.widest _ _ hv he)) fun _ _ => ?_
    exact bind (caseBranches hsetting hscope hoperand hv rest) fun _ _ => pure trivial

theorem caseElse (hsetting : ∀ t ∈ setting.types, T t) {scope : Scope} (hscope : scope.DrawnFrom T)
    {v : TypeVar} (hv : v.DrawnFrom T)
    (o : Option Expr) : Draws T (fun _ => True) (inferElse setting scope v o) := by
  match o with
  | none => exact pure trivial
  | some e =>
    refine bind (expr hsetting hscope e) fun inferred he => ?_
    exact bind (demand (.widest _ _ hv he)) fun _ _ => pure trivial

theorem query (hsetting : ∀ t ∈ setting.types, T t) {outer : List Level}
    (houter : ∀ level ∈ outer, Level.DrawnFrom T level)
    (q : Select) : Draws T (QueryResult.DrawnFrom T) (inferQuery setting outer q) := by
  match q with
  | ⟨ctes, branches, order, limit⟩ =>
    refine keepingCtes (bind (commonTables hsetting houter ctes) fun _ _ => ?_)
    refine bind (union hsetting houter branches) fun results hresults => ?_
    match results with
    | [] => exact throw _
    | first :: others =>
      obtain ⟨hfirst, hothers⟩ := List.forall_mem_cons.1 hresults
      have hunion : ∀ columns, unionColumns first.columns others = .ok columns →
          ∀ column ∈ columns, column.DrawnFrom T :=
        fun columns h => drawnFrom_of_unionColumns hfirst.columns hothers h
      refine bind (lift hunion) fun columns hcolumns => ?_
      have hvisible : ∀ level ∈ first.visible :: outer, Level.DrawnFrom T level :=
        List.forall_mem_cons.2 ⟨hfirst.visible, houter⟩
      refine bind (orderBy hsetting (.within (.levelOf "" hcolumns) hvisible) order) fun _ _ => ?_
      refine bind (limitTo hsetting (.within hfirst.visible houter) limit) fun _ _ => ?_
      exact pure hcolumns

theorem commonTables (hsetting : ∀ t ∈ setting.types, T t) {outer : List Level}
    (houter : ∀ level ∈ outer, Level.DrawnFrom T level)
    (ctes : List Cte) : Draws T (fun _ => True) (inferCtes setting outer ctes) := by
  match ctes with
  | [] => exact pure trivial
  | ⟨name, q⟩ :: rest =>
    refine bind (query hsetting houter q) fun result hresult => ?_
    refine bind (declareCte name (.levelOf name hresult)) fun _ _ => ?_
    exact commonTables hsetting houter rest

theorem union (hsetting : ∀ t ∈ setting.types, T t) {outer : List Level}
    (houter : ∀ level ∈ outer, Level.DrawnFrom T level)
    (bs : List Branch) :
    Draws T (fun results => ∀ b ∈ results, BranchResult.DrawnFrom T b)
      (inferUnion setting outer bs) := by
  match bs with
  | [] => exact pure fun _ hb => absurd hb List.not_mem_nil
  | b :: rest =>
    refine bind (branch hsetting houter b) fun first hfirst => ?_
    refine bind (union hsetting houter rest) fun others hothers => ?_
    exact pure (List.forall_mem_cons.2 ⟨hfirst, hothers⟩)

theorem branch (hsetting : ∀ t ∈ setting.types, T t) {outer : List Level}
    (houter : ∀ level ∈ outer, Level.DrawnFrom T level)
    (b : Branch) : Draws T (BranchResult.DrawnFrom T) (inferBranch setting outer b) := by
  match b with
  | ⟨distinct, itemList, sources, joins, criteria, group, having⟩ =>
    refine bind get fun run _ => ?_
    have hempty : Level.DrawnFrom T Sources.empty.columns :=
      fun _ hcolumn => absurd hcolumn List.not_mem_nil
    refine bind (sourceList hsetting hempty sources) fun listed hlisted => ?_
    refine bind (joinList hsetting houter hlisted _ joins) fun joined hjoined => ?_
    refine bind (cutPlaceholders _) fun later hlater => ?_
    have hscope : Scope.DrawnFrom T ⟨joined.columns, outer⟩ := .within hjoined houter
    refine bind (items hsetting hscope itemList) fun columns hcolumns => ?_
    refine bind (appendPlaceholders hlater) fun _ _ => ?_
    refine bind (option hsetting hscope criteria) fun _ _ => ?_
    -- GROUP BY and HAVING see the projected columns, too
    have hgrouped : Scope.DrawnFrom T ⟨joined.columns, levelOf "" columns :: outer⟩ :=
      .within hjoined (List.forall_mem_cons.2 ⟨.levelOf "" hcolumns, houter⟩)
    refine bind (all hsetting hgrouped group) fun _ _ => ?_
    refine bind (option hsetting hgrouped having) fun _ _ => ?_
    exact pure (.of hjoined hcolumns _ _ _ _)

theorem items (hsetting : ∀ t ∈ setting.types, T t) {scope : Scope} (hscope : scope.DrawnFrom T)
    (is : List Item) :
    Draws T (fun outputs => ∀ output ∈ outputs, OutputColumn.DrawnFrom T output)
      (inferItems setting scope is) := by
  match is with
  | [] => exact pure fun _ houtput => absurd houtput List.not_mem_nil
  | i :: rest =>
    refine bind (item hsetting hscope i) fun first hfirst => ?_
    refine bind (items hsetting hscope rest) fun others hothers => pure fun output houtput => ?_
    rcases List.mem_append.1 houtput with houtput | houtput
    · exact hfirst output houtput
    · exact hothers output houtput

theorem item (hsetting : ∀ t ∈ setting.types, T t) {scope : Scope} (hscope : scope.DrawnFrom T)
    (i : Item) :
    Draws T (fun outputs => ∀ output ∈ outputs, OutputColumn.DrawnFrom T output)
      (inferItem setting scope i) := by
  match i with
  | .star => exact star hscope.columns
  | .tableStar table =>
    have htable : Level.DrawnFrom T (scope.columns.ofTable table) :=
      fun column hcolumn => hscope.columns column (List.mem_of_mem_filter hcolumn)
    unfold inferItem
    split
    · exact throw _
    · exact star htable
  | .expr value aliasName =>
    refine bind (expr hsetting hscope value) fun e he => ?_
    exact pure (List.forall_mem_singleton.2 (.ofInferred _ he))

theorem sourceList (hsetting : ∀ t ∈ setting.types, T t) {done : Sources}
    (hdone : Level.DrawnFrom T done.columns) (xs : List Source) :
    Draws T (fun sources => Level.DrawnFrom T sources.columns)
      (inferSources setting done xs) := by
  match xs with
  | [] => exact pure hdone
  | x :: rest =>
    refine bind (source hsetting x) fun columns hcolumns => ?_
    exact sourceList hsetting (hdone.append hcolumns) rest

theorem source (hsetting : ∀ t ∈ setting.types, T t) (x : Source) : Draws T (Level.DrawnFrom T)
    (inferSource setting x) := by
  match x with
  | .table name aliasName => exact tableColumns hsetting name aliasName
  | .derived q aliasName =>
    have hnone : ∀ level ∈ [], Level.DrawnFrom T level :=
      fun _ hlevel => absurd hlevel List.not_mem_nil
    refine bind (query hsetting hnone q) fun result hresult => ?_
    exact pure (.levelOf aliasName hresult)

theorem joinList (hsetting : ∀ t ∈ setting.types, T t) {outer : List Level}
    (houter : ∀ level ∈ outer, Level.DrawnFrom T level)
    {done : Sources} (hdone : Level.DrawnFrom T done.columns) (previous : String)
    (js : List Join) :
    Draws T (fun sources => Level.DrawnFrom T sources.columns)
      (inferJoins setting outer done previous js) := by
  match js with
  | [] => exact pure hdone
  | ⟨kind, x, on⟩ :: rest =>
    refine bind (source hsetting x) fun columns hcolumns => ?_
    refine bind (condition hsetting (.within (hdone.append hcolumns) houter) on) fun _ _ => ?_
    exact joinList hsetting houter (hdone.join hcolumns outer previous kind x on) _ rest

theorem condition (hsetting : ∀ t ∈ setting.types, T t) {scope : Scope}
    (hscope : scope.DrawnFrom T) (c : JoinCondition) :
    Draws T (fun _ => True) (inferCondition setting scope c) := by
  match c with
  | .predicate e => exact bind (expr hsetting hscope e) fun _ _ => pure trivial
  | .shared columns => exact pure trivial
  | .unconditional => exact pure trivial

theorem orderBy (hsetting : ∀ t ∈ setting.types, T t) {scope : Scope}
    (hscope : scope.DrawnFrom T) (terms : List OrderTerm) :
    Draws T (fun _ => True) (inferOrder setting scope terms) := by
  match terms with
  | [] => exact pure trivial
  | ⟨value, descending⟩ :: rest =>
    unfold inferOrder
    split
    · exact orderBy hsetting hscope rest
    · exact bind (expr hsetting hscope value) fun _ _ => orderBy hsetting hscope rest

theorem limitTo (hsetting : ∀ t ∈ setting.types, T t) {scope : Scope}
    (hscope : scope.DrawnFrom T) (limit : Option Limit) :
    Draws T (fun _ => True) (inferLimit setting scope limit) := by
  match limit with
  | none => exact pure trivial
  | some ⟨count, start⟩ =>
    refine bind (expr hsetting hscope count) fun c hc => ?_
    exact bind (bound hsetting _ hc) fun _ _ => offset hsetting hscope start

theorem offset (hsetting : ∀ t ∈ setting.types, T t) {scope : Scope}
    (hscope : scope.DrawnFrom T) (start : Option Expr) :
    Draws T (fun _ => True) (inferOffset setting scope start) := by
  match start with
  | none => exact pure trivial
  | some e => exact bind (expr hsetting hscope e) fun o ho => bound hsetting _ ho

end

/-! ## Statements -/

section

variable (hsetting : ∀ t ∈ setting.types, T t)

include hsetting

theorem rows {targets : Level} (htargets : Level.DrawnFrom T targets) (values : List (List Expr)) :
    Draws T (fun _ => True) (inferRows setting targets values) := by
  have hempty : Scope.empty.DrawnFrom T := by
    intro level hlevel
    rw [List.mem_singleton.1 hlevel]
    exact fun _ hcolumn => absurd hcolumn List.not_mem_nil
  induction values with
  | nil => exact pure trivial
  | cons row rest ih =>
    unfold inferRows
    split
    · exact throw_bind _ _
    · refine bind (all hsetting hempty row) fun values hvalues => ?_
      have hwritten : ∀ value ∈ values.map fun e => Written.mk e.var e.placeholder,
          value.var.DrawnFrom T := by
        intro value hvalue
        obtain ⟨e, he, rfl⟩ := List.mem_map.1 hvalue
        exact hvalues e he
      exact bind (bindRow _ htargets hwritten) fun _ _ => ih

theorem insert (table : String) (columns : List String) (source : InsertRows) :
    Draws T (fun _ => True) (inferInsert setting table columns source) := by
  refine bind (tableColumns hsetting table none) fun all hall => ?_
  refine bind (lift fun _ => drawnFrom_of_targetColumns hall) fun targets htargets => ?_
  cases source with
  | values values => exact rows hsetting htargets values
  | query q =>
    have hnone : ∀ level ∈ [], Level.DrawnFrom T level :=
      fun _ hlevel => absurd hlevel List.not_mem_nil
    refine bind (query hsetting hnone q) fun result hresult => ?_
    dsimp only
    split
    · exact throw_bind _ _
    · refine bindRow _ htargets fun value hvalue => ?_
      obtain ⟨column, hcolumn, rfl⟩ := List.mem_map.1 hvalue
      exact (hresult column hcolumn).var

theorem assignments {scope : Scope} (hscope : scope.DrawnFrom T) (changes : List Assignment) :
    Draws T (fun _ => True) (inferAssignments setting scope changes) := by
  induction changes with
  | nil => exact pure trivial
  | cons change rest ih =>
    refine bind (resolve hscope _) fun target htarget => ?_
    refine bind (expr hsetting hscope change.value) fun value hvalue => ?_
    refine bind (reference htarget) fun v hv => ?_
    refine bind (demand (.strict _ hv hvalue)) fun _ _ => ?_
    exact bind (matchNull _ _) fun _ _ => ih

theorem update (table : String) (changes : List Assignment) (criteria : Option Expr) :
    Draws T (fun _ => True) (inferUpdate setting table changes criteria) := by
  have hnone : ∀ level ∈ [], Level.DrawnFrom T level :=
    fun _ hlevel => absurd hlevel List.not_mem_nil
  refine bind (tableColumns hsetting table none) fun columns hcolumns => ?_
  refine bind (assignments hsetting (.within hcolumns hnone) changes) fun _ _ => ?_
  refine bind get fun run _ => ?_
  exact bind (option hsetting (.within hcolumns hnone) criteria) fun _ _ => pure trivial

theorem delete (table : String) (criteria : Option Expr) :
    Draws T (fun _ => True) (inferDelete setting table criteria) := by
  have hnone : ∀ level ∈ [], Level.DrawnFrom T level :=
    fun _ hlevel => absurd hlevel List.not_mem_nil
  refine bind (tableColumns hsetting table none) fun columns hcolumns => ?_
  exact bind (option hsetting (.within hcolumns hnone) criteria) fun _ _ => pure trivial

/-- A walk over a statement adds to a run what is drawn from the types before it. -/
theorem statement (st : Statement) :
    Draws T (fun analysis => QueryResult.DrawnFrom T analysis.query)
      (inferStatement setting st) := by
  have hnone : ∀ level ∈ [], Level.DrawnFrom T level :=
    fun _ hlevel => absurd hlevel List.not_mem_nil
  have hwrite : ∀ written, QueryResult.DrawnFrom T (Analysis.ofWrite written).query :=
    fun _ _ hcolumn => absurd hcolumn List.not_mem_nil
  cases st with
  | select q => exact bind (query hsetting hnone q) fun result hresult => pure hresult
  | insert table columns source =>
    exact bind (insert hsetting table columns source) fun _ _ => pure (hwrite 0)
  | update table changes criteria =>
    exact bind (update hsetting table changes criteria) fun written _ => pure (hwrite written)
  | delete table criteria =>
    exact bind (delete hsetting table criteria) fun _ _ => pure (hwrite 0)

end

end Draws

end QuerySignature
