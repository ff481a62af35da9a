import QuerySignature.Proofs.Walk.Kept
import QuerySignature.Proofs.Walk.Simulation

namespace QuerySignature

/-! # Common tables stay inside

A query declares its common tables one after the other, each for what follows it, and forgets them in
the end. Nothing else in a walk touches the common tables. A walk may fail at any of its steps, and it
may do so at any depth, with the common tables of some queries declared and those of others not yet;
all the same, what was known before is what is known behind.

- `KeepsCtes.bind`: of two steps in a row, the second may not be taken at all.
- `inferQuery_of_no_ctes`: a query without common tables of its own has nothing to forget.
- `ctes_kept`: expressions, queries and FROM clauses leave the common tables as they were.
-/

/-- A step that leaves the common tables as they are, whether it gives a value or fails. -/
def KeepsCtes {α : Type} (step : Analyze α) : Prop :=
  ∀ run, (step.runFrom run).2.ctes = run.ctes

namespace KeepsCtes

variable {α β : Type} {step : Analyze α} {next : α → Analyze β}

theorem pure (a : α) : KeepsCtes (Pure.pure a : Analyze α) := fun _ => rfl

theorem throw (e : AnalysisError) : KeepsCtes (MonadExcept.throw e : Analyze α) := fun _ => rfl

theorem get : KeepsCtes (MonadState.get : Analyze Run) := fun _ => rfl

/-- Where the first step fails, the run stays as that one has left it. -/
theorem bind (h : KeepsCtes step) (hnext : ∀ a, KeepsCtes (next a)) : KeepsCtes (step >>= next) := by
  intro run
  have hfirst := h run
  rw [Analyze.runFrom_bind]
  generalize step.runFrom run = reached at hfirst
  rcases reached with ⟨e | a, after⟩
  · exact hfirst
  · exact (hnext a after).trans hfirst

/-! ## Steps -/

theorem fresh (label : String) (info : TypeInfo) : KeepsCtes (QuerySignature.fresh label info) :=
  fun _ => rfl

theorem demand (c : Constraint) : KeepsCtes (QuerySignature.demand c) := fun _ => rfl

theorem addPlaceholder (name : Option String) (list : Bool) :
    KeepsCtes (QuerySignature.addPlaceholder name list) := fun _ => rfl

theorem cutPlaceholders (start : Nat) : KeepsCtes (QuerySignature.cutPlaceholders start) :=
  fun _ => rfl

theorem appendPlaceholders (placeholders : List Placeholder) :
    KeepsCtes (QuerySignature.appendPlaceholders placeholders) := fun _ => rfl

theorem kept : KeptByForcing KeepsCtes where
  pure := pure
  throw := throw
  get := get
  bind := bind
  fresh := fresh
  demand c _ := demand c
  setNotNull _ _ := fun _ => rfl

/-- A step that gives a value has the common tables of the run before it behind it. -/
theorem of_outcome (h : KeepsCtes step) {r s : Run} {a : α} (hs : step.outcome r = .ok (a, s)) :
    s.ctes = r.ctes := by
  have hkeeps := h r
  rw [Analyze.runFrom_of_outcome hs] at hkeeps
  exact hkeeps

/-! ## Queries -/

/-- What a query declares is forgotten behind it, wherever it has failed. -/
theorem query (setting : Setting) (outer : List Level) (q : Select) :
    KeepsCtes (inferQuery setting outer q) := by
  intro run
  rw [inferQuery_eq]
  exact keepingCtes_ctes _ run

/-- Where nothing is declared, there is nothing to forget. -/
theorem keepingCtes_eq (h : KeepsCtes step) : QuerySignature.keepingCtes step = step := by
  funext run
  have hkeeps := h run
  show ((step.runFrom run).1, { (step.runFrom run).2 with ctes := run.ctes }) = step.runFrom run
  rw [← hkeeps]

/-! ## Expressions -/

mutual

theorem expr (setting : Setting) (scope : Scope) (e : Expr) :
    KeepsCtes (inferExpr setting scope e) := by
  -- common tables are declared in queries alone, and these forget them
  match e with
  | .literal value => exact kept.literal setting.profile value
  | .column c => exact kept.column scope c
  | .parameter name => exact addPlaceholder name false
  | .paren inner => exact expr setting scope inner
  | .arithmetic op left right =>
    refine bind (expr setting scope left) fun l => ?_
    exact bind (expr setting scope right) fun r => kept.arithmetic _ l r
  | .compare op left right =>
    refine bind (expr setting scope left) fun l => ?_
    exact bind (expr setting scope right) fun r => kept.compare setting _ l r
  | .between negated value low high =>
    refine bind (expr setting scope value) fun v => ?_
    refine bind (expr setting scope low) fun l => ?_
    exact bind (expr setting scope high) fun h => kept.between setting _ v l h
  | .inList negated value items =>
    refine bind (expr setting scope value) fun v => ?_
    refine bind (kept.forceNotNull v) fun _ => ?_
    dsimp only
    cases soleParameter? items with
    | some name =>
      refine bind (addPlaceholder name true) fun list => ?_
      exact bind (pure [list]) fun es => kept.inList setting _ v es
    | none => exact bind (all setting scope items) fun es => kept.inList setting _ v es
  | .inQuery negated value q =>
    refine bind (expr setting scope value) fun v => ?_
    refine bind (kept.forceNotNull v) fun _ => ?_
    refine bind (query setting scope.levels q) fun result => ?_
    exact bind (kept.firstColumn _ result) fun c => kept.inQuery setting _ v c
  | .like negated value pattern =>
    refine bind (expr setting scope value) fun v => ?_
    exact bind (expr setting scope pattern) fun p => kept.like setting _ v p
  | .isNull negated value => exact bind (expr setting scope value) fun _ => kept.predicate setting _
  | .and left right =>
    refine bind (expr setting scope left) fun _ => ?_
    exact bind (expr setting scope right) fun _ => kept.predicate setting _
  | .or left right =>
    refine bind (expr setting scope left) fun _ => ?_
    exact bind (expr setting scope right) fun _ => kept.predicate setting _
  | .not operand => exact bind (expr setting scope operand) fun _ => kept.predicate setting _
  | .call function distinct es =>
    refine bind (arguments setting scope es) fun es => ?_
    exact kept.call (fun _ _ => demand _) setting.profile function es
  | .case operand branches otherwise =>
    refine bind (option setting scope operand) fun o => ?_
    refine bind (fresh _ _) fun var => ?_
    refine bind (caseBranches setting scope o var branches) fun _ => ?_
    exact bind (caseElse setting scope var otherwise) fun _ => pure _
  | .scalar q =>
    refine bind (query setting scope.levels q) fun result => ?_
    exact bind (kept.firstColumn _ result) fun _ => pure _
  | .hasRows q => exact bind (query setting scope.levels q) fun _ => kept.predicate setting _
  | .star => exact throw _

theorem all (setting : Setting) (scope : Scope) (es : List Expr) :
    KeepsCtes (inferAll setting scope es) := by
  match es with
  | [] => exact pure []
  | e :: rest =>
    exact bind (expr setting scope e) fun _ => bind (all setting scope rest) fun _ => pure _

theorem arguments (setting : Setting) (scope : Scope) (es : List Expr) :
    KeepsCtes (inferArguments setting scope es) := by
  match es with
  | [] => exact pure []
  | e :: rest =>
    unfold inferArguments
    split
    · exact arguments setting scope rest
    · exact bind (expr setting scope e) fun _ => bind (arguments setting scope rest) fun _ => pure _

theorem option (setting : Setting) (scope : Scope) (o : Option Expr) :
    KeepsCtes (inferSome setting scope o) := by
  match o with
  | none => exact pure none
  | some e => exact bind (expr setting scope e) fun _ => pure _

theorem caseBranches (setting : Setting) (scope : Scope) (operand : Option Inferred) (var : TypeVar)
    (bs : List WhenThen) : KeepsCtes (inferBranches setting scope operand var bs) := by
  match bs with
  | [] => exact pure true
  | ⟨condition, value⟩ :: rest =>
    refine bind (expr setting scope condition) fun c => ?_
    refine bind (kept.caseWhen setting _ operand c) fun _ => ?_
    refine bind (expr setting scope value) fun v => ?_
    refine bind (demand _) fun _ => ?_
    exact bind (caseBranches setting scope operand var rest) fun _ => pure _

theorem caseElse (setting : Setting) (scope : Scope) (var : TypeVar) (o : Option Expr) :
    KeepsCtes (inferElse setting scope var o) := by
  match o with
  | none => exact pure false
  | some e => exact bind (expr setting scope e) fun _ => bind (demand _) fun _ => pure _

end

/-! ## Clauses -/

theorem condition (setting : Setting) (scope : Scope) (c : JoinCondition) :
    KeepsCtes (inferCondition setting scope c) := by
  cases c with
  | predicate e => exact bind (expr setting scope e) fun _ => pure ()
  | shared columns => exact pure ()
  | unconditional => exact pure ()

theorem source (setting : Setting) (x : Source) : KeepsCtes (inferSource setting x) := by
  cases x with
  | table name aliasName => exact kept.tableColumns setting.schema name aliasName
  | derived q aliasName => exact bind (query setting [] q) fun _ => pure _

theorem sourceList (setting : Setting) (xs : List Source) (done : Sources) :
    KeepsCtes (inferSources setting done xs) := by
  induction xs generalizing done with
  | nil => exact pure done
  | cons x rest ih => exact bind (source setting x) fun columns => ih (done.add x columns)

theorem joinList (setting : Setting) (outer : List Level) (js : List Join) (done : Sources)
    (previous : String) : KeepsCtes (inferJoins setting outer done previous js) := by
  induction js generalizing done previous with
  | nil => exact pure done
  | cons j rest ih =>
    obtain ⟨kind, x, on⟩ := j
    refine bind (source setting x) fun columns => ?_
    exact bind (condition setting _ on) fun _ => ih _ _

theorem clause (setting : Setting) (outer : List Level) (b : Branch) :
    KeepsCtes (inferFrom setting outer b) :=
  bind (sourceList setting b.sources _) fun listed => joinList setting outer b.joins listed _

theorem item (setting : Setting) (scope : Scope) (i : Item) :
    KeepsCtes (inferItem setting scope i) := by
  cases i with
  | star => exact kept.star scope.columns
  | tableStar table =>
    unfold inferItem
    split
    · exact throw _
    · exact kept.star _
  | expr value aliasName => exact bind (expr setting scope value) fun _ => pure _

theorem items (setting : Setting) (scope : Scope) (is : List Item) :
    KeepsCtes (inferItems setting scope is) := by
  induction is with
  | nil => exact pure []
  | cons i rest ih => exact bind (item setting scope i) fun _ => bind ih fun _ => pure _

theorem branch (setting : Setting) (outer : List Level) (b : Branch) :
    KeepsCtes (inferBranch setting outer b) := by
  obtain ⟨distinct, itemList, sources, joins, criteria, group, having⟩ := b
  refine bind get fun run => ?_
  refine bind (sourceList setting sources _) fun listed => ?_
  refine bind (joinList setting outer joins listed _) fun joined => ?_
  refine bind (cutPlaceholders _) fun later => ?_
  refine bind (items setting _ itemList) fun columns => ?_
  refine bind (appendPlaceholders later) fun _ => ?_
  refine bind (option setting _ criteria) fun _ => ?_
  refine bind (all setting _ group) fun _ => ?_
  exact bind (option setting _ having) fun _ => pure _

theorem union (setting : Setting) (outer : List Level) (bs : List Branch) :
    KeepsCtes (inferUnion setting outer bs) := by
  induction bs with
  | nil => exact pure []
  | cons b rest ih => exact bind (branch setting outer b) fun _ => bind ih fun _ => pure _

theorem orderBy (setting : Setting) (scope : Scope) (terms : List OrderTerm) :
    KeepsCtes (inferOrder setting scope terms) := by
  induction terms with
  | nil => exact pure ()
  | cons term rest ih =>
    obtain ⟨value, descending⟩ := term
    show KeepsCtes (if value.isParameter then _ else _)
    split
    · exact ih
    · exact bind (expr setting scope value) fun _ => ih

theorem limitTo (setting : Setting) (scope : Scope) (limit : Option Limit) :
    KeepsCtes (inferLimit setting scope limit) := by
  match limit with
  | none => exact pure ()
  | some ⟨count, none⟩ =>
    exact bind (expr setting scope count) fun c => bind (kept.bound setting _ c) fun _ => pure ()
  | some ⟨count, some offset⟩ =>
    refine bind (expr setting scope count) fun c => bind (kept.bound setting _ c) fun _ => ?_
    exact bind (expr setting scope offset) fun o => kept.bound setting _ o

/-- Behind its own common tables, a query declares no more of them. -/
theorem body (setting : Setting) (outer : List Level) (q : Select) :
    KeepsCtes (inferBody setting outer q) := by
  refine bind (union setting outer q.branches) fun results => ?_
  cases results with
  | nil => exact throw _
  | cons first others =>
    refine bind (kept.lift _) fun columns => ?_
    refine bind (orderBy setting _ q.order) fun _ => ?_
    exact bind (limitTo setting _ q.limit) fun _ => pure _

end KeepsCtes

/-! ## What is forgotten -/

/-- A query without common tables of its own has nothing to forget. -/
theorem inferQuery_of_no_ctes {setting : Setting} {outer : List Level} {q : Select}
    (h : q.ctes = []) : inferQuery setting outer q = inferBody setting outer q := by
  rw [inferQuery_eq, h]
  exact (KeepsCtes.body setting outer q).keepingCtes_eq

/-- Whatever a query, an expression or a FROM clause declares inside, at any depth, the run knows the
same common tables behind it as before, whether it has given a value or has failed. A query has to
forget only the common tables that it has declared itself. -/
theorem ctes_kept (setting : Setting) (outer : List Level) (run : Run) :
    (∀ q : Select, ((inferQuery setting outer q).runFrom run).2.ctes = run.ctes) ∧
    (∀ (columns : Level) (e : Expr),
      ((inferExpr setting ⟨columns, outer⟩ e).runFrom run).2.ctes = run.ctes) ∧
    (∀ b : Branch, ((inferFrom setting outer b).runFrom run).2.ctes = run.ctes) ∧
    ∀ q : Select, ((inferBody setting outer q).runFrom run).2.ctes = run.ctes ∧
      (q.ctes = [] → inferQuery setting outer q = inferBody setting outer q) := by
  refine ⟨?_, ?_, ?_, ?_⟩
  · intro q
    exact KeepsCtes.query setting outer q run
  · intro columns e
    exact KeepsCtes.expr setting ⟨columns, outer⟩ e run
  · intro b
    exact KeepsCtes.clause setting outer b run
  · intro q
    exact ⟨KeepsCtes.body setting outer q run, fun h => inferQuery_of_no_ctes h⟩

end QuerySignature
