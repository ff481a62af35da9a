import QuerySignature.Proofs.Criteria.KeyFilter
import QuerySignature.Proofs.Solver.Sparing
import QuerySignature.Proofs.Walk.Sound

namespace QuerySignature

/-! # Steps that go aside

A literal, a placeholder or a column, also in parentheses, asks for nothing that an earlier variable
would learn from. It makes a variable of its own, which is linked to the column that it stands for if
that is an output column of an inner query. Sources that are tables and joins without ON make
variables only, and a LIMIT by a literal or a placeholder ties its own two variables.

- `StaysAside.bind`: of two steps in a row, both go aside.
- `StaysAside.simple`: so do expressions that are no more than a literal, a placeholder or a column.
- `StaysAside.orderBy`, `StaysAside.limitTo`, `StaysAside.items`, ...: and clauses of such.
-/

/-! ## Simple expressions -/

/-- Whether an expression is a literal, a placeholder or a column, through parentheses. -/
def Expr.isSimple (e : Expr) : Bool := e.bare.isGiven || e.column?.isSome

/-- Whether a row count and an offset are literals or placeholders, through parentheses. -/
def Limit.isGiven (limit : Limit) : Bool :=
  limit.count.bare.isGiven && limit.offset.all (·.bare.isGiven)

/-- Whether an item is a star or a simple expression. -/
def Item.isSimple : Item → Bool
  | .star | .tableStar _ => true
  | .expr value _ => value.isSimple

/-- Whether a source is read by its name. -/
def Source.isNamed : Source → Bool
  | .table _ _ => true
  | .derived _ _ => false

/-- Whether a condition is no expression. -/
def JoinCondition.isSimple : JoinCondition → Bool
  | .predicate _ => false
  | .shared _ | .unconditional => true

/-- Whether a join is one with a source that is read by its name, without ON. -/
def Join.isSimple (j : Join) : Bool := j.source.isNamed && j.condition.isSimple

/-! ## Runs and steps -/

/-- A run that has gone on from another one aside of its variables. -/
def Run.GoesAside (r s : Run) : Prop :=
  ∃ own, s.constraints = r.constraints ++ own ∧ Aside r.issued (equationsOf own) s.issued

namespace Run.GoesAside

variable {r s t : Run}

theorem of_issued (hconstraints : s.constraints = r.constraints) (hissued : r.issued ≤ s.issued) :
    r.GoesAside s :=
  ⟨[], by rw [hconstraints, List.append_nil], .nil hissued⟩

theorem refl (r : Run) : r.GoesAside r := of_issued rfl (Nat.le_refl _)

theorem le (h : r.GoesAside s) : r.issued ≤ s.issued := by
  rcases h with ⟨own, -, haside⟩
  exact haside.le

theorem trans (h : r.GoesAside s) (h' : s.GoesAside t) : r.GoesAside t := by
  rcases h with ⟨own, hown, haside⟩
  rcases h' with ⟨later, hlater, haside'⟩
  refine ⟨own ++ later, by rw [hlater, hown, List.append_assoc], ?_⟩
  rw [equationsOf_append]
  exact haside.append haside'

end Run.GoesAside

/-- A step that goes aside of all variables, when the first `n` have been made. -/
def StaysAside {α : Type} (n : Nat) (step : Analyze α) : Prop :=
  ∀ r a s, n ≤ r.issued → step.outcome r = .ok (a, s) → r.GoesAside s

/-- Whatever a reference or a star may mean in a scope is among the first `n` variables. -/
structure Scope.Among (n : Nat) (scope : Scope) : Prop where
  columns : ∀ column ∈ scope.columns, column.var.id ≤ n
  meaning : ∀ c column, scope.resolve c = .ok column → column.var.id ≤ n

theorem Scope.Matches.among {made : List TypeInfo} {scope : Scope}
    (h : Scope.Matches .none made scope scope) {n : Nat} (hn : made.length ≤ n) : scope.Among n :=
  ⟨fun column hcolumn => Nat.le_trans (h.issued column hcolumn).le hn,
    fun _ _ hmeaning => Nat.le_trans (h.issued_of_resolve hmeaning).le hn⟩

namespace StaysAside

variable {α β : Type} {n : Nat}

theorem pure (a : α) : StaysAside n (Pure.pure a : Analyze α) := by
  intro r b s _ h
  cases h
  exact .refl r

theorem throw (e : AnalysisError) : StaysAside n (MonadExcept.throw e : Analyze α) := by
  intro r b s _ h
  cases h

theorem bind {step : Analyze α} {next : α → Analyze β} (h : StaysAside n step)
    (hnext : ∀ a, StaysAside n (next a)) : StaysAside n (step >>= next) := by
  intro r b s hr hs
  rw [Analyze.outcome_bind] at hs
  rcases bind_eq_ok.1 hs with ⟨⟨a, t⟩, ht, hs⟩
  have hfirst := h r a t hr ht
  exact hfirst.trans (hnext a t b s (Nat.le_trans hr hfirst.le) hs)

theorem get : StaysAside n (MonadState.get : Analyze Run) := by
  intro r b s _ h
  cases h
  exact .refl r

theorem fresh (label : String) (info : TypeInfo) : StaysAside n (QuerySignature.fresh label info) := by
  intro r a s _ h
  cases h
  exact .of_issued rfl (Nat.le_succ _)

theorem reference {column : SourceColumn} (hcolumn : column.var.id ≤ n) :
    StaysAside n (QuerySignature.reference column) := by
  intro r a s hr hs
  unfold QuerySignature.reference at hs
  split at hs
  · cases hs
    refine ⟨[_], rfl, .link (Nat.lt_succ_self _) rfl ?_ (.nil (Nat.le_refl _))⟩
    exact Nat.lt_succ_of_le (Nat.le_trans hcolumn hr)
  · exact fresh _ _ r a s hr hs

/-! ## Expressions -/

theorem column {scope : Scope} (hscope : scope.Among n) (c : ColumnRef) :
    StaysAside n (inferColumn scope c) := by
  unfold inferColumn resolve
  cases hmeaning : scope.resolve c with
  | error e =>
    intro r a s _ hs
    rw [Analyze.outcome_bind] at hs
    cases hs
  | ok column =>
    intro r a s hr hs
    rw [Analyze.outcome_bind, Analyze.outcome_pure, ok_bind] at hs
    have hcolumn := hscope.meaning c column hmeaning
    exact bind (reference hcolumn) (fun _ => pure _) r a s hr hs

variable {setting : Setting} {scope : Scope}

/-- What is given is a variable of its own. -/
theorem outcome_given {e : Expr} (he : e.bare.isGiven = true) {r s : Run} {a : Inferred}
    (hs : (inferExpr setting scope e).outcome r = .ok (a, s)) :
    s.constraints = r.constraints ∧ s.issued = r.issued + 1 ∧ a.var.id = r.issued + 1 := by
  rw [← inferExpr_bare] at hs
  generalize e.bare = given at he hs
  unfold Expr.isGiven at he
  split at he
  · next value =>
    unfold inferExpr inferLiteral at hs
    cases value <;> cases hs <;> exact ⟨rfl, rfl, rfl⟩
  · cases hs
    exact ⟨rfl, rfl, rfl⟩
  · cases he

theorem simple (hscope : scope.Among n) {e : Expr} (he : e.isSimple = true) :
    StaysAside n (inferExpr setting scope e) := by
  rcases Bool.or_eq_true_iff.1 he with hgiven | hcolumn
  · intro r a s _ hs
    rcases outcome_given hgiven hs with ⟨hconstraints, hissued, -⟩
    exact .of_issued hconstraints (hissued ▸ Nat.le_succ _)
  · rcases Option.isSome_iff_exists.1 hcolumn with ⟨c, hc⟩
    rw [inferExpr_of_column? hc]
    exact column hscope c

/-! ## Clauses -/

theorem all (hscope : scope.Among n) {es : List Expr} (hes : es.all Expr.isSimple = true) :
    StaysAside n (inferAll setting scope es) := by
  induction es with
  | nil => exact pure _
  | cons e rest ih =>
    simp only [List.all_cons, Bool.and_eq_true] at hes
    exact bind (simple hscope hes.1) fun _ => bind (ih hes.2) fun _ => pure _

theorem some (hscope : scope.Among n) {e : Option Expr} (he : e.all Expr.isSimple = true) :
    StaysAside n (inferSome setting scope e) := by
  cases e with
  | none => exact pure _
  | some e => exact bind (simple hscope he) fun _ => pure _

theorem orderBy (hscope : scope.Among n) {terms : List OrderTerm}
    (hterms : (terms.all fun term => term.value.isSimple) = true) :
    StaysAside n (inferOrder setting scope terms) := by
  induction terms with
  | nil => exact pure _
  | cons term rest ih =>
    rcases term with ⟨value, descending⟩
    simp only [List.all_cons, Bool.and_eq_true] at hterms
    unfold inferOrder
    split
    · exact ih hterms.2
    · exact bind (simple hscope hterms.1) fun _ => ih hterms.2

/-- A row count that is given and its type are tied to each other only. -/
theorem bound {e : Expr} (he : e.bare.isGiven = true) (label : String) :
    StaysAside n (inferExpr setting scope e >>= inferBound setting label) := by
  intro r a s hr hs
  rw [Analyze.outcome_bind] at hs
  rcases bind_eq_ok.1 hs with ⟨⟨value, t⟩, hvalue, hs⟩
  rcases outcome_given he hvalue with ⟨hconstraints, hissued, hid⟩
  have hforced : (forceNotNull value).outcome
      { t with
        issued := t.issued + 1
        constraints := t.constraints ++ [.strict label
          (.var ⟨t.issued + 1, label, .exact setting.profile.limitType, false, false⟩)
          (.var value.var)] } = .ok (a, s) := hs
  have hbehind : s.issued = t.issued + 1 ∧ s.constraints = t.constraints ++ [.strict label
      (.var ⟨t.issued + 1, label, .exact setting.profile.limitType, false, false⟩)
      (.var value.var)] := by
    unfold forceNotNull at hforced
    split at hforced <;> cases hforced <;> exact ⟨rfl, rfl⟩
  refine ⟨_, by rw [hbehind.2, hconstraints], ?_⟩
  rw [hbehind.1, hissued]
  refine .between ⟨⟨?_, Nat.le_refl _⟩, ?_, ?_⟩ (.nil (Nat.le_refl _))
  · show r.issued < r.issued + 1 + 1
    omega
  · show r.issued < value.var.id
    omega
  · show value.var.id ≤ r.issued + 1 + 1
    omega

theorem limitTo {limit : Option Limit} (hlimit : limit.all Limit.isGiven = true) :
    StaysAside n (inferLimit setting scope limit) := by
  cases limit with
  | none => exact pure _
  | some limit =>
    rcases limit with ⟨count, offset⟩
    rcases Bool.and_eq_true_iff.1 hlimit with ⟨hcount, hoffset⟩
    have hoffset : StaysAside n (inferOffset setting scope offset) := by
      cases offset with
      | none => exact pure _
      | some offset => exact bound hoffset _
    have hfirst : inferLimit setting scope (Option.some ⟨count, offset⟩) =
        (inferExpr setting scope count >>= inferBound setting count.text) >>= fun _ =>
          inferOffset setting scope offset := by
      unfold inferLimit
      exact (bind_assoc _ _ _).symm
    rw [hfirst]
    exact bind (bound hcount _) fun _ => hoffset

/-! ## Projections and sources -/

theorem star {level : Level} (hlevel : ∀ column ∈ level, column.var.id ≤ n) :
    StaysAside n (inferStar level) := by
  induction level with
  | nil => exact pure _
  | cons column rest ih =>
    have hcolumn : StaysAside n (inferStarColumn column) :=
      bind (reference (hlevel column List.mem_cons_self)) fun _ => pure _
    exact bind hcolumn fun _ =>
      bind (ih fun other hother => hlevel other (List.mem_cons_of_mem _ hother)) fun _ => pure _

theorem item (hscope : scope.Among n) {item : Item} (hitem : item.isSimple = true) :
    StaysAside n (inferItem setting scope item) := by
  cases item with
  | star => exact star hscope.columns
  | tableStar table =>
    unfold inferItem
    split
    · exact throw _
    · exact star fun column hcolumn => hscope.columns column (List.mem_of_mem_filter hcolumn)
  | expr value aliasName => exact bind (simple hscope hitem) fun _ => pure _

theorem items (hscope : scope.Among n) {items : List Item}
    (hitems : items.all Item.isSimple = true) : StaysAside n (inferItems setting scope items) := by
  induction items with
  | nil => exact pure _
  | cons first rest ih =>
    simp only [List.all_cons, Bool.and_eq_true] at hitems
    exact bind (item hscope hitems.1) fun _ => bind (ih hitems.2) fun _ => pure _

theorem freshColumns (aliasName : String) (records : List ColumnRecord) :
    StaysAside n (QuerySignature.freshColumns aliasName records) := by
  induction records with
  | nil => exact pure _
  | cons record rest ih => exact bind (fresh _ _) fun _ => bind ih fun _ => pure _

theorem source {x : Source} (hx : x.isNamed = true) : StaysAside n (inferSource setting x) := by
  cases x with
  | derived q aliasName => cases hx
  | table name aliasName =>
    refine bind get fun run => ?_
    split
    · exact pure _
    · split
      · exact freshColumns _ _
      · exact throw _

theorem sources {xs : List Source} (hxs : xs.all Source.isNamed = true) (done : Sources) :
    StaysAside n (inferSources setting done xs) := by
  induction xs generalizing done with
  | nil => exact pure _
  | cons x rest ih =>
    simp only [List.all_cons, Bool.and_eq_true] at hxs
    exact bind (source hxs.1) fun _ => ih hxs.2 _

theorem condition {condition : JoinCondition} (hcondition : condition.isSimple = true) :
    StaysAside n (inferCondition setting scope condition) := by
  cases condition with
  | predicate e => cases hcondition
  | shared columns => exact pure _
  | unconditional => exact pure _

theorem joins {js : List Join} (hjs : js.all Join.isSimple = true) (outer : List Level)
    (done : Sources) (previous : String) :
    StaysAside n (inferJoins setting outer done previous js) := by
  induction js generalizing done previous with
  | nil => exact pure _
  | cons j rest ih =>
    rcases j with ⟨kind, x, on⟩
    simp only [List.all_cons, Bool.and_eq_true, Join.isSimple] at hjs
    exact bind (source hjs.1.1) fun _ => bind (condition hjs.1.2) fun _ => ih hjs.2 _ _

end StaysAside

end QuerySignature
