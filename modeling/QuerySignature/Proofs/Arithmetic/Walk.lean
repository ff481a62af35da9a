import QuerySignature.Description.Describe
import QuerySignature.Proofs.Arithmetic.Steps

namespace QuerySignature

/-! # The walk records what a text asks of types

By induction on the syntax, an expression, a query and a statement record the uses of types that are
read off their text.

- `Records.expr`, `Records.query`, ...: one case for each form of expression and for each clause.
- `Records.statement`: a statement.
-/

namespace Records

mutual

theorem expr (setting : Setting) (scope : Scope) (e : Expr) :
    Records e.typeUses (inferExpr setting scope e) := by
  match e with
  | .literal value =>
    rw [Expr.typeUses]
    exact kept.literal _ value
  | .column c =>
    rw [Expr.typeUses]
    exact kept.column scope c
  | .parameter name =>
    rw [Expr.typeUses]
    exact addPlaceholder name false
  | .paren inner =>
    rw [Expr.typeUses]
    exact expr setting scope inner
  | .arithmetic op left right =>
    exact arithmetic op (expr setting scope left) (expr setting scope right)
  | .compare op left right =>
    rw [Expr.typeUses]
    refine (expr setting scope left).bind fun _ => ?_
    exact (expr setting scope right).before fun _ => kept.compare _ _ _ _
  | .between negated value low high =>
    rw [Expr.typeUses, List.append_assoc]
    refine (expr setting scope value).bind fun _ => ?_
    refine (expr setting scope low).bind fun _ => ?_
    exact (expr setting scope high).before fun _ => kept.between _ _ _ _ _
  | .inList negated value items =>
    rw [Expr.typeUses]
    refine (expr setting scope value).bind fun v => behind (kept.forceNotNull v) fun _ => ?_
    dsimp only
    cases hsole : soleParameter? items with
    | some name =>
      -- a placeholder that is all of the list stands for a list, and is one use
      obtain rfl := eq_of_soleParameter? hsole
      have huses : usesOfAll [.parameter name] = [.placeholder false] := by
        rw [usesOfAll, usesOfAll, Expr.typeUses]
        rfl
      rw [huses]
      exact (addPlaceholder name true).before fun _ => behind (pure _) fun _ => kept.inList _ _ _ _
    | none => exact (all setting scope items).before fun _ => kept.inList _ _ _ _
  | .inQuery negated value q =>
    rw [Expr.typeUses]
    refine (expr setting scope value).bind fun v => behind (kept.forceNotNull v) fun _ => ?_
    refine (query setting scope.levels q).before fun _ => ?_
    exact behind (kept.firstColumn _ _) fun _ => kept.inQuery _ _ _ _
  | .like negated value pattern =>
    rw [Expr.typeUses]
    refine (expr setting scope value).bind fun _ => ?_
    exact (expr setting scope pattern).before fun _ => kept.like _ _ _ _
  | .isNull negated value =>
    rw [Expr.typeUses]
    exact (expr setting scope value).before fun _ => kept.predicate _ _
  | .and left right =>
    rw [Expr.typeUses]
    refine (expr setting scope left).bind fun _ => ?_
    exact (expr setting scope right).before fun _ => kept.predicate _ _
  | .or left right =>
    rw [Expr.typeUses]
    refine (expr setting scope left).bind fun _ => ?_
    exact (expr setting scope right).before fun _ => kept.predicate _ _
  | .not operand =>
    rw [Expr.typeUses]
    exact (expr setting scope operand).before fun _ => kept.predicate _ _
  | .call function distinct es =>
    rw [Expr.typeUses]
    exact (arguments setting scope es).bind fun _ => call _ _ _ _
  | .case operand branches otherwise =>
    rw [Expr.typeUses, List.append_assoc]
    refine (option setting scope operand).bind fun o => behind (fresh _ _) fun v => ?_
    refine (caseBranches setting scope o v branches).bind fun _ => ?_
    exact (caseElse setting scope v otherwise).before fun _ => pure _
  | .scalar q =>
    rw [Expr.typeUses]
    refine (query setting scope.levels q).before fun _ => ?_
    exact behind (kept.firstColumn _ _) fun _ => pure _
  | .hasRows q =>
    rw [Expr.typeUses]
    exact (query setting scope.levels q).before fun _ => kept.predicate _ _
  | .star => exact throw _

theorem all (setting : Setting) (scope : Scope) (es : List Expr) :
    Records (usesOfAll es) (inferAll setting scope es) := by
  match es with
  | [] =>
    rw [usesOfAll]
    exact pure _
  | e :: rest =>
    rw [usesOfAll]
    refine (expr setting scope e).bind fun _ => ?_
    exact (all setting scope rest).before fun _ => pure _

theorem arguments (setting : Setting) (scope : Scope) (es : List Expr) :
    Records (usesOfAll es) (inferArguments setting scope es) := by
  match es with
  | [] =>
    rw [usesOfAll]
    exact pure _
  | e :: rest =>
    rw [usesOfAll]
    unfold inferArguments
    split
    · next hstar =>
      obtain rfl : e = .star := by cases e <;> first | rfl | cases hstar
      rw [Expr.typeUses]
      exact arguments setting scope rest
    · refine (expr setting scope e).bind fun _ => ?_
      exact (arguments setting scope rest).before fun _ => pure _

theorem option (setting : Setting) (scope : Scope) (o : Option Expr) :
    Records (usesOfSome o) (inferSome setting scope o) := by
  match o with
  | none =>
    rw [usesOfSome]
    exact pure _
  | some e =>
    rw [usesOfSome]
    exact (expr setting scope e).before fun _ => pure _

theorem caseBranches (setting : Setting) (scope : Scope) (operand : Option Inferred)
    (result : TypeVar) (bs : List WhenThen) :
    Records (usesOfBranches bs) (inferBranches setting scope operand result bs) := by
  match bs with
  | [] =>
    rw [usesOfBranches]
    exact pure _
  | ⟨condition, value⟩ :: rest =>
    rw [usesOfBranches]
    refine (expr setting scope condition).bind fun c => behind (kept.caseWhen _ _ _ _) fun _ => ?_
    refine (expr setting scope value).bind fun v => ?_
    refine (chosen value.text result v.var).bind fun _ => ?_
    exact (caseBranches setting scope operand result rest).before fun _ => pure _

theorem caseElse (setting : Setting) (scope : Scope) (result : TypeVar) (o : Option Expr) :
    Records (usesOfElse o) (inferElse setting scope result o) := by
  match o with
  | none =>
    rw [usesOfElse]
    exact pure _
  | some e =>
    rw [usesOfElse]
    refine (expr setting scope e).bind fun v => ?_
    exact (chosen e.text result v.var).before fun _ => pure _

theorem query (setting : Setting) (outer : List Level) (q : Select) :
    Records q.typeUses (inferQuery setting outer q) := by
  match q with
  | ⟨ctes, branches, order, limit⟩ =>
    intro r a s hrun whole hwhole
    obtain ⟨r₁, results, r₂, head, r₃, r₄, hctes, hbranches, -, horder, hlimit, rfl, rfl⟩ :=
      clauses_of_query hrun
    -- the constraints of the last run hold those of the earlier ones
    have h₄ := limitTo setting _ limit _ _ _ hlimit whole hwhole
    have hwhole₃ := h₄.within hwhole
    have h₃ := orderBy setting _ order _ _ _ horder whole hwhole₃
    have hwhole₂ := h₃.within hwhole₃
    have h₂ := union setting outer branches _ _ _ hbranches whole hwhole₂
    have h₁ := tables setting outer ctes _ _ _ hctes whole (h₂.within hwhole₂)
    rw [Select.typeUses]
    exact (((h₁.trans h₂).trans h₃).trans h₄).withCtes r.ctes

theorem tables (setting : Setting) (outer : List Level) (ctes : List Cte) :
    Records (usesOfCtes ctes) (inferCtes setting outer ctes) := by
  match ctes with
  | [] =>
    rw [usesOfCtes]
    exact pure _
  | ⟨name, q⟩ :: rest =>
    rw [usesOfCtes]
    refine (query setting outer q).bind fun _ => ?_
    exact behind (declareCte _ _) fun _ => tables setting outer rest

theorem union (setting : Setting) (outer : List Level) (bs : List Branch) :
    Records (usesOfUnion bs) (inferUnion setting outer bs) := by
  match bs with
  | [] =>
    rw [usesOfUnion]
    exact pure _
  | b :: rest =>
    rw [usesOfUnion]
    refine (branch setting outer b).bind fun _ => ?_
    exact (union setting outer rest).before fun _ => pure _

theorem branch (setting : Setting) (outer : List Level) (b : Branch) :
    Records b.typeUses (inferBranch setting outer b) := by
  match b with
  | ⟨distinct, items, sources, joins, criteria, group, having⟩ =>
    intro r a s hrun whole hwhole
    obtain ⟨⟨joined, columns⟩, r₄, _, r₅, _, hfront, hgroup, hhaving, rfl⟩ := clauses_of_branch hrun
    obtain ⟨listed, r₁, r₂, r₃, _, hlisted, hjoined, hitems, hcriteria⟩ := clauses_of_front hfront
    have h₆ := option setting _ having _ _ _ hhaving whole hwhole
    have hwhole₅ := h₆.within hwhole
    have h₅ := all setting _ group _ _ _ hgroup whole hwhole₅
    have hwhole₄ := h₅.within hwhole₅
    have h₄ := option setting _ criteria _ _ _ hcriteria whole hwhole₄
    have hwhole₃ : r₃.constraints ⊆ whole := h₄.within hwhole₄
    have h₃ := itemList setting _ items _ _ _ hitems whole hwhole₃
    have hwhole₂ : r₂.constraints ⊆ whole := h₃.within hwhole₃
    have h₂ := joinList setting outer _ _ joins _ _ _ hjoined whole hwhole₂
    have h₁ := sourceList setting _ sources _ _ _ hlisted whole (h₂.within hwhole₂)
    -- the placeholders of the FROM clause are put back behind those of the items
    have hfront := (h₁.trans h₂).aside h₃
    rw [Branch.typeUses]
    exact ((hfront.trans h₄).trans h₅).trans h₆

theorem itemList (setting : Setting) (scope : Scope) (items : List Item) :
    Records (usesOfItems items) (inferItems setting scope items) := by
  match items with
  | [] =>
    rw [usesOfItems]
    exact pure _
  | item :: rest =>
    rw [usesOfItems]
    refine (projected setting scope item).bind fun _ => ?_
    exact (itemList setting scope rest).before fun _ => pure _

theorem projected (setting : Setting) (scope : Scope) (item : Item) :
    Records item.typeUses (inferItem setting scope item) := by
  match item with
  | .star =>
    rw [Item.typeUses]
    exact kept.star _
  | .tableStar table =>
    rw [Item.typeUses]
    unfold inferItem
    split
    · exact throw _
    · exact kept.star _
  | .expr value aliasName =>
    rw [Item.typeUses]
    exact (expr setting scope value).before fun _ => pure _

theorem sourceList (setting : Setting) (done : Sources) (xs : List Source) :
    Records (usesOfSources xs) (inferSources setting done xs) := by
  match xs with
  | [] =>
    rw [usesOfSources]
    exact pure _
  | x :: rest =>
    rw [usesOfSources]
    exact (source setting x).bind fun _ => sourceList setting _ rest

theorem source (setting : Setting) (x : Source) :
    Records x.typeUses (inferSource setting x) := by
  match x with
  | .table name aliasName =>
    rw [Source.typeUses]
    exact kept.tableColumns _ _ _
  | .derived q aliasName =>
    rw [Source.typeUses]
    exact (query setting [] q).before fun _ => pure _

theorem joinList (setting : Setting) (outer : List Level) (done : Sources) (previous : String)
    (js : List Join) : Records (usesOfJoins js) (inferJoins setting outer done previous js) := by
  match js with
  | [] =>
    rw [usesOfJoins]
    exact pure _
  | ⟨kind, x, on⟩ :: rest =>
    rw [usesOfJoins]
    refine (source setting x).bind fun _ => ?_
    exact (condition setting _ on).bind fun _ => joinList setting outer _ _ rest

theorem condition (setting : Setting) (scope : Scope) (c : JoinCondition) :
    Records c.typeUses (inferCondition setting scope c) := by
  match c with
  | .predicate e =>
    rw [JoinCondition.typeUses]
    exact (expr setting scope e).before fun _ => pure _
  | .shared _ =>
    rw [JoinCondition.typeUses]
    exact pure _
  | .unconditional =>
    rw [JoinCondition.typeUses]
    exact pure _

theorem orderBy (setting : Setting) (scope : Scope) (terms : List OrderTerm) :
    Records (usesOfOrder terms) (inferOrder setting scope terms) := by
  match terms with
  | [] =>
    rw [usesOfOrder]
    exact pure _
  | ⟨value, descending⟩ :: rest =>
    rw [usesOfOrder]
    unfold inferOrder
    by_cases hparameter : value.isParameter = true
    · rw [if_pos hparameter, if_pos hparameter]
      exact orderBy setting scope rest
    · rw [if_neg hparameter, if_neg hparameter]
      exact (expr setting scope value).bind fun _ => orderBy setting scope rest

theorem limitTo (setting : Setting) (scope : Scope) (l : Option Limit) :
    Records (usesOfLimit l) (inferLimit setting scope l) := by
  match l with
  | none =>
    rw [usesOfLimit]
    exact pure _
  | some ⟨count, offset⟩ =>
    rw [usesOfLimit]
    refine (expr setting scope count).bind fun _ => ?_
    exact behind (kept.bound _ _ _) fun _ => offsetBy setting scope offset

theorem offsetBy (setting : Setting) (scope : Scope) (o : Option Expr) :
    Records (usesOfSome o) (inferOffset setting scope o) := by
  match o with
  | none =>
    rw [usesOfSome]
    exact pure _
  | some e =>
    rw [usesOfSome]
    exact (expr setting scope e).before fun _ => kept.bound _ _ _

end

/-! ## Statements -/

theorem rows (setting : Setting) (targets : Level) (rows : List (List Expr)) :
    Records (rows.flatMap usesOfAll) (inferRows setting targets rows) := by
  induction rows with
  | nil => exact pure _
  | cons row rest ih =>
    rw [List.flatMap_cons]
    unfold inferRows
    split
    · exact throw_bind _
    · refine (all setting _ row).bind fun _ => ?_
      exact behind (kept.bindRow _ _ _) fun _ => ih

theorem insert (setting : Setting) (table : String) (columns : List String) (rows : InsertRows) :
    Records (Statement.insert table columns rows).typeUses
      (inferInsert setting table columns rows) := by
  refine behind (kept.tableColumns _ _ _) fun all => behind (kept.lift _) fun targets => ?_
  cases rows with
  | values rows => exact Records.rows setting targets rows
  | query q =>
    refine (query setting [] q).before fun result => ?_
    split
    · exact throw_bind _
    · exact kept.bindRow _ _ _

theorem assignments (setting : Setting) (scope : Scope) (as : List Assignment) :
    Records (as.flatMap fun a => a.value.typeUses) (inferAssignments setting scope as) := by
  induction as with
  | nil => exact pure _
  | cons a rest ih =>
    rw [List.flatMap_cons]
    refine behind (kept.resolve _ _) fun _ => (expr setting scope a.value).bind fun _ => ?_
    refine behind (kept.reference _) fun _ => behind (kept.strict _ _ _) fun _ => ?_
    exact behind (kept.matchNull _ _) fun _ => ih

theorem update (setting : Setting) (table : String) (as : List Assignment)
    (criteria : Option Expr) :
    Records (Statement.update table as criteria).typeUses
      (inferUpdate setting table as criteria) := by
  refine behind (kept.tableColumns _ _ _) fun _ => (assignments setting _ as).bind fun _ => ?_
  exact behind get fun _ => (option setting _ criteria).before fun _ => pure _

theorem delete (setting : Setting) (table : String) (criteria : Option Expr) :
    Records (Statement.delete table criteria).typeUses (inferDelete setting table criteria) :=
  behind (kept.tableColumns _ _ _) fun _ => (option setting _ criteria).before fun _ => pure _

theorem statement (setting : Setting) (s : Statement) :
    Records s.typeUses (inferStatement setting s) := by
  cases s with
  | select q => exact (query setting [] q).before fun _ => pure _
  | insert table columns rows =>
    exact (insert setting table columns rows).before fun _ => pure _
  | update table as criteria => exact (update setting table as criteria).before fun _ => pure _
  | delete table criteria => exact (delete setting table criteria).before fun _ => pure _

end Records

end QuerySignature
