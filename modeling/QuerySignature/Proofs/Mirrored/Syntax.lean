import QuerySignature.Analysis.Write
import QuerySignature.Proofs.Onward.Walk

namespace QuerySignature

/-! # Comparisons with their sides exchanged

A comparison says the same with its operands exchanged and its operator mirrored. It may stand anywhere
in a statement: in a clause of any query at any depth. A walk that comes to it has analysed what stands
before it, and goes over the left operand first.

- `Passing`: a walk over a comparison, from the run in which it comes to it.
- `Mirrored`: two texts that differ in nothing but the sides of one comparison, and the walk over the
  first of them up to there.
- `MirroredStatement`: the same for statements.
- `Mirrored.provesNotNull`: a criterion proves the same columns not null.
-/

/-- The operator that says the same of exchanged operands. -/
def CompareOp.mirror : CompareOp → CompareOp
  | .eq => .eq
  | .ne => .ne
  | .lt => .gt
  | .le => .ge
  | .gt => .lt
  | .ge => .le

/-! ## Forms by their operands -/

/-- A form of an expression with two operands that are analysed one after the other. -/
inductive BinaryForm where
  | arithmetic (op : ArithmeticOp)
  | compare (op : CompareOp)
  | like (negated : Bool)
  | and
  | or

namespace BinaryForm

/-- The expression of two operands. -/
def expr : BinaryForm → Expr → Expr → Expr
  | arithmetic op, left, right => .arithmetic op left right
  | compare op, left, right => .compare op left right
  | like negated, left, right => .like negated left right
  | and, left, right => .and left right
  | or, left, right => .or left right

/-- What is made of the operands. -/
def combine (setting : Setting) (label : String) : BinaryForm → Inferred → Inferred →
    Analyze Inferred
  | arithmetic _, left, right => inferArithmetic label left right
  | compare _, left, right => inferCompare setting label left right
  | like _, left, right => inferLike setting label left right
  | and, _, _ | or, _, _ => predicate setting label

theorem inferExpr_eq (f : BinaryForm) (setting : Setting) (scope : Scope) (left right : Expr) :
    inferExpr setting scope (f.expr left right) =
      inferExpr setting scope left >>= fun l => inferExpr setting scope right >>= fun r =>
        f.combine setting (f.expr left right).text l r := by
  cases f <;> rfl

theorem spelled_iff (f : BinaryForm) (N : Naming) (left right : Expr) :
    (f.expr left right).Spelled N ↔ left.Spelled N ∧ right.Spelled N := by
  cases f <;> exact Iff.rfl

end BinaryForm

/-- A condition on the value of one operand. -/
inductive UnaryForm where
  | isNull (negated : Bool)
  | not

namespace UnaryForm

/-- The expression of an operand. -/
def expr : UnaryForm → Expr → Expr
  | isNull negated, value => .isNull negated value
  | not, value => .not value

theorem inferExpr_eq (f : UnaryForm) (setting : Setting) (scope : Scope) (value : Expr) :
    inferExpr setting scope (f.expr value) =
      inferExpr setting scope value >>= fun _ => predicate setting (f.expr value).text := by
  cases f <;> rfl

theorem spelled_iff (f : UnaryForm) (N : Naming) (value : Expr) :
    (f.expr value).Spelled N ↔ value.Spelled N := by
  cases f <;> exact Iff.rfl

end UnaryForm

/-- An expression that is made of a query alone. -/
inductive QueryForm where
  | scalar
  | hasRows

namespace QueryForm

/-- The expression of a query. -/
def expr : QueryForm → Select → Expr
  | scalar, query => .scalar query
  | hasRows, query => .hasRows query

/-- What is made of the result of a query. -/
def combine (setting : Setting) (query : Select) : QueryForm → QueryResult → Analyze Inferred
  | scalar, result => do
    let column ← firstColumn query.text result
    pure (.ofVar column.var column.notNull)
  | hasRows, _ => predicate setting (Expr.hasRows query).text

theorem inferExpr_eq (f : QueryForm) (setting : Setting) (scope : Scope) (query : Select) :
    inferExpr setting scope (f.expr query) =
      inferQuery setting scope.levels query >>= f.combine setting query := by
  cases f <;> rfl

theorem spelled_iff (f : QueryForm) (N : Naming) (query : Select) :
    (f.expr query).Spelled N ↔ query.Spelled N := by
  cases f <;> exact Iff.rfl

end QueryForm

/-! ## Names around a place in a list -/

/-- What holds of a list when it holds of each member, holds of the parts around a member and of it. -/
theorem holds_middle {α : Type} {S : List α → Prop} {P : α → Prop} (hnil : S [])
    (hcons : ∀ x xs, S (x :: xs) ↔ P x ∧ S xs) (xs : List α) (y : α) (ys : List α) :
    S (xs ++ y :: ys) ↔ S xs ∧ P y ∧ S ys := by
  induction xs with
  | nil =>
    rw [List.nil_append, hcons]
    exact (and_iff_right hnil).symm
  | cons x xs ih => rw [List.cons_append, hcons, hcons, ih, and_assoc]

section

variable {N : Naming}

theorem spelledAll_middle {xs ys : List Expr} {e : Expr} :
    SpelledAll N (xs ++ e :: ys) ↔ SpelledAll N xs ∧ e.Spelled N ∧ SpelledAll N ys :=
  holds_middle trivial (fun _ _ => Iff.rfl) xs e ys

theorem spelledBranches_middle {xs ys : List WhenThen} {condition value : Expr} :
    SpelledBranches N (xs ++ ⟨condition, value⟩ :: ys) ↔
      SpelledBranches N xs ∧ (condition.Spelled N ∧ value.Spelled N) ∧ SpelledBranches N ys :=
  holds_middle (P := fun x => x.condition.Spelled N ∧ x.result.Spelled N) trivial
    (fun ⟨_, _⟩ _ => and_assoc.symm) xs ⟨condition, value⟩ ys

theorem spelledCtes_middle {xs ys : List Cte} {name : String} {q : Select} :
    SpelledCtes N (xs ++ ⟨name, q⟩ :: ys) ↔
      SpelledCtes N xs ∧ (N.name name ∧ q.Spelled N) ∧ SpelledCtes N ys :=
  holds_middle (P := fun x => N.name x.name ∧ x.query.Spelled N) trivial
    (fun ⟨_, _⟩ _ => and_assoc.symm) xs ⟨name, q⟩ ys

theorem spelledUnion_middle {xs ys : List Branch} {b : Branch} :
    SpelledUnion N (xs ++ b :: ys) ↔ SpelledUnion N xs ∧ b.Spelled N ∧ SpelledUnion N ys :=
  holds_middle trivial (fun _ _ => Iff.rfl) xs b ys

theorem spelledOrder_middle {xs ys : List OrderTerm} {value : Expr} {descending : Bool} :
    SpelledOrder N (xs ++ ⟨value, descending⟩ :: ys) ↔
      SpelledOrder N xs ∧ value.Spelled N ∧ SpelledOrder N ys :=
  holds_middle (P := fun x => x.value.Spelled N) trivial (fun ⟨_, _⟩ _ => Iff.rfl) xs
    ⟨value, descending⟩ ys

theorem spelledItems_middle {xs ys : List Item} {i : Item} :
    SpelledItems N (xs ++ i :: ys) ↔ SpelledItems N xs ∧ i.Spelled N ∧ SpelledItems N ys :=
  holds_middle trivial (fun _ _ => Iff.rfl) xs i ys

theorem spelledSources_middle {xs ys : List Source} {x : Source} :
    SpelledSources N (xs ++ x :: ys) ↔ SpelledSources N xs ∧ x.Spelled N ∧ SpelledSources N ys :=
  holds_middle trivial (fun _ _ => Iff.rfl) xs x ys

theorem spelledJoins_middle {xs ys : List Join} {kind : JoinKind} {source : Source}
    {on : JoinCondition} :
    SpelledJoins N (xs ++ ⟨kind, source, on⟩ :: ys) ↔
      SpelledJoins N xs ∧ (source.Spelled N ∧ on.Spelled N) ∧ SpelledJoins N ys :=
  holds_middle (P := fun j => j.source.Spelled N ∧ j.condition.Spelled N) trivial
    (fun ⟨_, _, _⟩ _ => and_assoc.symm) xs ⟨kind, source, on⟩ ys

end

/-! ## Walks over a comparison -/

/-- A walk over a comparison: the run in which it comes to the left operand, what it finds out about the
operands, and the runs behind them. -/
structure Passing (setting : Setting) where
  op : CompareOp
  left : Expr
  right : Expr
  scope : Scope
  before : Run
  leftFound : Inferred
  middle : Run
  rightFound : Inferred
  behind : Run
  walkLeft : (inferExpr setting scope left).outcome before = .ok (leftFound, middle)
  walkRight : (inferExpr setting scope right).outcome middle = .ok (rightFound, behind)

namespace Passing

variable {setting : Setting} (p : Passing setting)

/-- The comparison. -/
def comparison : Expr := .compare p.op p.left p.right

/-- The comparison with its sides exchanged. -/
def mirrored : Expr := .compare p.op.mirror p.right p.left

end Passing

/-- Two texts, the second in the place of the first, with what is seen from there. -/
inductive Counterparts where
  | expr (scope : Scope) (e e' : Expr)
  | query (outer : List Level) (q q' : Select)
  | branch (outer : List Level) (b b' : Branch)

section

variable {setting : Setting}

/-- The second of two texts is the first one with the sides of one comparison exchanged. A walk over the
first one, from a run, comes to this comparison as `p` says. Where the comparison is projected without an
alias, no name tells the texts apart by which the column goes. -/
inductive Mirrored (N : Naming) (p : Passing setting) : Counterparts → Run → Prop
  | here : Mirrored N p (.expr p.scope p.comparison p.mirrored) p.before
  -- expressions
  | paren {scope : Scope} {e e' : Expr} {r : Run} :
    Mirrored N p (.expr scope e e') r → Mirrored N p (.expr scope (.paren e) (.paren e')) r
  | unary (f : UnaryForm) {scope : Scope} {e e' : Expr} {r : Run} :
    Mirrored N p (.expr scope e e') r → Mirrored N p (.expr scope (f.expr e) (f.expr e')) r
  | left (f : BinaryForm) (right : Expr) {scope : Scope} {e e' : Expr} {r : Run} :
    Mirrored N p (.expr scope e e') r →
    Mirrored N p (.expr scope (f.expr e right) (f.expr e' right)) r
  | right (f : BinaryForm) {left : Expr} {scope : Scope} {e e' : Expr} {l : Inferred} {r s : Run} :
    (inferExpr setting scope left).outcome r = .ok (l, s) → Mirrored N p (.expr scope e e') s →
    Mirrored N p (.expr scope (f.expr left e) (f.expr left e')) r
  | between (negated : Bool) (low high : Expr) {scope : Scope} {e e' : Expr} {r : Run} :
    Mirrored N p (.expr scope e e') r →
    Mirrored N p (.expr scope (.between negated e low high) (.between negated e' low high)) r
  | low (negated : Bool) (high : Expr) {value : Expr} {scope : Scope} {e e' : Expr} {v : Inferred}
      {r s : Run} :
    (inferExpr setting scope value).outcome r = .ok (v, s) → Mirrored N p (.expr scope e e') s →
    Mirrored N p (.expr scope (.between negated value e high) (.between negated value e' high)) r
  | high (negated : Bool) {value low : Expr} {scope : Scope} {e e' : Expr} {v l : Inferred}
      {r s t : Run} :
    (inferExpr setting scope value).outcome r = .ok (v, s) →
    (inferExpr setting scope low).outcome s = .ok (l, t) → Mirrored N p (.expr scope e e') t →
    Mirrored N p (.expr scope (.between negated value low e) (.between negated value low e')) r
  | inList (negated : Bool) (items : List Expr) {scope : Scope} {e e' : Expr} {r : Run} :
    Mirrored N p (.expr scope e e') r →
    Mirrored N p (.expr scope (.inList negated e items) (.inList negated e' items)) r
  | listed (negated : Bool) {value : Expr} {xs : List Expr} (ys : List Expr) {scope : Scope}
      {e e' : Expr} {v : Inferred} {is : List Inferred} {r s t u : Run} :
    (inferExpr setting scope value).outcome r = .ok (v, s) →
    (forceNotNull v).outcome s = .ok ((), t) →
    (inferAll setting scope xs).outcome t = .ok (is, u) → Mirrored N p (.expr scope e e') u →
    Mirrored N p (.expr scope (.inList negated value (xs ++ e :: ys))
      (.inList negated value (xs ++ e' :: ys))) r
  | inQuery (negated : Bool) (q : Select) {scope : Scope} {e e' : Expr} {r : Run} :
    Mirrored N p (.expr scope e e') r →
    Mirrored N p (.expr scope (.inQuery negated e q) (.inQuery negated e' q)) r
  | queried (negated : Bool) {value : Expr} {scope : Scope} {q q' : Select} {v : Inferred}
      {r s t : Run} :
    (inferExpr setting scope value).outcome r = .ok (v, s) →
    (forceNotNull v).outcome s = .ok ((), t) → Mirrored N p (.query scope.levels q q') t →
    Mirrored N p (.expr scope (.inQuery negated value q) (.inQuery negated value q')) r
  | argument (function : String) (distinct : Bool) {xs : List Expr} (ys : List Expr)
      {scope : Scope} {e e' : Expr} {is : List Inferred} {r s : Run} :
    (inferArguments setting scope xs).outcome r = .ok (is, s) → Mirrored N p (.expr scope e e') s →
    Mirrored N p (.expr scope (.call function distinct (xs ++ e :: ys))
      (.call function distinct (xs ++ e' :: ys))) r
  | operand (branches : List WhenThen) (otherwise : Option Expr) {scope : Scope} {e e' : Expr}
      {r : Run} :
    Mirrored N p (.expr scope e e') r →
    Mirrored N p (.expr scope (.case (some e) branches otherwise)
      (.case (some e') branches otherwise)) r
  | condition {operand : Option Expr} {xs : List WhenThen} (result : Expr) (ys : List WhenThen)
      (otherwise : Option Expr) {scope : Scope} {e e' : Expr} {o : Option Inferred} {v : TypeVar}
      {notNull : Bool} {r s t u : Run} :
    (inferSome setting scope operand).outcome r = .ok (o, s) →
    (fresh (Expr.case operand (xs ++ ⟨e, result⟩ :: ys) otherwise).text .unknown).outcome s =
      .ok (v, t) →
    (inferBranches setting scope o v xs).outcome t = .ok (notNull, u) →
    Mirrored N p (.expr scope e e') u →
    Mirrored N p (.expr scope (.case operand (xs ++ ⟨e, result⟩ :: ys) otherwise)
      (.case operand (xs ++ ⟨e', result⟩ :: ys) otherwise)) r
  | result {operand : Option Expr} {xs : List WhenThen} {condition : Expr} (ys : List WhenThen)
      (otherwise : Option Expr) {scope : Scope} {e e' : Expr} {o : Option Inferred} {v : TypeVar}
      {notNull : Bool} {c : Inferred} {r s t u w x : Run} :
    (inferSome setting scope operand).outcome r = .ok (o, s) →
    (fresh (Expr.case operand (xs ++ ⟨condition, e⟩ :: ys) otherwise).text .unknown).outcome s =
      .ok (v, t) →
    (inferBranches setting scope o v xs).outcome t = .ok (notNull, u) →
    (inferExpr setting scope condition).outcome u = .ok (c, w) →
    (inferWhen setting condition.text o c).outcome w = .ok ((), x) →
    Mirrored N p (.expr scope e e') x →
    Mirrored N p (.expr scope (.case operand (xs ++ ⟨condition, e⟩ :: ys) otherwise)
      (.case operand (xs ++ ⟨condition, e'⟩ :: ys) otherwise)) r
  | otherwise {operand : Option Expr} {branches : List WhenThen} {scope : Scope} {e e' : Expr}
      {o : Option Inferred} {v : TypeVar} {notNull : Bool} {r s t u : Run} :
    (inferSome setting scope operand).outcome r = .ok (o, s) →
    (fresh (Expr.case operand branches (some e)).text .unknown).outcome s = .ok (v, t) →
    (inferBranches setting scope o v branches).outcome t = .ok (notNull, u) →
    Mirrored N p (.expr scope e e') u →
    Mirrored N p (.expr scope (.case operand branches (some e)) (.case operand branches (some e'))) r
  | query (f : QueryForm) {scope : Scope} {q q' : Select} {r : Run} :
    Mirrored N p (.query scope.levels q q') r → Mirrored N p (.expr scope (f.expr q) (f.expr q')) r
  -- queries
  | commonTable {xs : List Cte} (name : String) (ys : List Cte) (branches : List Branch)
      (order : List OrderTerm) (limit : Option Limit) {outer : List Level} {q q' : Select}
      {r s : Run} :
    (inferCtes setting outer xs).outcome r = .ok ((), s) → Mirrored N p (.query outer q q') s →
    Mirrored N p (.query outer ⟨xs ++ ⟨name, q⟩ :: ys, branches, order, limit⟩
      ⟨xs ++ ⟨name, q'⟩ :: ys, branches, order, limit⟩) r
  | union {ctes : List Cte} {xs : List Branch} (ys : List Branch) (order : List OrderTerm)
      (limit : Option Limit) {outer : List Level} {b b' : Branch} {found : List BranchResult}
      {r s t : Run} :
    (inferCtes setting outer ctes).outcome r = .ok ((), s) →
    (inferUnion setting outer xs).outcome s = .ok (found, t) →
    Mirrored N p (.branch outer b b') t →
    Mirrored N p (.query outer ⟨ctes, xs ++ b :: ys, order, limit⟩
      ⟨ctes, xs ++ b' :: ys, order, limit⟩) r
  | order {ctes : List Cte} {branches : List Branch} {xs : List OrderTerm} (descending : Bool)
      (ys : List OrderTerm) (limit : Option Limit) {outer : List Level} {e e' : Expr} {text : String}
      {found : List BranchResult} {head : BranchResult × List OutputColumn} {r s t u : Run} :
    (inferCtes setting outer ctes).outcome r = .ok ((), s) →
    (inferUnion setting outer branches).outcome s = .ok (found, t) →
    unionOf text found = .ok head →
    (inferOrder setting (orderScope outer head) xs).outcome t = .ok ((), u) →
    Mirrored N p (.expr (orderScope outer head) e e') u →
    Mirrored N p (.query outer ⟨ctes, branches, xs ++ ⟨e, descending⟩ :: ys, limit⟩
      ⟨ctes, branches, xs ++ ⟨e', descending⟩ :: ys, limit⟩) r
  | limit {ctes : List Cte} {branches : List Branch} {order : List OrderTerm} (offset : Option Expr)
      {outer : List Level} {e e' : Expr} {text : String} {found : List BranchResult}
      {head : BranchResult × List OutputColumn} {r s t u : Run} :
    (inferCtes setting outer ctes).outcome r = .ok ((), s) →
    (inferUnion setting outer branches).outcome s = .ok (found, t) →
    unionOf text found = .ok head →
    (inferOrder setting (orderScope outer head) order).outcome t = .ok ((), u) →
    Mirrored N p (.expr ⟨head.1.visible, outer⟩ e e') u →
    Mirrored N p (.query outer ⟨ctes, branches, order, some ⟨e, offset⟩⟩
      ⟨ctes, branches, order, some ⟨e', offset⟩⟩) r
  | offset {ctes : List Cte} {branches : List Branch} {order : List OrderTerm} {count : Expr}
      {outer : List Level} {e e' : Expr} {text : String} {found : List BranchResult}
      {head : BranchResult × List OutputColumn} {c : Inferred} {r s t u w x : Run} :
    (inferCtes setting outer ctes).outcome r = .ok ((), s) →
    (inferUnion setting outer branches).outcome s = .ok (found, t) →
    unionOf text found = .ok head →
    (inferOrder setting (orderScope outer head) order).outcome t = .ok ((), u) →
    (inferExpr setting ⟨head.1.visible, outer⟩ count).outcome u = .ok (c, w) →
    (inferBound setting count.text c).outcome w = .ok ((), x) →
    Mirrored N p (.expr ⟨head.1.visible, outer⟩ e e') x →
    Mirrored N p (.query outer ⟨ctes, branches, order, some ⟨count, some e⟩⟩
      ⟨ctes, branches, order, some ⟨count, some e'⟩⟩) r
  -- branches
  | source (distinct : Bool) (items : List Item) {xs : List Source} (aliasName : String)
      (ys : List Source) (joins : List Join) (criteria : Option Expr) (group : List Expr)
      (having : Option Expr) {outer : List Level} {q q' : Select} {done : Sources} {r s : Run} :
    (inferSources setting .empty xs).outcome r = .ok (done, s) → Mirrored N p (.query [] q q') s →
    Mirrored N p (.branch outer
      ⟨distinct, items, xs ++ .derived q aliasName :: ys, joins, criteria, group, having⟩
      ⟨distinct, items, xs ++ .derived q' aliasName :: ys, joins, criteria, group, having⟩) r
  | joined (distinct : Bool) (items : List Item) {sources : List Source} {xs : List Join}
      (kind : JoinKind) (aliasName : String) (on : JoinCondition) (ys : List Join)
      (criteria : Option Expr) (group : List Expr) (having : Option Expr) {outer : List Level}
      {q q' : Select} {listed done : Sources} {r s t : Run} :
    (inferSources setting .empty sources).outcome r = .ok (listed, s) →
    (inferJoins setting outer listed (Sources.lastName sources) xs).outcome s = .ok (done, t) →
    Mirrored N p (.query [] q q') t →
    Mirrored N p (.branch outer
      ⟨distinct, items, sources, xs ++ ⟨kind, .derived q aliasName, on⟩ :: ys, criteria, group,
        having⟩
      ⟨distinct, items, sources, xs ++ ⟨kind, .derived q' aliasName, on⟩ :: ys, criteria, group,
        having⟩) r
  | on (distinct : Bool) (items : List Item) {sources : List Source} {xs : List Join}
      (kind : JoinKind) {source : Source} (ys : List Join) (criteria : Option Expr)
      (group : List Expr) (having : Option Expr) {outer : List Level} {e e' : Expr}
      {listed done : Sources} {columns : Level} {r s t u : Run} :
    (inferSources setting .empty sources).outcome r = .ok (listed, s) →
    (inferJoins setting outer listed (Sources.lastName sources) xs).outcome s = .ok (done, t) →
    (inferSource setting source).outcome t = .ok (columns, u) →
    Mirrored N p (.expr ⟨done.columns ++ columns, outer⟩ e e') u →
    Mirrored N p (.branch outer
      ⟨distinct, items, sources, xs ++ ⟨kind, source, .predicate e⟩ :: ys, criteria, group, having⟩
      ⟨distinct, items, sources, xs ++ ⟨kind, source, .predicate e'⟩ :: ys, criteria, group,
        having⟩) r
  | item (distinct : Bool) {xs : List Item} (aliasName : Option String) (ys : List Item)
      {sources : List Source} {joins : List Join} (criteria : Option Expr) (group : List Expr)
      (having : Option Expr) {outer : List Level} {e e' : Expr} {done : Sources}
      {columns : List OutputColumn} {r s t : Run} :
    (inferFrom setting outer ⟨distinct, xs ++ .expr e aliasName :: ys, sources, joins, criteria,
      group, having⟩).outcome r = .ok (done, s) →
    (inferItems setting ⟨done.columns, outer⟩ xs).outcome
      { s with placeholders := s.placeholders.take r.placeholders.length } = .ok (columns, t) →
    (aliasName = none → N.Blurs e.text e'.text) →
    Mirrored N p (.expr ⟨done.columns, outer⟩ e e') t →
    Mirrored N p (.branch outer
      ⟨distinct, xs ++ .expr e aliasName :: ys, sources, joins, criteria, group, having⟩
      ⟨distinct, xs ++ .expr e' aliasName :: ys, sources, joins, criteria, group, having⟩) r
  | criteria (distinct : Bool) {items : List Item} {sources : List Source} {joins : List Join}
      (group : List Expr) (having : Option Expr) {outer : List Level} {e e' : Expr}
      {front : Sources × List OutputColumn} {r s : Run} :
    (inferProjected setting outer ⟨distinct, items, sources, joins, some e, group, having⟩).outcome
      r = .ok (front, s) →
    Mirrored N p (.expr ⟨front.1.columns, outer⟩ e e') s →
    Mirrored N p (.branch outer ⟨distinct, items, sources, joins, some e, group, having⟩
      ⟨distinct, items, sources, joins, some e', group, having⟩) r
  | group (distinct : Bool) {items : List Item} {sources : List Source} {joins : List Join}
      {criteria : Option Expr} {xs : List Expr} (ys : List Expr) (having : Option Expr)
      {outer : List Level} {e e' : Expr} {front : Sources × List OutputColumn}
      {found : Option Inferred} {is : List Inferred} {r s t u : Run} :
    (inferProjected setting outer
      ⟨distinct, items, sources, joins, criteria, xs ++ e :: ys, having⟩).outcome r =
      .ok (front, s) →
    (inferSome setting ⟨front.1.columns, outer⟩ criteria).outcome s = .ok (found, t) →
    (inferAll setting (groupedScope outer front) xs).outcome t = .ok (is, u) →
    Mirrored N p (.expr (groupedScope outer front) e e') u →
    Mirrored N p (.branch outer
      ⟨distinct, items, sources, joins, criteria, xs ++ e :: ys, having⟩
      ⟨distinct, items, sources, joins, criteria, xs ++ e' :: ys, having⟩) r
  | having (distinct : Bool) {items : List Item} {sources : List Source} {joins : List Join}
      {criteria : Option Expr} {group : List Expr} {outer : List Level} {e e' : Expr}
      {front : Sources × List OutputColumn} {found : Option Inferred} {is : List Inferred}
      {r s t u : Run} :
    (inferProjected setting outer
      ⟨distinct, items, sources, joins, criteria, group, some e⟩).outcome r = .ok (front, s) →
    (inferSome setting ⟨front.1.columns, outer⟩ criteria).outcome s = .ok (found, t) →
    (inferAll setting (groupedScope outer front) group).outcome t = .ok (is, u) →
    Mirrored N p (.expr (groupedScope outer front) e e') u →
    Mirrored N p (.branch outer ⟨distinct, items, sources, joins, criteria, group, some e⟩
      ⟨distinct, items, sources, joins, criteria, group, some e'⟩) r

/-! ## What a comparison is not -/

/-- An expression that is neither a reference to a column nor a placeholder, whatever the parentheses,
and no star. -/
structure Expr.Compound (e : Expr) : Prop where
  column : e.column? = none
  parameter : e.isParameter = false
  star : e.isStar = false

/-- The texts are compound where they are expressions. -/
def Counterparts.Compound : Counterparts → Prop
  | .expr _ e e' => e.Compound ∧ e'.Compound
  | .query _ _ _ | .branch _ _ _ => True

theorem BinaryForm.compound (f : BinaryForm) (left right : Expr) : (f.expr left right).Compound := by
  cases f <;> exact ⟨rfl, rfl, rfl⟩

theorem UnaryForm.compound (f : UnaryForm) (value : Expr) : (f.expr value).Compound := by
  cases f <;> exact ⟨rfl, rfl, rfl⟩

theorem QueryForm.compound (f : QueryForm) (query : Select) : (f.expr query).Compound := by
  cases f <;> exact ⟨rfl, rfl, rfl⟩

variable {N : Naming} {p : Passing setting}

/-- A comparison and whatever holds it are compound. -/
theorem Mirrored.compound {c : Counterparts} {r : Run} (h : Mirrored N p c r) : c.Compound := by
  induction h with
  | paren _ ih => exact ⟨⟨ih.1.column, ih.1.parameter, rfl⟩, ih.2.column, ih.2.parameter, rfl⟩
  | unary f => exact ⟨f.compound _, f.compound _⟩
  | left f | right f => exact ⟨f.compound _ _, f.compound _ _⟩
  | query f => exact ⟨f.compound _, f.compound _⟩
  | commonTable | union | order | limit | offset => trivial
  | source | joined | on | item | criteria | group | having => trivial
  | _ => exact ⟨⟨rfl, rfl, rfl⟩, rfl, rfl, rfl⟩

namespace Expr.Compound

variable {e : Expr}

theorem refersTo (h : e.Compound) (scope : Scope) (c : SourceColumn) :
    scope.refersTo c e = false := by
  unfold Scope.refersTo Scope.columnOf?
  rw [h.column]
  rfl

theorem soleParameter? (h : e.Compound) (xs ys : List Expr) :
    QuerySignature.soleParameter? (xs ++ e :: ys) = none := by
  unfold QuerySignature.soleParameter?
  split
  case h_1 name heq =>
    have hsole : e = .parameter name := by
      rcases List.append_eq_singleton_iff.1 heq with ⟨-, heq⟩ | ⟨-, heq⟩
      · exact (List.cons.inj heq).1
      · exact absurd heq (List.cons_ne_nil e ys)
    have hparameter := h.parameter
    rw [hsole] at hparameter
    cases hparameter
  case h_2 => rfl

end Expr.Compound

/-- The same columns are proven not null, where the texts are expressions. -/
def Counterparts.ProveAlike : Counterparts → Prop
  | .expr _ e e' => ∀ (scope : Scope) (c : SourceColumn),
    scope.provesNotNull c e' = scope.provesNotNull c e
  | .query _ _ _ | .branch _ _ _ => True

/-- A criterion proves the same columns not null with the sides of a comparison in it exchanged. -/
theorem Mirrored.proveAlike {c : Counterparts} {r : Run} (h : Mirrored N p c r) : c.ProveAlike := by
  induction h with
  | here => exact fun scope c => Bool.or_comm _ _
  | paren _ ih => exact fun scope c => ih scope c
  | @unary f _ e e' _ h ih =>
    intro scope c
    cases f with
    | not => rfl
    | isNull negated =>
      cases negated with
      | false => rfl
      | true => exact (h.compound.2.refersTo scope c).trans (h.compound.1.refersTo scope c).symm
  | @left f right _ e e' _ h ih =>
    intro scope c
    cases f with
    | arithmetic op | like negated => rfl
    | compare op =>
      show (_ || _) = (_ || _)
      rw [h.compound.1.refersTo, h.compound.2.refersTo]
    | and | or =>
      simp only [BinaryForm.expr, Scope.provesNotNull]
      rw [ih scope c]
  | @right f left _ e e' _ _ _ _ h ih =>
    intro scope c
    cases f with
    | arithmetic op | like negated => rfl
    | compare op =>
      show (_ || _) = (_ || _)
      rw [h.compound.1.refersTo, h.compound.2.refersTo]
    | and | or =>
      simp only [BinaryForm.expr, Scope.provesNotNull]
      rw [ih scope c]
  | query f => exact fun scope c => by cases f <;> rfl
  | commonTable | union | order | limit | offset => trivial
  | source | joined | on | item | criteria | group | having => trivial
  | _ => exact fun scope c => rfl

/-- The second of two statements is the first one with the sides of one comparison exchanged. -/
inductive MirroredStatement (N : Naming) (p : Passing setting) : Statement → Statement → Prop
  | select {q q' : Select} :
    Mirrored N p (.query [] q q') .start → MirroredStatement N p (.select q) (.select q')
  | value {table : String} {columns : List String} {before : List (List Expr)} {xs : List Expr}
      (ys : List Expr) (after : List (List Expr)) {e e' : Expr} {all targets : Level}
      {is : List Inferred} {r s t : Run} :
    (tableColumns setting.schema table none).outcome .start = .ok (all, r) →
    targetColumns all columns = .ok targets →
    (inferRows setting targets before).outcome r = .ok ((), s) →
    (inferAll setting .empty xs).outcome s = .ok (is, t) →
    Mirrored N p (.expr .empty e e') t →
    MirroredStatement N p (.insert table columns (.values (before ++ (xs ++ e :: ys) :: after)))
      (.insert table columns (.values (before ++ (xs ++ e' :: ys) :: after)))
  | rows {table : String} (columns : List String) {q q' : Select} {all : Level} {r : Run} :
    (tableColumns setting.schema table none).outcome .start = .ok (all, r) →
    Mirrored N p (.query [] q q') r →
    MirroredStatement N p (.insert table columns (.query q)) (.insert table columns (.query q'))
  | assigned {table : String} {xs : List Assignment} {column : String} (ys : List Assignment)
      (criteria : Option Expr) {e e' : Expr} {columns : Level} {target : SourceColumn}
      {r s t : Run} :
    (tableColumns setting.schema table none).outcome .start = .ok (columns, r) →
    (inferAssignments setting ⟨columns, []⟩ xs).outcome r = .ok ((), s) →
    (resolve ⟨columns, []⟩ (.ofText column)).outcome s = .ok (target, t) →
    Mirrored N p (.expr ⟨columns, []⟩ e e') t →
    MirroredStatement N p (.update table (xs ++ ⟨column, e⟩ :: ys) criteria)
      (.update table (xs ++ ⟨column, e'⟩ :: ys) criteria)
  | updated {table : String} {assignments : List Assignment} {e e' : Expr} {columns : Level}
      {r s : Run} :
    (tableColumns setting.schema table none).outcome .start = .ok (columns, r) →
    (inferAssignments setting ⟨columns, []⟩ assignments).outcome r = .ok ((), s) →
    Mirrored N p (.expr ⟨columns, []⟩ e e') s →
    MirroredStatement N p (.update table assignments (some e))
      (.update table assignments (some e'))
  | deleted {table : String} {e e' : Expr} {columns : Level} {r : Run} :
    (tableColumns setting.schema table none).outcome .start = .ok (columns, r) →
    Mirrored N p (.expr ⟨columns, []⟩ e e') r →
    MirroredStatement N p (.delete table (some e)) (.delete table (some e'))

end

end QuerySignature
