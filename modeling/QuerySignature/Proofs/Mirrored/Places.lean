import QuerySignature.Proofs.Mirrored.Walk

namespace QuerySignature

/-! # Places of expressions

An expression can be replaced anywhere in a statement. A walk over the statement that succeeds comes to
every place in its text, so it comes to each comparison in it.

- `Replaced`: two texts, the second with another expression in one place of the first.
- `ReplacedStatement`: the same for statements.
- `Replaced.exists_mirrored`: a walk over a text comes to any comparison in it.
- `ReplacedStatement.exists_mirrored`: so does the walk over a statement.
-/

/-- Two texts, the second in the place of the first. -/
inductive Texts where
  | expr (e e' : Expr)
  | query (q q' : Select)
  | branch (b b' : Branch)

/-- The second of two texts is the first one with `c'` in one place of `c`. Where that changes the text
of an expression that is projected without an alias, no name tells the texts apart. -/
inductive Replaced (N : Naming) (c c' : Expr) : Texts → Prop
  | here : Replaced N c c' (.expr c c')
  -- expressions
  | paren {e e' : Expr} :
    Replaced N c c' (.expr e e') → Replaced N c c' (.expr (.paren e) (.paren e'))
  | unary (f : UnaryForm) {e e' : Expr} :
    Replaced N c c' (.expr e e') → Replaced N c c' (.expr (f.expr e) (f.expr e'))
  | left (f : BinaryForm) (right : Expr) {e e' : Expr} :
    Replaced N c c' (.expr e e') → Replaced N c c' (.expr (f.expr e right) (f.expr e' right))
  | right (f : BinaryForm) (left : Expr) {e e' : Expr} :
    Replaced N c c' (.expr e e') → Replaced N c c' (.expr (f.expr left e) (f.expr left e'))
  | between (negated : Bool) (low high : Expr) {e e' : Expr} :
    Replaced N c c' (.expr e e') →
    Replaced N c c' (.expr (.between negated e low high) (.between negated e' low high))
  | low (negated : Bool) (value high : Expr) {e e' : Expr} :
    Replaced N c c' (.expr e e') →
    Replaced N c c' (.expr (.between negated value e high) (.between negated value e' high))
  | high (negated : Bool) (value low : Expr) {e e' : Expr} :
    Replaced N c c' (.expr e e') →
    Replaced N c c' (.expr (.between negated value low e) (.between negated value low e'))
  | inList (negated : Bool) (items : List Expr) {e e' : Expr} :
    Replaced N c c' (.expr e e') →
    Replaced N c c' (.expr (.inList negated e items) (.inList negated e' items))
  | listed (negated : Bool) (value : Expr) (xs ys : List Expr) {e e' : Expr} :
    Replaced N c c' (.expr e e') →
    Replaced N c c' (.expr (.inList negated value (xs ++ e :: ys))
      (.inList negated value (xs ++ e' :: ys)))
  | inQuery (negated : Bool) (q : Select) {e e' : Expr} :
    Replaced N c c' (.expr e e') →
    Replaced N c c' (.expr (.inQuery negated e q) (.inQuery negated e' q))
  | queried (negated : Bool) (value : Expr) {q q' : Select} :
    Replaced N c c' (.query q q') →
    Replaced N c c' (.expr (.inQuery negated value q) (.inQuery negated value q'))
  | argument (function : String) (distinct : Bool) (xs ys : List Expr) {e e' : Expr} :
    Replaced N c c' (.expr e e') →
    Replaced N c c' (.expr (.call function distinct (xs ++ e :: ys))
      (.call function distinct (xs ++ e' :: ys)))
  | operand (branches : List WhenThen) (otherwise : Option Expr) {e e' : Expr} :
    Replaced N c c' (.expr e e') →
    Replaced N c c' (.expr (.case (some e) branches otherwise) (.case (some e') branches otherwise))
  | condition (operand : Option Expr) (xs : List WhenThen) (result : Expr) (ys : List WhenThen)
      (otherwise : Option Expr) {e e' : Expr} :
    Replaced N c c' (.expr e e') →
    Replaced N c c' (.expr (.case operand (xs ++ ⟨e, result⟩ :: ys) otherwise)
      (.case operand (xs ++ ⟨e', result⟩ :: ys) otherwise))
  | result (operand : Option Expr) (xs : List WhenThen) (condition : Expr) (ys : List WhenThen)
      (otherwise : Option Expr) {e e' : Expr} :
    Replaced N c c' (.expr e e') →
    Replaced N c c' (.expr (.case operand (xs ++ ⟨condition, e⟩ :: ys) otherwise)
      (.case operand (xs ++ ⟨condition, e'⟩ :: ys) otherwise))
  | otherwise (operand : Option Expr) (branches : List WhenThen) {e e' : Expr} :
    Replaced N c c' (.expr e e') →
    Replaced N c c' (.expr (.case operand branches (some e)) (.case operand branches (some e')))
  | query (f : QueryForm) {q q' : Select} :
    Replaced N c c' (.query q q') → Replaced N c c' (.expr (f.expr q) (f.expr q'))
  -- queries
  | commonTable (xs : List Cte) (name : String) (ys : List Cte) (branches : List Branch)
      (order : List OrderTerm) (limit : Option Limit) {q q' : Select} :
    Replaced N c c' (.query q q') →
    Replaced N c c' (.query ⟨xs ++ ⟨name, q⟩ :: ys, branches, order, limit⟩
      ⟨xs ++ ⟨name, q'⟩ :: ys, branches, order, limit⟩)
  | union (ctes : List Cte) (xs ys : List Branch) (order : List OrderTerm) (limit : Option Limit)
      {b b' : Branch} :
    Replaced N c c' (.branch b b') →
    Replaced N c c' (.query ⟨ctes, xs ++ b :: ys, order, limit⟩
      ⟨ctes, xs ++ b' :: ys, order, limit⟩)
  | order (ctes : List Cte) (branches : List Branch) (xs : List OrderTerm) (descending : Bool)
      (ys : List OrderTerm) (limit : Option Limit) {e e' : Expr} :
    Replaced N c c' (.expr e e') →
    Replaced N c c' (.query ⟨ctes, branches, xs ++ ⟨e, descending⟩ :: ys, limit⟩
      ⟨ctes, branches, xs ++ ⟨e', descending⟩ :: ys, limit⟩)
  | limit (ctes : List Cte) (branches : List Branch) (order : List OrderTerm)
      (offset : Option Expr) {e e' : Expr} :
    Replaced N c c' (.expr e e') →
    Replaced N c c' (.query ⟨ctes, branches, order, some ⟨e, offset⟩⟩
      ⟨ctes, branches, order, some ⟨e', offset⟩⟩)
  | offset (ctes : List Cte) (branches : List Branch) (order : List OrderTerm) (count : Expr)
      {e e' : Expr} :
    Replaced N c c' (.expr e e') →
    Replaced N c c' (.query ⟨ctes, branches, order, some ⟨count, some e⟩⟩
      ⟨ctes, branches, order, some ⟨count, some e'⟩⟩)
  -- branches
  | source (distinct : Bool) (items : List Item) (xs : List Source) (aliasName : String)
      (ys : List Source) (joins : List Join) (criteria : Option Expr) (group : List Expr)
      (having : Option Expr) {q q' : Select} :
    Replaced N c c' (.query q q') →
    Replaced N c c' (.branch
      ⟨distinct, items, xs ++ .derived q aliasName :: ys, joins, criteria, group, having⟩
      ⟨distinct, items, xs ++ .derived q' aliasName :: ys, joins, criteria, group, having⟩)
  | joined (distinct : Bool) (items : List Item) (sources : List Source) (xs : List Join)
      (kind : JoinKind) (aliasName : String) (on : JoinCondition) (ys : List Join)
      (criteria : Option Expr) (group : List Expr) (having : Option Expr) {q q' : Select} :
    Replaced N c c' (.query q q') →
    Replaced N c c' (.branch
      ⟨distinct, items, sources, xs ++ ⟨kind, .derived q aliasName, on⟩ :: ys, criteria, group,
        having⟩
      ⟨distinct, items, sources, xs ++ ⟨kind, .derived q' aliasName, on⟩ :: ys, criteria, group,
        having⟩)
  | on (distinct : Bool) (items : List Item) (sources : List Source) (xs : List Join)
      (kind : JoinKind) (source : Source) (ys : List Join) (criteria : Option Expr)
      (group : List Expr) (having : Option Expr) {e e' : Expr} :
    Replaced N c c' (.expr e e') →
    Replaced N c c' (.branch
      ⟨distinct, items, sources, xs ++ ⟨kind, source, .predicate e⟩ :: ys, criteria, group, having⟩
      ⟨distinct, items, sources, xs ++ ⟨kind, source, .predicate e'⟩ :: ys, criteria, group,
        having⟩)
  | item (distinct : Bool) (xs : List Item) (aliasName : Option String) (ys : List Item)
      (sources : List Source) (joins : List Join) (criteria : Option Expr) (group : List Expr)
      (having : Option Expr) {e e' : Expr} :
    (aliasName = none → N.Blurs e.text e'.text) → Replaced N c c' (.expr e e') →
    Replaced N c c' (.branch
      ⟨distinct, xs ++ .expr e aliasName :: ys, sources, joins, criteria, group, having⟩
      ⟨distinct, xs ++ .expr e' aliasName :: ys, sources, joins, criteria, group, having⟩)
  | criteria (distinct : Bool) (items : List Item) (sources : List Source) (joins : List Join)
      (group : List Expr) (having : Option Expr) {e e' : Expr} :
    Replaced N c c' (.expr e e') →
    Replaced N c c' (.branch ⟨distinct, items, sources, joins, some e, group, having⟩
      ⟨distinct, items, sources, joins, some e', group, having⟩)
  | group (distinct : Bool) (items : List Item) (sources : List Source) (joins : List Join)
      (criteria : Option Expr) (xs ys : List Expr) (having : Option Expr) {e e' : Expr} :
    Replaced N c c' (.expr e e') →
    Replaced N c c' (.branch ⟨distinct, items, sources, joins, criteria, xs ++ e :: ys, having⟩
      ⟨distinct, items, sources, joins, criteria, xs ++ e' :: ys, having⟩)
  | having (distinct : Bool) (items : List Item) (sources : List Source) (joins : List Join)
      (criteria : Option Expr) (group : List Expr) {e e' : Expr} :
    Replaced N c c' (.expr e e') →
    Replaced N c c' (.branch ⟨distinct, items, sources, joins, criteria, group, some e⟩
      ⟨distinct, items, sources, joins, criteria, group, some e'⟩)

/-- The second of two statements is the first one with `c'` in one place of `c`. -/
inductive ReplacedStatement (N : Naming) (c c' : Expr) : Statement → Statement → Prop
  | select {q q' : Select} :
    Replaced N c c' (.query q q') → ReplacedStatement N c c' (.select q) (.select q')
  | value (table : String) (columns : List String) (before : List (List Expr)) (xs ys : List Expr)
      (after : List (List Expr)) {e e' : Expr} :
    Replaced N c c' (.expr e e') →
    ReplacedStatement N c c'
      (.insert table columns (.values (before ++ (xs ++ e :: ys) :: after)))
      (.insert table columns (.values (before ++ (xs ++ e' :: ys) :: after)))
  | rows (table : String) (columns : List String) {q q' : Select} :
    Replaced N c c' (.query q q') →
    ReplacedStatement N c c' (.insert table columns (.query q)) (.insert table columns (.query q'))
  | assigned (table : String) (xs : List Assignment) (column : String) (ys : List Assignment)
      (criteria : Option Expr) {e e' : Expr} :
    Replaced N c c' (.expr e e') →
    ReplacedStatement N c c' (.update table (xs ++ ⟨column, e⟩ :: ys) criteria)
      (.update table (xs ++ ⟨column, e'⟩ :: ys) criteria)
  | updated (table : String) (assignments : List Assignment) {e e' : Expr} :
    Replaced N c c' (.expr e e') →
    ReplacedStatement N c c' (.update table assignments (some e))
      (.update table assignments (some e'))
  | deleted (table : String) {e e' : Expr} :
    Replaced N c c' (.expr e e') →
    ReplacedStatement N c c' (.delete table (some e)) (.delete table (some e'))

/-! ## Steps that succeed -/

/-- A step that gives a value, from a run. -/
def Analyze.Succeeds {α : Type} (step : Analyze α) (r : Run) : Prop :=
  ∃ a s, step.outcome r = .ok (a, s)

namespace Analyze.Succeeds

variable {α β : Type} {step : Analyze α} {next : α → Analyze β} {r : Run}

theorem bind (h : (step >>= next).Succeeds r) :
    ∃ a s, step.outcome r = .ok (a, s) ∧ (next a).Succeeds s := by
  obtain ⟨b, t, h⟩ := h
  rw [Analyze.outcome_bind] at h
  rcases bind_eq_ok.1 h with ⟨⟨a, s⟩, hfirst, hsecond⟩
  exact ⟨a, s, hfirst, b, t, hsecond⟩

theorem first (h : (step >>= next).Succeeds r) : step.Succeeds r := by
  obtain ⟨a, s, hfirst, -⟩ := h.bind
  exact ⟨a, s, hfirst⟩

theorem aside (h : (Analyze.aside step next).Succeeds r) :
    ∃ a s, step.outcome r = .ok (a, s) ∧
      (next a).Succeeds { s with placeholders := s.placeholders.take r.placeholders.length } := by
  obtain ⟨b, t, h⟩ := h
  obtain ⟨a, s, u, hfirst, hsecond, -⟩ := Analyze.of_outcome_aside h
  exact ⟨a, s, hfirst, b, u, hsecond⟩

theorem keepingCtes (h : (QuerySignature.keepingCtes step).Succeeds r) : step.Succeeds r := by
  obtain ⟨a, s, h⟩ := h
  rw [Parallel.outcome_keepingCtes] at h
  cases hstep : step.outcome r with
  | error e =>
    rw [hstep] at h
    cases h
  | ok p => exact ⟨p.1, p.2, hstep⟩

theorem lift {x : Except AnalysisError α} (h : (QuerySignature.lift x >>= next).Succeeds r) :
    ∃ a, x = .ok a ∧ (next a).Succeeds r := by
  cases x with
  | error e =>
    obtain ⟨b, t, h⟩ := h
    cases h
  | ok a => exact ⟨a, rfl, h⟩

theorem congr {step' : Analyze α} (h : step.Succeeds r) (heq : step.outcome r = step'.outcome r) :
    step'.Succeeds r := by
  obtain ⟨a, s, h⟩ := h
  exact ⟨a, s, heq ▸ h⟩

end Analyze.Succeeds

/-! ## Walks come to every place -/

/-- Every walk over a text comes to the comparison in it. -/
def Texts.Found (setting : Setting) (N : Naming) (c : Expr) : Texts → Prop
  | .expr e e' => ∀ scope r, (inferExpr setting scope e).Succeeds r →
    ∃ p : Passing setting, p.comparison = c ∧ Mirrored N p (.expr scope e e') r
  | .query q q' => ∀ outer r, (inferQuery setting outer q).Succeeds r →
    ∃ p : Passing setting, p.comparison = c ∧ Mirrored N p (.query outer q q') r
  | .branch b b' => ∀ outer r, (inferBranch setting outer b).Succeeds r →
    ∃ p : Passing setting, p.comparison = c ∧ Mirrored N p (.branch outer b b') r

/-- The first of two texts is compound where it is an expression. -/
def Texts.Compound : Texts → Prop
  | .expr e _ => e.Compound
  | .query _ _ | .branch _ _ => True

theorem Replaced.compound {N : Naming} {c c' : Expr} (hc : c.Compound) {t : Texts}
    (h : Replaced N c c' t) : t.Compound := by
  induction h with
  | here => exact hc
  | paren _ ih => exact ⟨ih.column, ih.parameter, rfl⟩
  | unary f => exact f.compound _
  | left f | right f => exact f.compound _ _
  | query f => exact f.compound _
  | commonTable | union | order | limit | offset => trivial
  | source | joined | on | item | criteria | group | having => trivial
  | _ => exact ⟨rfl, rfl, rfl⟩

namespace Found

variable {setting : Setting} {N : Naming} {c e e' : Expr}

/-! ### Expressions -/

theorem here (op : CompareOp) (left right : Expr) :
    (Texts.expr (.compare op left right) (.compare op.mirror right left)).Found setting N
      (.compare op left right) := by
  intro scope r h
  obtain ⟨l, s, hleft, h⟩ := h.bind
  obtain ⟨x, t, hright, -⟩ := h.bind
  exact ⟨⟨op, left, right, scope, r, l, s, x, t, hleft, hright⟩, rfl, .here⟩

theorem unary (f : UnaryForm) (ih : (Texts.expr e e').Found setting N c) :
    (Texts.expr (f.expr e) (f.expr e')).Found setting N c := by
  intro scope r h
  rw [f.inferExpr_eq] at h
  obtain ⟨p, hp, hm⟩ := ih scope r h.first
  exact ⟨p, hp, .unary f hm⟩

theorem left (f : BinaryForm) (right : Expr) (ih : (Texts.expr e e').Found setting N c) :
    (Texts.expr (f.expr e right) (f.expr e' right)).Found setting N c := by
  intro scope r h
  rw [f.inferExpr_eq] at h
  obtain ⟨p, hp, hm⟩ := ih scope r h.first
  exact ⟨p, hp, .left f right hm⟩

theorem right (f : BinaryForm) (left : Expr) (ih : (Texts.expr e e').Found setting N c) :
    (Texts.expr (f.expr left e) (f.expr left e')).Found setting N c := by
  intro scope r h
  rw [f.inferExpr_eq] at h
  obtain ⟨l, s, hleft, h⟩ := h.bind
  obtain ⟨p, hp, hm⟩ := ih scope s h.first
  exact ⟨p, hp, .right f hleft hm⟩

theorem between (negated : Bool) (low high : Expr) (ih : (Texts.expr e e').Found setting N c) :
    (Texts.expr (.between negated e low high) (.between negated e' low high)).Found setting N c := by
  intro scope r h
  obtain ⟨p, hp, hm⟩ := ih scope r (Analyze.Succeeds.first h)
  exact ⟨p, hp, .between negated low high hm⟩

theorem low (negated : Bool) (value high : Expr) (ih : (Texts.expr e e').Found setting N c) :
    (Texts.expr (.between negated value e high) (.between negated value e' high)).Found setting N
      c := by
  intro scope r h
  obtain ⟨v, s, hvalue, h⟩ := Analyze.Succeeds.bind h
  obtain ⟨p, hp, hm⟩ := ih scope s h.first
  exact ⟨p, hp, .low negated high hvalue hm⟩

theorem high (negated : Bool) (value low : Expr) (ih : (Texts.expr e e').Found setting N c) :
    (Texts.expr (.between negated value low e) (.between negated value low e')).Found setting N
      c := by
  intro scope r h
  obtain ⟨v, s, hvalue, h⟩ := Analyze.Succeeds.bind h
  obtain ⟨l, t, hlow, h⟩ := h.bind
  obtain ⟨p, hp, hm⟩ := ih scope t h.first
  exact ⟨p, hp, .high negated hvalue hlow hm⟩

theorem inList (negated : Bool) (items : List Expr) (ih : (Texts.expr e e').Found setting N c) :
    (Texts.expr (.inList negated e items) (.inList negated e' items)).Found setting N c := by
  intro scope r h
  obtain ⟨p, hp, hm⟩ := ih scope r (Analyze.Succeeds.first h)
  exact ⟨p, hp, .inList negated items hm⟩

/-- A list of expressions. -/
theorem all {xs ys : List Expr} (ih : (Texts.expr e e').Found setting N c) {scope : Scope} {r : Run}
    (h : (inferAll setting scope (xs ++ e :: ys)).Succeeds r) :
    ∃ is s, (inferAll setting scope xs).outcome r = .ok (is, s) ∧
      ∃ p : Passing setting, p.comparison = c ∧ Mirrored N p (.expr scope e e') s := by
  rw [inferAll_append] at h
  obtain ⟨is, s, hxs, h⟩ := h.bind
  exact ⟨is, s, hxs, ih scope s (Analyze.Succeeds.first h.first)⟩

theorem listed (negated : Bool) (value : Expr) (xs ys : List Expr) (hcompound : e.Compound)
    (ih : (Texts.expr e e').Found setting N c) :
    (Texts.expr (.inList negated value (xs ++ e :: ys))
      (.inList negated value (xs ++ e' :: ys))).Found setting N c := by
  intro scope r h
  obtain ⟨v, s, hvalue, h⟩ := Analyze.Succeeds.bind h
  obtain ⟨_, t, hforce, h⟩ := h.bind
  dsimp only at h
  rw [hcompound.soleParameter?] at h
  obtain ⟨is, u, hxs, p, hp, hm⟩ := all ih h.first
  exact ⟨p, hp, .listed negated ys hvalue hforce hxs hm⟩

theorem inQuery (negated : Bool) (q : Select) (ih : (Texts.expr e e').Found setting N c) :
    (Texts.expr (.inQuery negated e q) (.inQuery negated e' q)).Found setting N c := by
  intro scope r h
  obtain ⟨p, hp, hm⟩ := ih scope r (Analyze.Succeeds.first h)
  exact ⟨p, hp, .inQuery negated q hm⟩

theorem queried (negated : Bool) (value : Expr) {q q' : Select}
    (ih : (Texts.query q q').Found setting N c) :
    (Texts.expr (.inQuery negated value q) (.inQuery negated value q')).Found setting N c := by
  intro scope r h
  obtain ⟨v, s, hvalue, h⟩ := Analyze.Succeeds.bind h
  obtain ⟨_, t, hforce, h⟩ := h.bind
  obtain ⟨p, hp, hm⟩ := ih scope.levels t h.first
  exact ⟨p, hp, .queried negated hvalue hforce hm⟩

theorem argument (function : String) (distinct : Bool) (xs ys : List Expr)
    (hcompound : e.Compound) (ih : (Texts.expr e e').Found setting N c) :
    (Texts.expr (.call function distinct (xs ++ e :: ys))
      (.call function distinct (xs ++ e' :: ys))).Found setting N c := by
  intro scope r h
  have harguments := Analyze.Succeeds.first h
  rw [inferArguments_append] at harguments
  obtain ⟨is, s, hxs, h⟩ := harguments.bind
  unfold inferArguments at h
  rw [hcompound.star] at h
  obtain ⟨p, hp, hm⟩ := ih scope s h.first.first
  exact ⟨p, hp, .argument function distinct ys hxs hm⟩

theorem operand (branches : List WhenThen) (otherwise : Option Expr)
    (ih : (Texts.expr e e').Found setting N c) :
    (Texts.expr (.case (some e) branches otherwise)
      (.case (some e') branches otherwise)).Found setting N c := by
  intro scope r h
  have hsome := Analyze.Succeeds.first h
  obtain ⟨p, hp, hm⟩ := ih scope r (Analyze.Succeeds.first hsome)
  exact ⟨p, hp, .operand branches otherwise hm⟩

/-- The branches of a CASE. -/
theorem caseBranches {operand otherwise : Option Expr} {xs ys : List WhenThen} {x : WhenThen}
    {scope : Scope} {r : Run}
    (h : (inferExpr setting scope (.case operand (xs ++ x :: ys) otherwise)).Succeeds r) :
    ∃ o s v t notNull u, (inferSome setting scope operand).outcome r = .ok (o, s) ∧
      (fresh (Expr.case operand (xs ++ x :: ys) otherwise).text .unknown).outcome s = .ok (v, t) ∧
      (inferBranches setting scope o v xs).outcome t = .ok (notNull, u) ∧
      (inferBranches setting scope o v (x :: ys)).Succeeds u := by
  obtain ⟨o, s, hoperand, h⟩ := Analyze.Succeeds.bind h
  obtain ⟨v, t, hfresh, h⟩ := h.bind
  have hbranches := h.first
  rw [inferBranches_append] at hbranches
  obtain ⟨notNull, u, hxs, h⟩ := hbranches.bind
  exact ⟨o, s, v, t, notNull, u, hoperand, hfresh, hxs, h.first⟩

theorem condition (operand : Option Expr) (xs : List WhenThen) (result : Expr) (ys : List WhenThen)
    (otherwise : Option Expr) (ih : (Texts.expr e e').Found setting N c) :
    (Texts.expr (.case operand (xs ++ ⟨e, result⟩ :: ys) otherwise)
      (.case operand (xs ++ ⟨e', result⟩ :: ys) otherwise)).Found setting N c := by
  intro scope r h
  obtain ⟨o, s, v, t, notNull, u, hoperand, hfresh, hxs, h⟩ := caseBranches h
  obtain ⟨p, hp, hm⟩ := ih scope u (Analyze.Succeeds.first h)
  exact ⟨p, hp, .condition result ys otherwise hoperand hfresh hxs hm⟩

theorem result (operand : Option Expr) (xs : List WhenThen) (condition : Expr)
    (ys : List WhenThen) (otherwise : Option Expr) (ih : (Texts.expr e e').Found setting N c) :
    (Texts.expr (.case operand (xs ++ ⟨condition, e⟩ :: ys) otherwise)
      (.case operand (xs ++ ⟨condition, e'⟩ :: ys) otherwise)).Found setting N c := by
  intro scope r h
  obtain ⟨o, s, v, t, notNull, u, hoperand, hfresh, hxs, h⟩ := caseBranches h
  obtain ⟨i, w, hcondition, h⟩ := Analyze.Succeeds.bind h
  obtain ⟨_, x, hwhen, h⟩ := h.bind
  obtain ⟨p, hp, hm⟩ := ih scope x h.first
  exact ⟨p, hp, .result ys otherwise hoperand hfresh hxs hcondition hwhen hm⟩

theorem otherwise (operand : Option Expr) (branches : List WhenThen)
    (ih : (Texts.expr e e').Found setting N c) :
    (Texts.expr (.case operand branches (some e)) (.case operand branches (some e'))).Found setting
      N c := by
  intro scope r h
  obtain ⟨o, s, hoperand, h⟩ := Analyze.Succeeds.bind h
  obtain ⟨v, t, hfresh, h⟩ := h.bind
  obtain ⟨notNull, u, hbranches, h⟩ := h.bind
  obtain ⟨p, hp, hm⟩ := ih scope u (Analyze.Succeeds.first h.first)
  exact ⟨p, hp, .otherwise hoperand hfresh hbranches hm⟩

theorem query (f : QueryForm) {q q' : Select} (ih : (Texts.query q q').Found setting N c) :
    (Texts.expr (f.expr q) (f.expr q')).Found setting N c := by
  intro scope r h
  rw [f.inferExpr_eq] at h
  obtain ⟨p, hp, hm⟩ := ih scope.levels r h.first
  exact ⟨p, hp, .query f hm⟩

/-! ### Queries -/

/-- A query comes to its branches behind its common tables. -/
theorem behindTables {outer : List Level} {q : Select} {r : Run}
    (h : (inferQuery setting outer q).Succeeds r) :
    ∃ s, (inferCtes setting outer q.ctes).outcome r = .ok ((), s) ∧
      (inferUnion setting outer q.branches >>= fun found =>
        lift (unionOf q.text found) >>= inferOrdered setting outer q).Succeeds s := by
  rw [inferQuery_eq] at h
  obtain ⟨_, s, hctes, h⟩ := h.keepingCtes.bind
  rw [inferBody_eq] at h
  exact ⟨s, hctes, h⟩

theorem commonTable (xs : List Cte) (name : String) (ys : List Cte) (branches : List Branch)
    (order : List OrderTerm) (limit : Option Limit) {q q' : Select}
    (ih : (Texts.query q q').Found setting N c) :
    (Texts.query ⟨xs ++ ⟨name, q⟩ :: ys, branches, order, limit⟩
      ⟨xs ++ ⟨name, q'⟩ :: ys, branches, order, limit⟩).Found setting N c := by
  intro outer r h
  rw [inferQuery_eq] at h
  have hctes := h.keepingCtes.first
  dsimp only at hctes
  rw [inferCtes_append] at hctes
  obtain ⟨_, s, hxs, h⟩ := hctes.bind
  obtain ⟨p, hp, hm⟩ := ih outer s (Analyze.Succeeds.first h)
  exact ⟨p, hp, .commonTable name ys branches order limit hxs hm⟩

theorem union (ctes : List Cte) (xs ys : List Branch) (order : List OrderTerm)
    (limit : Option Limit) {b b' : Branch} (ih : (Texts.branch b b').Found setting N c) :
    (Texts.query ⟨ctes, xs ++ b :: ys, order, limit⟩
      ⟨ctes, xs ++ b' :: ys, order, limit⟩).Found setting N c := by
  intro outer r h
  obtain ⟨s, hctes, h⟩ := behindTables h
  have hunion := h.first
  dsimp only at hunion
  rw [inferUnion_append] at hunion
  obtain ⟨found, t, hxs, h⟩ := hunion.bind
  obtain ⟨p, hp, hm⟩ := ih outer t (Analyze.Succeeds.first h.first)
  exact ⟨p, hp, .union ys order limit hctes hxs hm⟩

/-- A query comes to its ORDER BY behind its branches. -/
theorem behindBranches {outer : List Level} {q : Select} {r : Run}
    (h : (inferQuery setting outer q).Succeeds r) :
    ∃ s found t head, (inferCtes setting outer q.ctes).outcome r = .ok ((), s) ∧
      (inferUnion setting outer q.branches).outcome s = .ok (found, t) ∧
      unionOf q.text found = .ok head ∧ (inferOrdered setting outer q head).Succeeds t := by
  obtain ⟨s, hctes, h⟩ := behindTables h
  obtain ⟨found, t, hunion, h⟩ := h.bind
  obtain ⟨head, hhead, h⟩ := h.lift
  exact ⟨s, found, t, head, hctes, hunion, hhead, h⟩

theorem orderTerm (ctes : List Cte) (branches : List Branch) (xs : List OrderTerm)
    (descending : Bool) (ys : List OrderTerm) (limit : Option Limit) (hcompound : e.Compound)
    (ih : (Texts.expr e e').Found setting N c) :
    (Texts.query ⟨ctes, branches, xs ++ ⟨e, descending⟩ :: ys, limit⟩
      ⟨ctes, branches, xs ++ ⟨e', descending⟩ :: ys, limit⟩).Found setting N c := by
  intro outer r h
  obtain ⟨s, found, t, head, hctes, hunion, hhead, h⟩ := behindBranches h
  have horder := Analyze.Succeeds.first h
  rw [inferOrder_append] at horder
  obtain ⟨_, u, hxs, h⟩ := horder.bind
  unfold inferOrder at h
  rw [hcompound.parameter] at h
  obtain ⟨p, hp, hm⟩ := ih _ u (Analyze.Succeeds.first h)
  exact ⟨p, hp, .order descending ys limit hctes hunion hhead hxs hm⟩

theorem limit (ctes : List Cte) (branches : List Branch) (order : List OrderTerm)
    (offset : Option Expr) (ih : (Texts.expr e e').Found setting N c) :
    (Texts.query ⟨ctes, branches, order, some ⟨e, offset⟩⟩
      ⟨ctes, branches, order, some ⟨e', offset⟩⟩).Found setting N c := by
  intro outer r h
  obtain ⟨s, found, t, head, hctes, hunion, hhead, h⟩ := behindBranches h
  obtain ⟨_, u, horder, h⟩ := Analyze.Succeeds.bind h
  obtain ⟨p, hp, hm⟩ := ih _ u (Analyze.Succeeds.first h.first)
  exact ⟨p, hp, .limit offset hctes hunion hhead horder hm⟩

theorem offset (ctes : List Cte) (branches : List Branch) (order : List OrderTerm) (count : Expr)
    (ih : (Texts.expr e e').Found setting N c) :
    (Texts.query ⟨ctes, branches, order, some ⟨count, some e⟩⟩
      ⟨ctes, branches, order, some ⟨count, some e'⟩⟩).Found setting N c := by
  intro outer r h
  obtain ⟨s, found, t, head, hctes, hunion, hhead, h⟩ := behindBranches h
  obtain ⟨_, u, horder, h⟩ := Analyze.Succeeds.bind h
  obtain ⟨i, w, hcount, h⟩ := Analyze.Succeeds.bind h.first
  obtain ⟨_, x, hbound, h⟩ := h.bind
  obtain ⟨p, hp, hm⟩ := ih _ x (Analyze.Succeeds.first h)
  exact ⟨p, hp, .offset hctes hunion hhead horder hcount hbound hm⟩

/-! ### Branches -/

/-- A branch comes to its conditions behind its projection. -/
theorem behindProjection {outer : List Level} {b : Branch} {r : Run}
    (h : (inferBranch setting outer b).Succeeds r) :
    ∃ front s, (inferProjected setting outer b).outcome r = .ok (front, s) ∧
      (inferConditions setting outer b front).Succeeds s :=
  (h.congr (inferBranch_parts setting outer b r)).bind

/-- A branch comes to its FROM clause first. -/
theorem fromClause {outer : List Level} {b : Branch} {r : Run}
    (h : (inferBranch setting outer b).Succeeds r) :
    ∃ done s, (inferFrom setting outer b).outcome r = .ok (done, s) ∧
      (inferItems setting ⟨done.columns, outer⟩ b.items).Succeeds
        { s with placeholders := s.placeholders.take r.placeholders.length } := by
  obtain ⟨front, t, hprojected, -⟩ := behindProjection h
  have haside : (inferProjected setting outer b).Succeeds r := ⟨front, t, hprojected⟩
  obtain ⟨done, s, hfrom, hitems⟩ := Analyze.Succeeds.aside haside
  exact ⟨done, s, hfrom, hitems.first⟩

theorem source (distinct : Bool) (items : List Item) (xs : List Source) (aliasName : String)
    (ys : List Source) (joins : List Join) (criteria : Option Expr) (group : List Expr)
    (having : Option Expr) {q q' : Select} (ih : (Texts.query q q').Found setting N c) :
    (Texts.branch
      ⟨distinct, items, xs ++ .derived q aliasName :: ys, joins, criteria, group, having⟩
      ⟨distinct, items, xs ++ .derived q' aliasName :: ys, joins, criteria, group,
        having⟩).Found setting N c := by
  intro outer r h
  obtain ⟨done, s, hfrom, -⟩ := fromClause h
  have hclause : (inferFrom setting outer _).Succeeds r := ⟨done, s, hfrom⟩
  have hsources := Analyze.Succeeds.first hclause
  rw [inferSources_append] at hsources
  obtain ⟨listed, t, hxs, h⟩ := hsources.bind
  obtain ⟨p, hp, hm⟩ := ih [] t (Analyze.Succeeds.first (Analyze.Succeeds.first h))
  exact ⟨p, hp, .source distinct items aliasName ys joins criteria group having hxs hm⟩

/-- The joins of a branch. -/
theorem join {distinct : Bool} {items : List Item} {sources : List Source} {xs : List Join} {j : Join}
    {ys : List Join} {criteria : Option Expr} {group : List Expr} {having : Option Expr}
    {outer : List Level} {r : Run}
    (h : (inferBranch setting outer
      ⟨distinct, items, sources, xs ++ j :: ys, criteria, group, having⟩).Succeeds r) :
    ∃ listed s done t, (inferSources setting .empty sources).outcome r = .ok (listed, s) ∧
      (inferJoins setting outer listed (Sources.lastName sources) xs).outcome s = .ok (done, t) ∧
      ∃ previous, (inferJoins setting outer done previous (j :: ys)).Succeeds t := by
  obtain ⟨joined, u, hfrom, -⟩ := fromClause h
  have hclause : (inferFrom setting outer _).Succeeds r := ⟨joined, u, hfrom⟩
  obtain ⟨listed, s, hsources, h⟩ := Analyze.Succeeds.bind hclause
  rw [inferJoins_append] at h
  obtain ⟨done, t, hxs, h⟩ := h.bind
  exact ⟨listed, s, done, t, hsources, hxs, _, h⟩

theorem joined (distinct : Bool) (items : List Item) (sources : List Source) (xs : List Join)
    (kind : JoinKind) (aliasName : String) (on : JoinCondition) (ys : List Join)
    (criteria : Option Expr) (group : List Expr) (having : Option Expr) {q q' : Select}
    (ih : (Texts.query q q').Found setting N c) :
    (Texts.branch
      ⟨distinct, items, sources, xs ++ ⟨kind, .derived q aliasName, on⟩ :: ys, criteria, group,
        having⟩
      ⟨distinct, items, sources, xs ++ ⟨kind, .derived q' aliasName, on⟩ :: ys, criteria, group,
        having⟩).Found setting N c := by
  intro outer r h
  obtain ⟨listed, s, done, t, hsources, hxs, previous, h⟩ := join h
  obtain ⟨p, hp, hm⟩ := ih [] t (Analyze.Succeeds.first (Analyze.Succeeds.first h))
  exact ⟨p, hp, .joined distinct items kind aliasName on ys criteria group having hsources hxs hm⟩

theorem on (distinct : Bool) (items : List Item) (sources : List Source) (xs : List Join)
    (kind : JoinKind) (source : Source) (ys : List Join) (criteria : Option Expr)
    (group : List Expr) (having : Option Expr) (ih : (Texts.expr e e').Found setting N c) :
    (Texts.branch
      ⟨distinct, items, sources, xs ++ ⟨kind, source, .predicate e⟩ :: ys, criteria, group, having⟩
      ⟨distinct, items, sources, xs ++ ⟨kind, source, .predicate e'⟩ :: ys, criteria, group,
        having⟩).Found setting N c := by
  intro outer r h
  obtain ⟨listed, s, done, t, hsources, hxs, previous, h⟩ := join h
  obtain ⟨columns, u, hsource, h⟩ := Analyze.Succeeds.bind h
  obtain ⟨p, hp, hm⟩ := ih _ u (Analyze.Succeeds.first h.first)
  exact ⟨p, hp, .on distinct items kind ys criteria group having hsources hxs hsource hm⟩

theorem item (distinct : Bool) (xs : List Item) (aliasName : Option String) (ys : List Item)
    (sources : List Source) (joins : List Join) (criteria : Option Expr) (group : List Expr)
    (having : Option Expr) (hblurs : aliasName = none → N.Blurs e.text e'.text)
    (ih : (Texts.expr e e').Found setting N c) :
    (Texts.branch
      ⟨distinct, xs ++ .expr e aliasName :: ys, sources, joins, criteria, group, having⟩
      ⟨distinct, xs ++ .expr e' aliasName :: ys, sources, joins, criteria, group,
        having⟩).Found setting N c := by
  intro outer r h
  obtain ⟨done, s, hfrom, hitems⟩ := fromClause h
  dsimp only at hitems
  rw [inferItems_append] at hitems
  obtain ⟨columns, t, hxs, h⟩ := hitems.bind
  obtain ⟨p, hp, hm⟩ := ih _ t (Analyze.Succeeds.first (Analyze.Succeeds.first h.first))
  exact ⟨p, hp, .item distinct aliasName ys criteria group having hfrom hxs hblurs hm⟩

theorem criteria (distinct : Bool) (items : List Item) (sources : List Source) (joins : List Join)
    (group : List Expr) (having : Option Expr) (ih : (Texts.expr e e').Found setting N c) :
    (Texts.branch ⟨distinct, items, sources, joins, some e, group, having⟩
      ⟨distinct, items, sources, joins, some e', group, having⟩).Found setting N c := by
  intro outer r h
  obtain ⟨front, s, hprojected, h⟩ := behindProjection h
  have hsome := Analyze.Succeeds.first h
  obtain ⟨p, hp, hm⟩ := ih _ s (Analyze.Succeeds.first hsome)
  exact ⟨p, hp, .criteria distinct group having hprojected hm⟩

theorem group (distinct : Bool) (items : List Item) (sources : List Source) (joins : List Join)
    (criteria : Option Expr) (xs ys : List Expr) (having : Option Expr)
    (ih : (Texts.expr e e').Found setting N c) :
    (Texts.branch ⟨distinct, items, sources, joins, criteria, xs ++ e :: ys, having⟩
      ⟨distinct, items, sources, joins, criteria, xs ++ e' :: ys, having⟩).Found setting N c := by
  intro outer r h
  obtain ⟨front, s, hprojected, h⟩ := behindProjection h
  obtain ⟨found, t, hcriteria, h⟩ := Analyze.Succeeds.bind h
  obtain ⟨is, u, hxs, p, hp, hm⟩ := all ih h.first
  exact ⟨p, hp, .group distinct ys having hprojected hcriteria hxs hm⟩

theorem having (distinct : Bool) (items : List Item) (sources : List Source) (joins : List Join)
    (criteria : Option Expr) (group : List Expr) (ih : (Texts.expr e e').Found setting N c) :
    (Texts.branch ⟨distinct, items, sources, joins, criteria, group, some e⟩
      ⟨distinct, items, sources, joins, criteria, group, some e'⟩).Found setting N c := by
  intro outer r h
  obtain ⟨front, s, hprojected, h⟩ := behindProjection h
  obtain ⟨found, t, hcriteria, h⟩ := Analyze.Succeeds.bind h
  obtain ⟨is, u, hgroup, h⟩ := h.bind
  have hsome := h.first
  obtain ⟨p, hp, hm⟩ := ih _ u (Analyze.Succeeds.first hsome)
  exact ⟨p, hp, .having distinct hprojected hcriteria hgroup hm⟩

end Found

/-- A row of an INSERT that is analysed. -/
theorem succeeds_row {setting : Setting} {targets : Level} {row : List Expr} {rest : List (List Expr)}
    {r : Run} (h : (inferRows setting targets (row :: rest)).Succeeds r) :
    (inferAll setting .empty row).Succeeds r := by
  unfold inferRows at h
  split at h
  · obtain ⟨a, s, h⟩ := h.first
    cases h
  · exact h.first

variable {setting : Setting} {N : Naming} {op : CompareOp} {left right : Expr}

/-- A walk over a text that succeeds comes to any comparison in it. -/
theorem Replaced.exists_mirrored {t : Texts}
    (h : Replaced N (.compare op left right) (.compare op.mirror right left) t) :
    t.Found setting N (.compare op left right) := by
  have hcompound : Expr.Compound (.compare op left right) := ⟨rfl, rfl, rfl⟩
  induction h with
  | here => exact Found.here op left right
  | paren _ ih =>
    intro scope r h
    obtain ⟨p, hp, hm⟩ := ih scope r h
    exact ⟨p, hp, .paren hm⟩
  | unary f _ ih => exact Found.unary f ih
  | left f right _ ih => exact Found.left f right ih
  | right f left _ ih => exact Found.right f left ih
  | between negated low high _ ih => exact Found.between negated low high ih
  | low negated value high _ ih => exact Found.low negated value high ih
  | high negated value low _ ih => exact Found.high negated value low ih
  | inList negated items _ ih => exact Found.inList negated items ih
  | listed negated value xs ys h ih => exact Found.listed negated value xs ys (h.compound hcompound) ih
  | inQuery negated q _ ih => exact Found.inQuery negated q ih
  | queried negated value _ ih => exact Found.queried negated value ih
  | argument function distinct xs ys h ih =>
    exact Found.argument function distinct xs ys (h.compound hcompound) ih
  | operand branches otherwise _ ih => exact Found.operand branches otherwise ih
  | condition operand xs result ys otherwise _ ih =>
    exact Found.condition operand xs result ys otherwise ih
  | result operand xs condition ys otherwise _ ih =>
    exact Found.result operand xs condition ys otherwise ih
  | otherwise operand branches _ ih => exact Found.otherwise operand branches ih
  | query f _ ih => exact Found.query f ih
  | commonTable xs name ys branches order limit _ ih =>
    exact Found.commonTable xs name ys branches order limit ih
  | union ctes xs ys order limit _ ih => exact Found.union ctes xs ys order limit ih
  | order ctes branches xs descending ys limit h ih =>
    exact Found.orderTerm ctes branches xs descending ys limit (h.compound hcompound) ih
  | limit ctes branches order offset _ ih => exact Found.limit ctes branches order offset ih
  | offset ctes branches order count _ ih => exact Found.offset ctes branches order count ih
  | source distinct items xs aliasName ys joins criteria group having _ ih =>
    exact Found.source distinct items xs aliasName ys joins criteria group having ih
  | joined distinct items sources xs kind aliasName on ys criteria group having _ ih =>
    exact Found.joined distinct items sources xs kind aliasName on ys criteria group having ih
  | on distinct items sources xs kind source ys criteria group having _ ih =>
    exact Found.on distinct items sources xs kind source ys criteria group having ih
  | item distinct xs aliasName ys sources joins criteria group having hblurs _ ih =>
    exact Found.item distinct xs aliasName ys sources joins criteria group having hblurs ih
  | criteria distinct items sources joins group having _ ih =>
    exact Found.criteria distinct items sources joins group having ih
  | group distinct items sources joins criteria xs ys having _ ih =>
    exact Found.group distinct items sources joins criteria xs ys having ih
  | having distinct items sources joins criteria group _ ih =>
    exact Found.having distinct items sources joins criteria group ih

/-- So does the walk over a statement. -/
theorem ReplacedStatement.exists_mirrored {st st' : Statement}
    (h : ReplacedStatement N (.compare op left right) (.compare op.mirror right left) st st')
    (hst : (inferStatement setting st).Succeeds .start) :
    ∃ p : Passing setting, p.comparison = .compare op left right ∧ MirroredStatement N p st st' := by
  cases h with
  | select h =>
    obtain ⟨p, hp, hm⟩ := h.exists_mirrored [] .start (Analyze.Succeeds.first hst)
    exact ⟨p, hp, .select hm⟩
  | value table columns before xs ys after h =>
    have hinsert : (inferInsert setting table columns _).Succeeds .start := hst.first
    obtain ⟨all, r, htable, h'⟩ := hinsert.bind
    obtain ⟨targets, htargets, hrows⟩ := h'.lift
    dsimp only at hrows
    rw [inferRows_append] at hrows
    obtain ⟨_, s, hbefore, hrow⟩ := hrows.bind
    obtain ⟨is, t, hxs, p, hp, hm⟩ := Found.all h.exists_mirrored (succeeds_row hrow)
    exact ⟨p, hp, .value ys after htable htargets hbefore hxs hm⟩
  | rows table columns h =>
    have hinsert : (inferInsert setting table columns _).Succeeds .start := hst.first
    obtain ⟨all, r, htable, h'⟩ := hinsert.bind
    obtain ⟨targets, htargets, hquery⟩ := h'.lift
    obtain ⟨p, hp, hm⟩ := h.exists_mirrored [] r hquery.first
    exact ⟨p, hp, .rows columns htable hm⟩
  | assigned table xs column ys criteria h =>
    have hupdate : (inferUpdate setting table _ criteria).Succeeds .start := hst.first
    obtain ⟨columns, r, htable, h'⟩ := hupdate.bind
    have hassignments := Analyze.Succeeds.first h'
    rw [inferAssignments_append] at hassignments
    obtain ⟨_, s, hxs, hassignment⟩ := hassignments.bind
    obtain ⟨target, t, htarget, hvalue⟩ := Analyze.Succeeds.bind hassignment
    obtain ⟨p, hp, hm⟩ := h.exists_mirrored _ t hvalue.first
    exact ⟨p, hp, .assigned ys criteria htable hxs htarget hm⟩
  | updated table assignments h =>
    have hupdate : (inferUpdate setting table assignments _).Succeeds .start := hst.first
    obtain ⟨columns, r, htable, h'⟩ := hupdate.bind
    obtain ⟨_, s, has, hrest⟩ := Analyze.Succeeds.bind h'
    obtain ⟨run, t, hget, hsome⟩ := Analyze.Succeeds.bind hrest
    cases hget
    have hcriteria := hsome.first
    obtain ⟨p, hp, hm⟩ := h.exists_mirrored _ s (Analyze.Succeeds.first hcriteria)
    exact ⟨p, hp, .updated htable has hm⟩
  | deleted table h =>
    have hdelete : (inferDelete setting table _).Succeeds .start := hst.first
    obtain ⟨columns, r, htable, h'⟩ := hdelete.bind
    have hcriteria := Analyze.Succeeds.first h'
    obtain ⟨p, hp, hm⟩ := h.exists_mirrored _ r (Analyze.Succeeds.first hcriteria)
    exact ⟨p, hp, .deleted htable hm⟩

end QuerySignature
