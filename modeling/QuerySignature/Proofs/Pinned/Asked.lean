import QuerySignature.Proofs.Pinned.Pins
import QuerySignature.Proofs.Placeholders.Reported

namespace QuerySignature

/-! # Pinned placeholders are not null

An operand of a comparison is asked not to be null, whatever it is compared with. So the place of a
placeholder that is compared with a column of a table says that it is not null; and what is written
behind a query changes that of no placeholder that has been asked.

- `asked_of_statement`: the placeholders of a walk that are compared with a column of a table are not
  null.
-/

/-- What asks that a placeholder is not null. -/
def Asks (pin : Option SqlType) (mark : Mark) : Prop := pin.isSome = true → mark.notNull = true

section

variable (schema : Schema)

mutual

theorem Expr.asks (ctes : List (String × Level)) (scope : Scope) (asked : Bool) (e : Expr) :
    List.Forall₂ Asks (e.pins schema ctes scope) (e.marks asked) := by
  match e with
  | .literal _ | .column _ | .star =>
    rw [Expr.pins, Expr.marks]
    exact .nil
  | .parameter name =>
    rw [Expr.pins, Expr.marks]
    exact .cons (fun h => nomatch h) .nil
  | .paren inner =>
    rw [Expr.pins, Expr.marks]
    exact inner.asks ctes scope asked
  | .compare _ left right =>
    -- a bare operand is asked, so that it may be pinned to any type
    have hoperand : ∀ (e : Expr) (pin : Option SqlType),
        List.Forall₂ Asks (e.pins schema ctes scope) (e.marks true) →
        List.Forall₂ Asks (if e.isParameter then [pin] else e.pins schema ctes scope)
          (e.marks true) := by
      intro e pin h
      split
      · next hparameter =>
        obtain ⟨entry, hmarks⟩ := Expr.marks_of_isParameter hparameter
        rw [hmarks]
        exact .cons (fun _ => rfl) .nil
      · exact h
    rw [Expr.pins, Expr.marks]
    exact List.rel_append (hoperand left _ (left.asks ctes scope true))
      (hoperand right _ (right.asks ctes scope true))
  | .arithmetic _ left right | .and left right | .or left right | .like _ left right =>
    rw [Expr.pins, Expr.marks]
    exact List.rel_append (left.asks ctes scope _) (right.asks ctes scope _)
  | .between _ value low high =>
    rw [Expr.pins, Expr.marks]
    exact List.rel_append (List.rel_append (value.asks ctes scope _) (low.asks ctes scope _))
      (high.asks ctes scope _)
  | .inList _ value items =>
    rw [Expr.pins, Expr.marks]
    refine List.rel_append (value.asks ctes scope _) ?_
    cases hsole : soleParameter? items with
    | some name =>
      obtain rfl := eq_of_soleParameter? hsole
      rw [pinsOfAll, pinsOfAll, Expr.pins]
      exact .cons (fun h => nomatch h) .nil
    | none => exact asks_all ctes scope _ items
  | .inQuery _ value query =>
    rw [Expr.pins, Expr.marks]
    exact List.rel_append (value.asks ctes scope _) (query.asks ctes scope.levels)
  | .isNull _ value | .not value =>
    rw [Expr.pins, Expr.marks]
    exact value.asks ctes scope _
  | .call _ _ arguments =>
    rw [Expr.pins, Expr.marks]
    exact asks_all ctes scope _ arguments
  | .case operand branches otherwise =>
    rw [Expr.pins, Expr.marks]
    exact List.rel_append (List.rel_append (asks_some ctes scope operand)
      (asks_branches ctes scope _ branches)) (asks_some ctes scope otherwise)
  | .scalar query | .hasRows query =>
    rw [Expr.pins, Expr.marks]
    exact query.asks ctes scope.levels

theorem asks_all (ctes : List (String × Level)) (scope : Scope) (asked : Nat → Bool)
    (es : List Expr) : List.Forall₂ Asks (pinsOfAll schema ctes scope es) (marksOfAll asked es) := by
  match es with
  | [] =>
    rw [pinsOfAll, marksOfAll]
    exact .nil
  | e :: rest =>
    rw [pinsOfAll, marksOfAll]
    split
    · next hstar =>
      obtain rfl : e = .star := by cases e <;> first | rfl | cases hstar
      rw [Expr.pins]
      exact asks_all ctes scope asked rest
    · exact List.rel_append (e.asks ctes scope _) (asks_all ctes scope _ rest)

theorem asks_some (ctes : List (String × Level)) (scope : Scope) (o : Option Expr) :
    List.Forall₂ Asks (pinsOfSome schema ctes scope o) (marksOfSome o) := by
  match o with
  | none =>
    rw [pinsOfSome, marksOfSome]
    exact .nil
  | some e =>
    rw [pinsOfSome, marksOfSome]
    exact e.asks ctes scope _

theorem asks_branches (ctes : List (String × Level)) (scope : Scope) (compared : Bool)
    (bs : List WhenThen) :
    List.Forall₂ Asks (pinsOfBranches schema ctes scope bs) (marksOfBranches compared bs) := by
  match bs with
  | [] =>
    rw [pinsOfBranches, marksOfBranches]
    exact .nil
  | ⟨condition, result⟩ :: rest =>
    rw [pinsOfBranches, marksOfBranches]
    exact List.rel_append (List.rel_append (condition.asks ctes scope _) (result.asks ctes scope _))
      (asks_branches ctes scope compared rest)

theorem Select.asks (ctes : List (String × Level)) (outer : List Level) (q : Select) :
    List.Forall₂ Asks (q.pins schema ctes outer) q.marks := by
  match q with
  | ⟨own, branches, order, limit⟩ =>
    rw [Select.pins, Select.marks]
    exact List.rel_append (List.rel_append (List.rel_append (asks_ctes ctes outer own)
      (asks_union _ outer branches)) (asks_order _ _ order)) (asks_limit _ _ limit)

theorem asks_ctes (ctes : List (String × Level)) (outer : List Level) (own : List Cte) :
    List.Forall₂ Asks (pinsOfCtes schema ctes outer own) (marksOfCtes own) := by
  match own with
  | [] =>
    rw [pinsOfCtes, marksOfCtes]
    exact .nil
  | ⟨name, query⟩ :: rest =>
    rw [pinsOfCtes, marksOfCtes]
    exact List.rel_append (query.asks ctes outer) (asks_ctes _ outer rest)

theorem asks_union (ctes : List (String × Level)) (outer : List Level) (bs : List Branch) :
    List.Forall₂ Asks (pinsOfUnion schema ctes outer bs) (marksOfUnion bs) := by
  match bs with
  | [] =>
    rw [pinsOfUnion, marksOfUnion]
    exact .nil
  | b :: rest =>
    rw [pinsOfUnion, marksOfUnion]
    exact List.rel_append (b.asks ctes outer) (asks_union ctes outer rest)

theorem Branch.asks (ctes : List (String × Level)) (outer : List Level) (b : Branch) :
    List.Forall₂ Asks (b.pins schema ctes outer) b.marks := by
  match b with
  | ⟨_, items, sources, joins, criteria, group, having⟩ =>
    rw [Branch.pins, Branch.marks]
    exact List.rel_append (List.rel_append (List.rel_append (List.rel_append (List.rel_append
      (asks_items ctes _ items) (asks_sources ctes sources)) (asks_joins ctes outer _ joins))
      (asks_some ctes _ criteria)) (asks_all ctes _ _ group)) (asks_some ctes _ having)

theorem asks_items (ctes : List (String × Level)) (scope : Scope) (items : List Item) :
    List.Forall₂ Asks (pinsOfItems schema ctes scope items) (marksOfItems items) := by
  match items with
  | [] =>
    rw [pinsOfItems, marksOfItems]
    exact .nil
  | item :: rest =>
    rw [pinsOfItems, marksOfItems]
    exact List.rel_append (item.asks ctes scope) (asks_items ctes scope rest)

theorem Item.asks (ctes : List (String × Level)) (scope : Scope) (item : Item) :
    List.Forall₂ Asks (item.pins schema ctes scope) item.marks := by
  match item with
  | .star | .tableStar _ =>
    rw [Item.pins, Item.marks]
    exact .nil
  | .expr value _ =>
    rw [Item.pins, Item.marks]
    exact value.asks ctes scope _

theorem asks_sources (ctes : List (String × Level)) (xs : List Source) :
    List.Forall₂ Asks (pinsOfSources schema ctes xs) (marksOfSources xs) := by
  match xs with
  | [] =>
    rw [pinsOfSources, marksOfSources]
    exact .nil
  | x :: rest =>
    rw [pinsOfSources, marksOfSources]
    exact List.rel_append (x.asks ctes) (asks_sources ctes rest)

theorem Source.asks (ctes : List (String × Level)) (x : Source) :
    List.Forall₂ Asks (x.pins schema ctes) x.marks := by
  match x with
  | .table _ _ =>
    rw [Source.pins, Source.marks]
    exact .nil
  | .derived query _ =>
    rw [Source.pins, Source.marks]
    exact query.asks ctes []

theorem asks_joins (ctes : List (String × Level)) (outer : List Level) (done : Level)
    (js : List Join) :
    List.Forall₂ Asks (pinsOfJoins schema ctes outer done js) (marksOfJoins js) := by
  match js with
  | [] =>
    rw [pinsOfJoins, marksOfJoins]
    exact .nil
  | ⟨_, source, condition⟩ :: rest =>
    rw [pinsOfJoins, marksOfJoins]
    exact List.rel_append (List.rel_append (source.asks ctes) (condition.asks ctes _))
      (asks_joins ctes outer _ rest)

theorem JoinCondition.asks (ctes : List (String × Level)) (scope : Scope) (c : JoinCondition) :
    List.Forall₂ Asks (c.pins schema ctes scope) c.marks := by
  match c with
  | .predicate e =>
    rw [JoinCondition.pins, JoinCondition.marks]
    exact e.asks ctes scope _
  | .shared _ | .unconditional =>
    rw [JoinCondition.pins, JoinCondition.marks]
    exact .nil

theorem asks_order (ctes : List (String × Level)) (scope : Scope) (terms : List OrderTerm) :
    List.Forall₂ Asks (pinsOfOrder schema ctes scope terms) (marksOfOrder terms) := by
  match terms with
  | [] =>
    rw [pinsOfOrder, marksOfOrder]
    exact .nil
  | ⟨value, _⟩ :: rest =>
    rw [pinsOfOrder, marksOfOrder]
    refine List.rel_append ?_ (asks_order ctes scope rest)
    split
    · exact .nil
    · exact value.asks ctes scope _

theorem asks_limit (ctes : List (String × Level)) (scope : Scope) (l : Option Limit) :
    List.Forall₂ Asks (pinsOfLimit schema ctes scope l) (marksOfLimit l) := by
  match l with
  | none =>
    rw [pinsOfLimit, marksOfLimit]
    exact .nil
  | some ⟨count, none⟩ =>
    rw [pinsOfLimit, marksOfLimit, pinsOfSome, marksOfOffset]
    exact List.rel_append (count.asks ctes scope _) .nil
  | some ⟨count, some offset⟩ =>
    rw [pinsOfLimit, marksOfLimit, pinsOfSome, marksOfOffset]
    exact List.rel_append (count.asks ctes scope _) (offset.asks ctes scope _)

end

theorem asks_flatMap {α : Type} {f : α → List (Option SqlType)} {g : α → List Mark}
    (h : ∀ x, List.Forall₂ Asks (f x) (g x)) (xs : List α) :
    List.Forall₂ Asks (xs.flatMap f) (xs.flatMap g) := by
  have hsame : List.Forall₂ Eq xs xs := List.forall₂_refl xs
  refine List.rel_flatMap hsame ?_
  rintro x _ rfl
  exact h x

/-- The place of a pinned placeholder says that it is not null. -/
theorem Statement.asks (s : Statement) :
    List.Forall₂ Asks (s.pins schema) (s.marks schema) := by
  cases s with
  | select q => exact q.asks schema [] []
  | insert table columns rows =>
    cases rows with
    | values rows => exact asks_flatMap (fun row => asks_all schema [] .empty _ row) rows
    | query q => exact q.asks schema [] []
  | update table assignments criteria =>
    exact List.rel_append (asks_flatMap (fun a => a.value.asks schema [] _ _) assignments)
      (asks_some schema [] _ criteria)
  | delete table criteria => exact asks_some schema [] _ criteria

end

/-! ## Queries that are written -/

/-- A placeholder that is not null by one mark is not null by another. -/
def Mark.Keeps (mark mark' : Mark) : Prop := mark.notNull = true → mark'.notNull = true

/-- A placeholder that is not asked for anything becomes as nullable as its column; the others stay. -/
theorem keeps_setNotNull {marks : List Mark} {r s : Run} {done : Unit} {index : Nat} {notNull : Bool}
    (hunasked : ∃ mark, marks[index]? = some mark ∧ mark.notNull = false)
    (h : List.Forall₂ Mark.Keeps marks r.marks)
    (hrun : (setNotNull index notNull).outcome r = .ok (done, s)) :
    List.Forall₂ Mark.Keeps marks s.marks := by
  rw [Analyze.outcome_of_runFrom (runFrom_setNotNull index notNull r)] at hrun
  cases hrun
  obtain ⟨mark, hmark, hnull⟩ := hunasked
  unfold Run.marks at h ⊢
  generalize r.placeholders = ps at h
  induction marks generalizing ps index with
  | nil => cases hmark
  | cons first rest ih =>
    cases ps with
    | nil => cases h
    | cons p ps =>
      obtain _ | ⟨hfirst, hrest⟩ := h
      cases index with
      | zero =>
        obtain rfl : first = mark := Option.some.inj hmark
        exact .cons (fun hasked => absurd (hnull.symm.trans hasked) Bool.false_ne_true) hrest
      | succ index => exact .cons hfirst (ih hmark ps hrest)

/-- Writing the columns of a query changes no placeholder that is asked. -/
theorem keeps_bindTargets {marks : List Mark} {targets : Level} {values : List Written}
    (hvalues : ∀ v ∈ values, ∀ i, v.placeholder = some i →
      ∃ mark, marks[i]? = some mark ∧ mark.notNull = false) {r s : Run} {vars : List TypeVar}
    (h : List.Forall₂ Mark.Keeps marks r.marks)
    (hrun : (bindTargets targets values).outcome r = .ok (vars, s)) :
    List.Forall₂ Mark.Keeps marks s.marks := by
  induction targets generalizing values r vars with
  | nil =>
    cases hrun
    exact h
  | cons target targets ih =>
    cases values with
    | nil =>
      cases hrun
      exact h
    | cons value values =>
      unfold bindTargets at hrun
      simp only [Analyze.outcome_bind] at hrun
      rcases bind_eq_ok.1 hrun with ⟨⟨var, r₁⟩, hreference, hrun⟩
      rcases bind_eq_ok.1 hrun with ⟨⟨_, r₂⟩, hmatch, hrun⟩
      rcases bind_eq_ok.1 hrun with ⟨⟨others, r₃⟩, hothers, hrun⟩
      cases hrun
      have h₁ : List.Forall₂ Mark.Keeps marks r₁.marks := by
        unfold Run.marks
        rw [Quiet.kept.reference target r var r₁ hreference]
        exact h
      refine ih (fun v hv => hvalues v (List.mem_cons_of_mem _ hv)) ?_ hothers
      unfold matchNull at hmatch
      cases hplaceholder : value.placeholder with
      | none =>
        rw [hplaceholder] at hmatch
        cases hmatch
        exact h₁
      | some index =>
        rw [hplaceholder] at hmatch
        exact keeps_setNotNull (hvalues value List.mem_cons_self index hplaceholder) h₁ hmatch

/-- The walk over an INSERT of a query leaves the asked placeholders of the query asked. -/
theorem keeps_of_insertedQuery {setting : Setting} {table : String} {columns : List String}
    {q : Select} {done : Unit} {run : Run}
    (h : (inferInsert setting table columns (.query q)).outcome .start = .ok (done, run)) :
    List.Forall₂ Mark.Keeps q.marks run.marks := by
  obtain ⟨all, read, targets, htable, -, -, hrows⟩ := targets_of_insert h
  obtain ⟨result, t, hquery, -, hbind⟩ := hrows q rfl
  obtain ⟨hmarks, hunasked⟩ :=
    Leads.query setting [] q [] _ _ _ (declared_of_start htable).1 hquery
  rw [List.nil_append] at hmarks hunasked
  unfold bindRow at hbind
  rw [Analyze.outcome_bind] at hbind
  obtain ⟨⟨vars, behind⟩, htargets, hbind⟩ := bind_eq_ok.1 hbind
  cases hbind
  have hsame : List.Forall₂ Mark.Keeps q.marks t.marks := by
    rw [hmarks]
    exact List.forall₂_same.2 fun _ _ => id
  have hkeeps : List.Forall₂ Mark.Keeps q.marks behind.marks := by
    refine keeps_bindTargets (fun v hv i hi => ?_) hsame htargets
    obtain ⟨c, hc, rfl⟩ := List.mem_map.1 hv
    exact hunasked c hc i hi
  exact hkeeps

/-! ## Statements -/

/-- The placeholders of a walk that are compared with a column of a table are not null. -/
theorem asked_of_statement {setting : Setting} {s : Statement} {analysis : Analysis} {run : Run}
    (h : (inferStatement setting s).outcome .start = .ok (analysis, run)) :
    List.Forall₂ Asks (s.pins setting.schema) run.marks := by
  have hasks := s.asks setting.schema
  cases hwrites : s.writesQuery with
  | false =>
    rw [marks_of_statement hwrites h]
    exact hasks
  | true =>
    obtain ⟨table, columns, q, rfl⟩ : ∃ table columns q, s = .insert table columns (.query q) := by
      cases s with
      | insert table columns rows =>
        cases rows with
        | values rows => cases hwrites
        | query q => exact ⟨table, columns, q, rfl⟩
      | _ => cases hwrites
    obtain ⟨hinsert, -⟩ := walk_of_insert h
    have hquery : List.Forall₂ Asks (Statement.pins setting.schema (.insert table columns (.query q)))
        q.marks := hasks
    exact rel_trans (fun pin mark mark' hpin hkeeps hsome => hkeeps (hpin hsome)) hquery
      (keeps_of_insertedQuery hinsert)

end QuerySignature
