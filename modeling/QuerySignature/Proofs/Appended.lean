import QuerySignature.Proofs.Behind.Items
import QuerySignature.Proofs.Pinned.Walk
import QuerySignature.Proofs.Placeholders.Nullability
import QuerySignature.Proofs.Sources.Names

namespace QuerySignature

/-! # A walk only appends

Placeholders are counted while a walk goes on, and the counts are kept: with an expression that is a
placeholder, and with an output column that is one. A branch cuts off those of its FROM clause and puts
them back behind those of its items, while counts of the items are kept. No count goes wrong by that,
because a walk never touches what was there before it: it adds constraints and placeholders behind
those of the run in which it starts, and what it adds speaks of nothing but variables that it makes and
columns that it sees.

- `Run.Appends`: one run goes on from another.
- `Run.Holds`: at a place that has been kept stands the variable that it has been kept for.
- `Holding.branch`, `Holding.query`: the columns of a branch, or of a query, are held.
- `walk_appends`: expressions and queries only append, and what they keep is held.
-/

/-- At the place that is kept for a variable, if there is one, stands a placeholder with that
variable. -/
def Run.Holds (r : Run) (place : Option Nat) (var : TypeVar) : Prop :=
  ∀ i, place = some i → ∃ p, r.placeholders[i]? = some p ∧ p.var = var

/-- A number of a variable that can be spoken of before a walk starts: that of a column of the levels
that it sees, or of a common table. -/
def Run.Sees (r : Run) (levels : List Level) (id : Nat) : Prop :=
  (∃ level ∈ levels, ∃ c ∈ level, c.var.id = id) ∨
    ∃ name columns, r.cte? name = some columns ∧ ∃ c ∈ columns, c.var.id = id

/-- A run goes on from another one: constraints and placeholders stand behind those of that one. They
speak of variables that have been made in between, and the constraints also of what can be seen. -/
structure Run.Appends (levels : List Level) (r s : Run) : Prop where
  constraints : ∃ added, s.constraints = r.constraints ++ added ∧
    ∀ v ∈ variablesOf added, r.Sees levels v.id ∨ r.Makes s v.id
  placeholders : ∃ added, s.placeholders = r.placeholders ++ added ∧ ∀ p ∈ added, r.Makes s p.var.id

/-! ## What is there before a walk -/

section

variable {V : Nat → Prop}

theorem Level.shown_self {l : Level} (h : ∀ c ∈ l, V c.var.id) : Level.Shown V l l :=
  List.forall₂_same.2 fun c hc => ⟨rfl, rfl, rfl, rfl, fun _ => h c hc⟩

theorem LevelsShown.self {levels : List Level} (h : ∀ l ∈ levels, ∀ c ∈ l, V c.var.id) :
    LevelsShown V levels levels :=
  List.forall₂_same.2 fun l hl => Level.shown_self (h l hl)

theorem Scope.shown_self {scope : Scope} (h : ∀ l ∈ scope.levels, ∀ c ∈ l, V c.var.id) :
    scope.Shown V scope := by
  obtain ⟨hown, houter⟩ := List.forall_mem_cons.1 h
  exact ⟨Level.shown_self hown, LevelsShown.self houter⟩

theorem TablesShown.self {r : Run}
    (h : ∀ name columns, r.cte? name = some columns → ∀ c ∈ columns, V c.var.id) :
    TablesShown V r.ctes r.ctes := by
  intro name
  have hcolumns : ∀ columns, tableNamed? r.ctes name = some columns → ∀ c ∈ columns, V c.var.id :=
    h name
  generalize tableNamed? r.ctes name = found at hcolumns
  cases found with
  | none => exact .none
  | some columns => exact .some (Level.shown_self (hcolumns columns rfl))

end

/-! ## Placeholders and their parts -/

theorem Placeholder.eq_of_var_of_mark {p q : Placeholder} (hvar : p.var = q.var)
    (hmark : p.mark = q.mark) : p = q := by
  cases p
  cases q
  cases hvar
  cases hmark
  rfl

/-- Placeholders are kept if their variables and their marks are. -/
theorem placeholders_prefix {r s : Run} (hvars : r.vars <+: s.vars) (hmarks : r.marks <+: s.marks) :
    r.placeholders <+: s.placeholders := by
  have hinjective : Function.Injective fun p : Placeholder => (p.var, p.mark) := fun p q h =>
    Placeholder.eq_of_var_of_mark (Prod.ext_iff.1 h).1 (Prod.ext_iff.1 h).2
  rw [Run.vars, Run.vars, List.prefix_iff_eq_take, List.length_map, ← List.map_take] at hvars
  rw [Run.marks, Run.marks, List.prefix_iff_eq_take, List.length_map, ← List.map_take] at hmarks
  rw [List.prefix_iff_eq_take]
  refine hinjective.list_map ?_
  rw [← List.zip_map', ← List.zip_map', hvars, hmarks]

/-- What a walk collects and marks, it appends. -/
theorem Run.Appends.of_collects {levels : List Level} {W : Nat → Prop} {r s : Run}
    {pins : List (Option SqlType)} (hcollects : Collects (r.Sees levels) W r s pins)
    (hmarks : r.marks <+: s.marks) : r.Appends levels s := by
  obtain ⟨collected, hreaches, -, hvars⟩ := hcollects
  obtain ⟨added, hadded, hwithin, -⟩ := hreaches.constraints
  obtain ⟨later, hlater⟩ := placeholders_prefix ⟨_, hvars.symm⟩ hmarks
  have hmade : later.map (·.var) = collected.map Prod.fst := by
    unfold Run.vars at hvars
    rw [← hlater, List.map_append] at hvars
    exact List.append_cancel_left hvars
  refine ⟨⟨added, hadded, hwithin⟩, later, hlater.symm, fun p hp => ?_⟩
  have hvar : p.var ∈ collected.map Prod.fst := hmade ▸ List.mem_map_of_mem hp
  obtain ⟨q, hq, heq⟩ := List.mem_map.1 hvar
  exact heq ▸ hreaches.own q hq

/-! ## Places that are kept -/

theorem Run.holds_iff {r : Run} {place : Option Nat} {var : TypeVar} :
    r.Holds place var ↔ ∀ i, place = some i → r.vars[i]? = some var := by
  simp only [Run.Holds, Run.vars, List.getElem?_map, Option.map_eq_some_iff]

theorem Run.Holds.none (r : Run) (var : TypeVar) : r.Holds none var :=
  fun _ hi => nomatch hi

/-- What is appended leaves every place as it was. -/
theorem Run.Holds.mono {r s : Run} {place : Option Nat} {var : TypeVar} (h : r.Holds place var)
    (hgrows : r.vars <+: s.vars) : s.Holds place var := by
  rw [Run.holds_iff] at h ⊢
  obtain ⟨later, hlater⟩ := hgrows
  intro i hi
  have hvar := h i hi
  rw [← hlater, List.getElem?_append_left (List.getElem?_eq_some_iff.1 hvar).1, hvar]

/-- Whatever else a step does, it collects placeholders behind those that there were. -/
def Growing {α : Type} (step : Analyze α) : Prop :=
  ∀ r a s, step.outcome r = .ok (a, s) → r.vars <+: s.vars

namespace Growing

variable (setting : Setting)

/-- A step that may speak of anything. -/
theorem of_local {α : Type} {step : Analyze α}
    {pins : List (String × Level) → List (Option SqlType)}
    {post : List (String × Level) → (Nat → Prop) → α → Prop}
    (h : ∀ known, Local (fun _ => True) known step (pins known) (post known)) : Growing step := by
  intro r a s hrun
  obtain ⟨_, ⟨collected, -, -, hvars⟩, -⟩ :=
    h r.ctes r a s (.self fun _ _ _ _ _ => trivial) hrun
  exact ⟨_, hvars.symm⟩

theorem shown (scope : Scope) : scope.Shown (fun _ => True) scope :=
  Scope.shown_self fun _ _ _ _ => trivial

theorem outer (levels : List Level) : LevelsShown (fun _ => True) levels levels :=
  .self fun _ _ _ _ => trivial

theorem all (scope : Scope) (es : List Expr) : Growing (inferAll setting scope es) :=
  of_local fun _ => .all setting es (shown scope)

theorem option (scope : Scope) (o : Option Expr) : Growing (inferSome setting scope o) :=
  of_local fun _ => .option setting o (shown scope)

theorem items (scope : Scope) (is : List Item) : Growing (inferItems setting scope is) :=
  of_local fun _ => .items setting is (shown scope)

theorem union (levels : List Level) (bs : List Branch) : Growing (inferUnion setting levels bs) :=
  of_local fun _ => .union setting bs (outer levels)

theorem orderBy (scope : Scope) (terms : List OrderTerm) :
    Growing (inferOrder setting scope terms) :=
  of_local fun _ => .orderBy setting terms (shown scope)

theorem limitTo (scope : Scope) (l : Option Limit) : Growing (inferLimit setting scope l) :=
  of_local fun _ => .limitTo setting l (shown scope)

end Growing

namespace Holding

variable {setting : Setting} {r s : Run}

/-- An expression that is a placeholder has the variable of the placeholder at its place. -/
theorem expr {scope : Scope} : ∀ {e : Expr} {r s : Run} {a : Inferred},
    (inferExpr setting scope e).outcome r = .ok (a, s) → s.Holds a.placeholder a.var
  | .parameter name, r, s, a, h => by
    unfold inferExpr at h
    rw [Analyze.outcome_of_runFrom (runFrom_addPlaceholder name false r)] at h
    cases h
    intro i hi
    cases hi
    exact ⟨_, List.getElem?_concat_length, rfl⟩
  | .paren inner, r, s, a, h => by
    unfold inferExpr at h
    exact expr (e := inner) h
  | .literal _, r, s, a, h | .column _, r, s, a, h | .arithmetic .., r, s, a, h
  | .compare .., r, s, a, h | .between .., r, s, a, h | .inList .., r, s, a, h
  | .inQuery .., r, s, a, h | .like .., r, s, a, h | .isNull .., r, s, a, h | .and .., r, s, a, h
  | .or .., r, s, a, h | .not _, r, s, a, h | .call .., r, s, a, h | .case .., r, s, a, h
  | .scalar _, r, s, a, h | .hasRows _, r, s, a, h | .star, r, s, a, h => by
    -- every other form is no placeholder itself
    have hnone : a.placeholder = none := unplaced_of_not_isParameter rfl r a s h
    rw [hnone]
    exact .none s a.var

/-- The columns of a star are no placeholders. -/
theorem star {level : Level} {cs : List OutputColumn}
    (h : (inferStar level).outcome r = .ok (cs, s)) : ∀ c ∈ cs, s.Holds c.placeholder c.var := by
  intro c hc i hi
  obtain ⟨mark, hmark, -⟩ := unasked_of_star h [] c hc i hi
  cases hmark

theorem item {scope : Scope} {i : Item} {cs : List OutputColumn}
    (h : (inferItem setting scope i).outcome r = .ok (cs, s)) :
    ∀ c ∈ cs, s.Holds c.placeholder c.var := by
  cases i with
  | star => exact star h
  | tableStar table => exact star (star_of_tableStar h)
  | expr value aliasName =>
    obtain ⟨a, hvalue, rfl⟩ := value_of_item h
    exact List.forall_mem_singleton.2 (expr hvalue)

theorem items {scope : Scope} : ∀ {is : List Item} {r s : Run} {cs : List OutputColumn},
    (inferItems setting scope is).outcome r = .ok (cs, s) → ∀ c ∈ cs, s.Holds c.placeholder c.var
  | [], r, s, cs, h => by
    cases h
    exact fun c hc => absurd hc List.not_mem_nil
  | i :: rest, r, s, cs, h => by
    obtain ⟨first, r₁, others, hfirst, hothers, rfl⟩ := items_of_cons h
    intro c hc
    rcases List.mem_append.1 hc with hc | hc
    · exact (item hfirst c hc).mono (Growing.items setting scope rest _ _ _ hothers)
    · exact items hothers c hc

/-- The placeholders of the FROM clause are put back behind those of the items, and everything else
comes behind them. -/
theorem branch {outer : List Level} {b : Branch} {result : BranchResult}
    (h : (inferBranch setting outer b).outcome r = .ok (result, s)) :
    ∀ c ∈ result.columns, s.Holds c.placeholder c.var := by
  obtain ⟨front, r₄, _, r₅, _, hfront, hgroup, hhaving, rfl⟩ := clauses_of_branch h
  obtain ⟨listed, r₁, r₂, r₃, _, -, -, hitems, hcriteria⟩ := clauses_of_front hfront
  have hback : r₃.vars <+: Run.vars { r₃ with
      placeholders := r₃.placeholders ++ r₂.placeholders.drop r.placeholders.length } := by
    unfold Run.vars
    rw [List.map_append]
    exact List.prefix_append _ _
  have hgrows : r₃.vars <+: s.vars :=
    (hback.trans (Growing.option setting _ _ _ _ _ hcriteria)).trans
      ((Growing.all setting _ _ _ _ _ hgroup).trans (Growing.option setting _ _ _ _ _ hhaving))
  -- what is proven of a column leaves its placeholder and its variable as they are
  intro c hc
  obtain ⟨d, hd, rfl⟩ := List.mem_map.1 hc
  exact (items hitems d hd).mono hgrows

/-- The branches of a query all hold their columns in the end. -/
theorem union {outer : List Level} : ∀ {bs : List Branch} {r s : Run} {results : List BranchResult},
    (inferUnion setting outer bs).outcome r = .ok (results, s) →
      ∀ b ∈ results, ∀ c ∈ b.columns, s.Holds c.placeholder c.var
  | [], r, s, results, h => by
    cases h
    exact fun b hb => absurd hb List.not_mem_nil
  | b :: rest, r, s, results, h => by
    obtain ⟨first, r₁, others, hfirst, hothers, rfl⟩ := branches_of_union h
    intro result hresult c hc
    rcases List.mem_cons.1 hresult with rfl | hresult
    · exact (branch hfirst c hc).mono (Growing.union setting outer rest _ _ _ hothers)
    · exact union hothers result hresult c hc

/-- The columns of a query are placeholders as those of its first branch are. -/
theorem query {outer : List Level} {q : Select} {result : QueryResult}
    (h : (inferQuery setting outer q).outcome r = .ok (result, s)) :
    ∀ c ∈ result.columns, s.Holds c.placeholder c.var := by
  obtain ⟨r₁, results, r₂, head, r₃, r₄, -, hbranches, hhead, horder, hlimit, rfl, rfl⟩ :=
    clauses_of_query h
  obtain ⟨others, rfl, hunion⟩ := exists_of_unionOf hhead
  -- a union keeps the places and the variables of its first branch
  have hkept : head.2.map (fun c => (c.placeholder, c.var)) =
      head.1.columns.map fun c => (c.placeholder, c.var) :=
    map_unionColumns (fun _ _ => rfl) hunion
  have hgrows : r₂.vars <+: r₄.vars :=
    (Growing.orderBy setting _ _ _ _ _ horder).trans (Growing.limitTo setting _ _ _ _ _ hlimit)
  intro c hc
  have hmem : (c.placeholder, c.var) ∈ head.1.columns.map fun c => (c.placeholder, c.var) :=
    hkept ▸ List.mem_map_of_mem hc
  obtain ⟨d, hd, heq⟩ := List.mem_map.1 hmem
  obtain ⟨hplace, hvar⟩ := Prod.mk.inj heq
  rw [← hplace, ← hvar]
  exact (union hbranches head.1 List.mem_cons_self d hd).mono hgrows

end Holding

/-! ## The walk -/

section

variable {setting : Setting} {r s : Run}

theorem Run.sees_levels (r : Run) (levels : List Level) :
    ∀ l ∈ levels, ∀ c ∈ l, r.Sees levels c.var.id :=
  fun l hl c hc => .inl ⟨l, hl, c, hc, rfl⟩

theorem Run.sees_tables (r : Run) (levels : List Level) :
    TablesShown (r.Sees levels) r.ctes r.ctes :=
  .self fun name columns hfound c hc => .inr ⟨name, columns, hfound, c, hc, rfl⟩

theorem Run.Appends.expr {scope : Scope} {e : Expr} {a : Inferred}
    (h : (inferExpr setting scope e).outcome r = .ok (a, s)) : r.Appends scope.levels s := by
  have hscope : scope.Shown (r.Sees scope.levels) scope := Scope.shown_self (r.sees_levels _)
  obtain ⟨W, hcollects, -⟩ := Local.expr setting e hscope r a s (r.sees_tables _) h
  exact .of_collects hcollects ⟨_, (Leads.expr setting scope e _ r a s rfl h).1.symm⟩

theorem Run.Appends.query {outer : List Level} {q : Select} {result : QueryResult}
    (h : (inferQuery setting outer q).outcome r = .ok (result, s)) : r.Appends outer s := by
  have hlevels : LevelsShown (r.Sees outer) outer outer := .self (r.sees_levels outer)
  obtain ⟨W, hcollects, -⟩ := Local.query setting q hlevels r result s (r.sees_tables outer) h
  exact .of_collects hcollects ⟨_, (Leads.query setting outer q _ r result s rfl h).1.symm⟩

end

/-- An expression, or a query, leaves the constraints and the placeholders that there were as they are,
and appends to them. If the expression is a placeholder, its own variable stands at the place that is
kept with it; so it does for every column of the query that is one, when the query is at its end. -/
theorem walk_appends (setting : Setting) (r s : Run) :
    (∀ scope e a, (inferExpr setting scope e).outcome r = .ok (a, s) →
      r.Appends scope.levels s ∧ s.Holds a.placeholder a.var) ∧
    (∀ outer q result, (inferQuery setting outer q).outcome r = .ok (result, s) →
      r.Appends outer s ∧ ∀ c ∈ result.columns, s.Holds c.placeholder c.var) := by
  refine ⟨fun scope e a h => ⟨.expr h, Holding.expr h⟩, fun outer q result h => ⟨.query h, ?_⟩⟩
  exact Holding.query h

/-- `SELECT ? AS a FROM (SELECT ? AS b) AS d WHERE d.b < ?`. -/
def oneOverAnother : Select :=
  ⟨[], [⟨false, [.expr (.parameter none) (some "a")],
    [.derived ⟨[], [⟨false, [.expr (.parameter none) (some "b")], [], [], none, [], none⟩], [],
      none⟩ "d"], [], some (.compare .lt (.column ⟨some "d", "b"⟩) (.parameter none)), [], none⟩],
    [], none⟩

/-- The item is analysed when the placeholder of the FROM clause is put aside; that one, and the one
of the WHERE, come behind it. The placeholder that there was keeps its place. -/
theorem walk_appends_oneOverAnother :
    ∃ result s, (inferQuery ⟨.ofRecords [], .mysql⟩ [] oneOverAnother).outcome
        ((addPlaceholder (some "p") false).runFrom .start).2 = .ok (result, s) ∧
      result.columns.map (·.placeholder) = [some 1] ∧
      s.placeholders.map (·.name) = [some "p", none, none, none] ∧
      ((addPlaceholder (some "p") false).runFrom .start).2.Appends [] s ∧
      ∀ c ∈ result.columns, s.Holds c.placeholder c.var := by
  have hok : ((inferQuery ⟨.ofRecords [], .mysql⟩ [] oneOverAnother).outcome
      ((addPlaceholder (some "p") false).runFrom .start).2).isOk = true := by decide +kernel
  have hread : ((inferQuery ⟨.ofRecords [], .mysql⟩ [] oneOverAnother).outcome
      ((addPlaceholder (some "p") false).runFrom .start).2).toOption.map (fun found =>
        (found.1.columns.map (·.placeholder), found.2.placeholders.map (·.name))) =
      some ([some 1], [some "p", none, none, none]) := by decide +kernel
  obtain ⟨⟨result, s⟩, hrun⟩ := exists_of_isOk hok
  rw [hrun] at hread
  obtain ⟨hplaces, hnames⟩ := Prod.mk.inj (Option.some.inj hread)
  obtain ⟨happends, hholds⟩ := (walk_appends _ _ _).2 _ _ _ hrun
  exact ⟨result, s, hrun, hplaces, hnames, happends, hholds⟩

end QuerySignature
