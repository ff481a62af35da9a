import QuerySignature.Proofs.Pinned.Local
import QuerySignature.Proofs.Sources.Declared
import QuerySignature.Proofs.Sources.Link

namespace QuerySignature

/-! # What forms of expressions speak of

A form speaks of its operands and of the variables that it makes, and hands on one of these. Only a
comparison hands on less than it could: neither of its operands.

- `Local.reference`: a column of a table is not spoken of at all, only its type is read.
- `Local.pinLeft`, `Local.pinRight`: a comparison of a placeholder with a column of a table pins the
  placeholder.
- `Local.call`: a call of a function.
-/

/-- What is found out about an expression whose variable has one of some numbers. -/
abbrev Inferred.Live (V : Nat → Prop) (a : Inferred) : Prop := V a.var.id

/-- What a step hands on is not looked at. -/
abbrev Unread {α : Type} : (Nat → Prop) → α → Prop := fun _ _ => True

namespace Local

theorem unread {α : Type} {V : Nat → Prop} {known : List (String × Level)} {step : Analyze α}
    (h : Still V step) : Local V known step [] Unread :=
  (still h).mono fun _ _ _ _ => trivial

variable {α β : Type} {V : Nat → Prop} {known : List (String × Level)} {step : Analyze α}
  {next : α → Analyze β} {pins : List (Option SqlType)} {Q : (Nat → Prop) → β → Prop}

/-! ## Steps -/

/-- One more variable is made. -/
theorem reaches_fresh (r : Run) (ps : List Placeholder) {v : TypeVar} (hv : v.id = r.issued + 1) :
    Reaches V (fun id => V id ∨ id = r.issued + 1) r
      { r with issued := r.issued + 1, placeholders := ps } [(v, none)] := by
  have hmade : ∀ id, id = r.issued + 1 →
      r.Makes { r with issued := r.issued + 1, placeholders := ps } id := by
    rintro id rfl
    exact ⟨Nat.lt_succ_self _, Nat.le_refl _⟩
  refine ⟨Nat.le_succ _, fun _ => .inl, fun id hid => hid.imp_right (hmade id), ?_, [], ?_, ?_, ?_⟩
  · intro p hp
    rw [List.mem_singleton.1 hp]
    exact hmade _ hv
  · exact (List.append_nil _).symm
  · exact fun u hu => absurd hu List.not_mem_nil
  · intro _ w type hp
    cases List.mem_singleton.1 hp

theorem freshPlain (label : String) (info : TypeInfo) :
    Local V known (QuerySignature.fresh label info) []
      fun W v => W v.id ∧ v.info = info ∧ v.projected = false := by
  intro r _ _ _ hrun
  rw [Analyze.outcome_of_runFrom (runFrom_fresh label info r)] at hrun
  cases hrun
  let v : TypeVar := ⟨r.issued + 1, label, info, false, false⟩
  have hv : v.id = r.issued + 1 := rfl
  have hreaches : Reaches V _ r _ [(v, none)] := reaches_fresh r r.placeholders hv
  refine ⟨_, ⟨[], hreaches.congr fun _ hp => absurd hp List.not_mem_nil, rfl, ?_⟩, rfl, ?_⟩
  · exact (List.append_nil _).symm
  · exact ⟨.inr rfl, rfl, rfl⟩

theorem fresh (label : String) (info : TypeInfo) :
    Local V known (QuerySignature.fresh label info) [] fun W v => W v.id :=
  (freshPlain label info).mono fun _ _ _ hv => hv.1

theorem freshExact (label : String) (type : SqlType) :
    Local V known (QuerySignature.freshExact label type) [] fun W v => W v.id :=
  fresh label (.exact type)

/-- A form that makes one variable and hands it on. -/
theorem ofFresh {label : String} {info : TypeInfo} {make : TypeVar → Inferred}
    (hmake : ∀ v, (make v).var = v) :
    Local V known (QuerySignature.fresh label info >>= fun v => Pure.pure (make v)) []
      Inferred.Live := by
  refine (fresh label info).behind fun W v _ hv => pure ?_
  show W (make v).var.id
  rw [hmake]
  exact hv

theorem addPlaceholder (name : Option String) (list : Bool) :
    Local V known (QuerySignature.addPlaceholder name list) [none] Inferred.Live := by
  intro r _ _ _ hrun
  rw [Analyze.outcome_of_runFrom (runFrom_addPlaceholder name list r)] at hrun
  cases hrun
  let v : TypeVar := ⟨r.issued + 1, parameterText name, .unknown, list, false⟩
  have hv : v.id = r.issued + 1 := rfl
  refine ⟨_, ⟨_, reaches_fresh r _ hv, rfl, ?_⟩, rfl, .inr rfl⟩
  simp [Run.vars, v]

theorem resolve {scope₀ scope : Scope} (hscope : scope₀.Shown V scope) (c : ColumnRef) :
    Local V known (QuerySignature.resolve scope c) []
      fun W column => ∃ column₀, SourceColumn.Shown W column₀ column := by
  unfold QuerySignature.resolve
  have hmeaning := hscope.resolve (namedAlike_shown V) c
  cases hcolumn : scope.resolve c with
  | error e => exact throw e
  | ok column =>
    obtain ⟨column₀, -, hshown⟩ := hmeaning.to_ok hcolumn
    exact pure ⟨column₀, hshown⟩

/-- A reference speaks of a projected column, and of no other. -/
theorem reference {column : SourceColumn} (h : column.var.projected = true → V column.var.id) :
    Local V known (QuerySignature.reference column) [] fun W v => W v.id := by
  unfold QuerySignature.reference
  split
  · next hprojected =>
    refine (fresh _ _).behind fun W v hVW hv => ?_
    exact after (.demand (.bestEffort _ hv (hVW _ (h hprojected)))) fun _ => pure hv
  · exact fresh _ _

theorem column {scope₀ scope : Scope} (hscope : scope₀.Shown V scope) (c : ColumnRef) :
    Local V known (inferColumn scope c) [] Inferred.Live :=
  (resolve hscope c).behind fun _ _ _ ⟨_, hcolumn⟩ =>
    (reference hcolumn.live).behind fun _ _ _ hv => pure hv

theorem freshColumns (aliasName : String) (records : List ColumnRecord) :
    Local V known (QuerySignature.freshColumns aliasName records) []
      fun W l => Level.Shown W (records.map (declaredColumn aliasName)) l := by
  induction records generalizing V with
  | nil => exact pure .nil
  | cons record rest ih =>
    refine (freshPlain _ _).behind fun W v _ ⟨hv, hinfo, hplain⟩ => ?_
    refine ih.behind fun X l _ hl => pure (.cons ⟨rfl, rfl, rfl, ?_, fun hprojected => ?_⟩ hl)
    · unfold SourceColumn.declaredType?
      rw [hinfo, hplain]
      rfl
    · exact absurd (hplain.symm.trans hprojected) Bool.false_ne_true

/-- The columns of a table are those that the text shows. -/
theorem tableColumns (schema : Schema) (name : String) (aliasName : Option String) :
    Local V known (QuerySignature.tableColumns schema name aliasName) []
      fun W l => Level.Shown W (tableLevel schema known name (aliasName.getD "")) l := by
  intro r level s hknown hrun
  unfold QuerySignature.tableColumns at hrun
  rw [Analyze.outcome_bind, Analyze.outcome_get, ok_bind] at hrun
  have hfind := hknown.find? (lastSegment name)
  unfold tableNamed? at hfind
  unfold tableLevel
  generalize r.cte? (lastSegment name) = found at hfind hrun
  cases hentry : known.find? fun entry => sameName entry.1 (lastSegment name) with
  | some entry =>
    rw [hentry] at hfind
    cases hfind with
    | some hlevel => exact pure (Level.Shown.withAlias hlevel _) r level s hknown hrun
  | none =>
    rw [hentry] at hfind
    cases hfind
    dsimp only at hrun ⊢
    cases hrecords : schema.columnsOf? (lastSegment name) with
    | none =>
      rw [hrecords] at hrun
      cases hrun
    | some records =>
      rw [hrecords] at hrun
      exact freshColumns _ records r level s hknown hrun

/-! ## Forms -/

theorem predicate (setting : Setting) (label : String) :
    Local V known (QuerySignature.predicate setting label) [] Inferred.Live :=
  ofFresh fun _ => rfl

theorem literal (profile : Profile) (value : Literal) :
    Local V known (inferLiteral profile value) [] Inferred.Live := by
  cases value <;> exact ofFresh fun _ => rfl

section

variable {a b c : Inferred}

theorem arithmetic (label : String) (ha : a.Live V) (hb : b.Live V) :
    Local V known (inferArithmetic label a b) [] Inferred.Live := by
  refine (fresh _ _).behind fun W v hVW hv => ?_
  refine after (.demand (.widest _ _ (hVW _ ha) (hVW _ hb))) fun _ => ?_
  refine after (.demand (.widest _ _ hv (hVW _ ha))) fun _ => ?_
  exact after (.demand (.widest _ _ hv (hVW _ hb))) fun _ => pure hv

theorem compare (setting : Setting) (label : String) (ha : a.Live V) (hb : b.Live V) :
    Local V known (inferCompare setting label a b) [] Inferred.Live := by
  refine after (.demand (.strict _ ha hb)) fun _ => ?_
  exact after (.force _) fun _ => after (.force _) fun _ => predicate _ _

theorem between (setting : Setting) (label : String) (ha : a.Live V) (hb : b.Live V)
    (hc : c.Live V) : Local V known (inferBetween setting label a b c) [] Inferred.Live := by
  refine after (.demand (.strict _ ha hb)) fun _ => after (.demand (.strict _ ha hc)) fun _ => ?_
  exact after (.force _) fun _ => after (.force _) fun _ => after (.force _) fun _ => predicate _ _

theorem inList (setting : Setting) (label : String) {es : List Inferred} (ha : a.Live V)
    (hes : ∀ e ∈ es, e.Live V) :
    Local V known (inferInList setting label a es) [] Inferred.Live := by
  have hvars : ∀ w ∈ es.map (·.var), V w.id := by
    intro w hw
    obtain ⟨e, he, rfl⟩ := List.mem_map.1 hw
    exact hes e he
  refine after (.demand (.row _ _ ha hvars)) fun _ => ?_
  exact after (.forceAll _) fun _ => predicate _ _

/-- The value of a query is its first column. -/
theorem firstColumn (text : String) {names : List String} {result : QueryResult}
    (h : List.Forall₂ (OutputColumn.Shown V) names result.columns) :
    Local V known (QuerySignature.firstColumn text result) [] fun W c => W c.var.id := by
  unfold QuerySignature.firstColumn
  generalize result.columns = columns at h
  cases h with
  | nil => exact throw _
  | cons hc _ => exact pure hc.live

theorem inQuery (setting : Setting) (label : String) {column : OutputColumn} (ha : a.Live V)
    (hcolumn : V column.var.id) :
    Local V known (inferInQuery setting label a column) [] Inferred.Live := by
  refine after (.demand (.row _ false ha fun w hw => ?_)) fun _ => predicate _ _
  rw [List.mem_singleton.1 hw]
  exact hcolumn

theorem like (setting : Setting) (label : String) (ha : a.Live V) (hb : b.Live V) :
    Local V known (inferLike setting label a b) [] Inferred.Live := by
  refine (freshExact _ _).behind fun W v hVW hv => ?_
  refine after (.demand (.bestEffort _ hv (hVW _ hb))) fun _ => ?_
  refine after (.demand (.bestEffort _ (hVW _ ha) (hVW _ hb))) fun _ => ?_
  exact after (.force _) fun _ => after (.force _) fun _ => predicate _ _

/-- The condition of a branch of a CASE. -/
theorem caseWhen (setting : Setting) (label : String) {operand : Option Inferred}
    (ho : ∀ o ∈ operand, o.Live V) (ha : a.Live V) :
    Local V known (inferWhen setting label operand a) [] Unread := by
  unfold inferWhen
  cases operand with
  | some o =>
    exact after (.demand (.strict _ (ho o rfl) ha)) fun _ => unread (.force _)
  | none =>
    refine (freshExact _ _).behind fun W v hVW hv => ?_
    exact unread (.demand (.bestEffort _ (hVW _ ha) hv))

theorem bound (setting : Setting) (label : String) (ha : a.Live V) :
    Local V known (inferBound setting label a) [] Unread := by
  refine (freshExact _ _).behind fun W v hVW hv => ?_
  exact after (.demand (.strict _ hv (hVW _ ha))) fun _ => unread (.force _)

end

/-- The columns that a star stands for. -/
theorem star {l₀ l : Level} (h : Level.Shown V l₀ l) :
    Local V known (inferStar l) []
      fun W cs => List.Forall₂ (OutputColumn.Shown W) (l₀.map (·.name)) cs := by
  induction l generalizing V l₀ with
  | nil =>
    cases h
    exact pure .nil
  | cons c rest ih =>
    obtain _ | ⟨hc, hrest⟩ := h
    have hcolumn : Local V known (inferStarColumn c) [] fun W o => o.Shown W _ :=
      (reference hc.live).behind fun _ _ _ hv => pure ⟨hc.name, hv⟩
    refine hcolumn.behind fun W o hVW ho => ?_
    refine (ih (Level.Shown.mono hVW hrest)).behind fun X os hWX hos => ?_
    exact pure (.cons (ho.mono hWX) hos)

/-! ## Calls -/

section

variable {es : List Inferred} {a : Inferred}

theorem concat (profile : Profile) (label : String) (hes : ∀ e ∈ es, e.Live V) :
    Local V known (inferConcat profile label es) [] Inferred.Live := by
  refine (freshExact _ _).behind fun W v hVW hv => ?_
  exact after (.texts _ hv fun e he => hVW _ (hes e he)) fun _ => pure hv

theorem choice (label : String) (notNull : Bool) (hes : ∀ e ∈ es, e.Live V) :
    Local V known (inferChoice label es notNull) [] Inferred.Live := by
  refine (fresh _ _).behind fun W v hVW hv => ?_
  exact after (.widest _ hv fun e he => hVW _ (hes e he)) fun _ => pure hv

theorem extreme (label : String) (ha : a.Live V) :
    Local V known (inferExtreme label a) [] Inferred.Live := by
  refine (fresh _ _).behind fun W v hVW hv => ?_
  exact after (.demand (.bestEffort _ hv (hVW _ ha))) fun _ => pure hv

theorem sum (label : String) (ha : a.Live V) :
    Local V known (inferSum label a) [] Inferred.Live := by
  refine (fresh _ _).behind fun W v hVW hv => ?_
  exact after (.demand (.widest _ _ hv (hVW _ ha))) fun _ => pure hv

theorem avg (profile : Profile) (label : String) (ha : a.Live V) :
    Local V known (inferAvg profile label a) [] Inferred.Live := by
  refine (fresh _ _).behind fun W v hVW hv => ?_
  exact after (.demand (.bestEffort _ (hVW _ ha) hv)) fun _ => ofFresh fun _ => rfl

theorem round (profile : Profile) (label : String) {digits : Option Inferred} (ha : a.Live V)
    (hdigits : ∀ d ∈ digits, d.Live V) :
    Local V known (inferRound profile label a digits) [] Inferred.Live := by
  refine (fresh _ _).behind fun W v hVW hv => ?_
  refine after (.demand (.strict _ hv (hVW _ ha))) fun _ => ?_
  cases digits with
  | none => exact pure hv
  | some d =>
    refine (freshExact _ _).behind fun X w hWX hw => ?_
    refine after (.demand (.bestEffort _ (hWX _ (hVW _ (hdigits d rfl))) hw)) fun _ => ?_
    exact pure (hWX _ hv)

theorem floor (profile : Profile) (label : String) (ha : a.Live V) :
    Local V known (inferFloor profile label a) [] Inferred.Live := by
  refine (freshExact _ _).behind fun W v hVW hv => ?_
  exact after (.demand (.bestEffort _ (hVW _ ha) hv)) fun _ => ofFresh fun _ => rfl

theorem date (profile : Profile) (label : String) (ha : a.Live V) :
    Local V known (inferDate profile label a) [] Inferred.Live := by
  refine (freshExact _ _).behind fun W v hVW hv => ?_
  refine after (.demand (.bestEffort _ hv (hVW _ ha))) fun _ => ?_
  exact after (.force _) fun _ => ofFresh fun _ => rfl

theorem text (profile : Profile) (label : String) (ha : a.Live V) :
    Local V known (inferText profile label a) [] Inferred.Live := by
  refine (freshExact _ _).behind fun W v hVW hv => ?_
  exact after (.demand (.bestEffort _ hv (hVW _ ha))) fun _ => pure hv

theorem length (profile : Profile) (label : String) (ha : a.Live V) :
    Local V known (inferLength profile label a) [] Inferred.Live := by
  refine (freshExact _ _).behind fun W v hVW hv => ?_
  exact after (.demand (.bestEffort _ hv (hVW _ ha))) fun _ => ofFresh fun _ => rfl

theorem rule {profile : Profile} {label : String} {f : SqlFunction} {rule : Analyze Inferred}
    (hes : ∀ e ∈ es, e.Live V) (h : f.rule? profile label es = some rule) :
    Local V known rule [] Inferred.Live := by
  cases SqlFunction.ruleForm h with
  | count => exact ofFresh fun _ => rfl
  | concat => exact concat _ _ hes
  | choice => exact choice _ _ hes
  | date _ he => exact date _ _ (hes _ he)
  | sum he => exact sum _ (hes _ he)
  | avg he => exact avg _ _ (hes _ he)
  | extreme he => exact extreme _ (hes _ he)
  | round he hdigits => exact round _ _ (hes _ he) fun d hd => hes d (hdigits d hd)
  | floor he => exact floor _ _ (hes _ he)
  | text he => exact text _ _ (hes _ he)
  | length he => exact length _ _ (hes _ he)

theorem call (profile : Profile) (function label : String) (hes : ∀ e ∈ es, e.Live V) :
    Local V known (inferCall profile function label es) [] Inferred.Live := by
  obtain ⟨e, heq⟩ | ⟨f, rule, -, -, hrule, heq⟩ := inferCall_cases profile function label es
  · rw [heq]
    exact throw e
  · rw [heq]
    exact (Local.rule hes hrule).behind fun _ _ _ hresult => pure hresult

end

end Local

/-! ## Comparisons with columns of tables -/

theorem inferExpr_of_isParameter (setting : Setting) (scope : Scope) : ∀ {e : Expr},
    e.isParameter = true → ∃ name, inferExpr setting scope e = addPlaceholder name false
  | .paren inner, h => by
    unfold inferExpr
    exact inferExpr_of_isParameter setting scope (e := inner) h
  | .parameter name, _ => ⟨name, rfl⟩

/-- What a comparison makes, behind its operands. -/
structure Compared (r s : Run) (label : String) (v w : TypeVar) (x : Inferred) : Prop where
  var : x.var.id = r.issued + 1
  issued : s.issued = r.issued + 1
  constraints : s.constraints = r.constraints ++ [.strict label (.var v) (.var w)]
  vars : s.vars = r.vars
  ctes : s.ctes = r.ctes

theorem compared_of_inferCompare {setting : Setting} {label : String} {a b x : Inferred} {r s : Run}
    (h : (inferCompare setting label a b).outcome r = .ok (x, s)) :
    Compared r s label a.var b.var x := by
  have hforce : ∀ (e : Inferred) {r s : Run} {u : Unit}, (forceNotNull e).outcome r = .ok (u, s) →
      s.issued = r.issued ∧ s.constraints = r.constraints ∧ s.vars = r.vars ∧ s.ctes = r.ctes := by
    intro e r s u hs
    obtain ⟨hissued, hvars, hctes, -⟩ := Still.force (V := fun _ => True) e r u s hs
    refine ⟨hissued, ?_, hvars, hctes⟩
    unfold forceNotNull at hs
    cases hindex : e.placeholder with
    | none =>
      rw [hindex] at hs
      cases hs
      rfl
    | some index =>
      rw [hindex] at hs
      cases hs
      rfl
  unfold inferCompare at h
  rw [Analyze.outcome_bind, Analyze.outcome_of_runFrom (runFrom_demand _ r), ok_bind] at h
  simp only [Analyze.outcome_bind] at h
  rcases bind_eq_ok.1 h with ⟨⟨_, r₂⟩, hleft, h⟩
  rcases bind_eq_ok.1 h with ⟨⟨_, r₃⟩, hright, h⟩
  cases h
  obtain ⟨hissued, hconstraints, hvars, hctes⟩ := hforce a hleft
  obtain ⟨hissued', hconstraints', hvars', hctes'⟩ := hforce b hright
  have hlast : r₃.issued = r.issued := hissued'.trans hissued
  refine ⟨congrArg (· + 1) hlast, congrArg (· + 1) hlast, ?_, ?_, ?_⟩
  · exact hconstraints'.trans hconstraints
  · exact hvars'.trans hvars
  · exact hctes'.trans hctes

/-- A reference to a column of a table makes a variable of the type of that. -/
theorem outcome_inferColumn {scope : Scope} {c : ColumnRef} {column : SourceColumn}
    (hmeaning : scope.resolve c = .ok column) (hplain : column.var.projected = false) (r : Run) :
    (inferColumn scope c).outcome r =
      .ok (.ofColumn ⟨r.issued + 1, column.qualifiedName, column.var.info, false, false⟩ column,
        { r with issued := r.issued + 1 }) := by
  unfold inferColumn resolve
  rw [hmeaning, Analyze.outcome_bind, Analyze.outcome_pure, ok_bind]
  unfold reference
  rw [hplain]
  rfl

section

variable {V : Nat → Prop} {r s : Run} {v w : TypeVar} {type : SqlType} {tie : Constraint}

/-- A placeholder and a column that have been made for a comparison, and are not handed on by it. -/
theorem reaches_tie (hissued : s.issued = r.issued + 3)
    (hconstraints : s.constraints = r.constraints ++ [tie]) (htie : Ties v w tie)
    (hv : v.info = .unknown) (hw : w.info = .exact type) (hne : v.id ≠ w.id)
    (hvmade : r.issued < v.id ∧ v.id ≤ r.issued + 2)
    (hwmade : r.issued < w.id ∧ w.id ≤ r.issued + 2) :
    Reaches V (fun id => V id ∨ id = r.issued + 3) r s [(v, some type)] := by
  have hmakes : ∀ id, r.issued < id ∧ id ≤ r.issued + 2 → r.Makes s id := by
    intro id hid
    refine ⟨hid.1, ?_⟩
    omega
  have hhidden : (∀ id, V id → id ≤ r.issued) →
      ∀ id, r.issued < id ∧ id ≤ r.issued + 2 → ¬ (V id ∨ id = r.issued + 3) := by
    rintro hV id hid (hlive | rfl)
    · have hbound := hV id hlive
      omega
    · omega
  have hends : ∀ u ∈ variablesOf [tie], u = v ∨ u = w := by
    intro u hu
    cases htie with
    | left label => exact List.mem_pair.1 hu
    | right label => exact (List.mem_pair.1 hu).symm
  refine ⟨by omega, fun _ => .inl, ?_, ?_, [tie], hconstraints, fun u hu => .inr ?_, ?_⟩
  · rintro id (hid | rfl)
    · exact .inl hid
    · exact .inr ⟨by omega, by omega⟩
  · intro p hp
    rw [List.mem_singleton.1 hp]
    exact hmakes _ hvmade
  · rcases hends u hu with rfl | rfl
    · exact hmakes _ hvmade
    · exact hmakes _ hwmade
  · intro hV u type' hp
    cases List.mem_singleton.1 hp
    exact ⟨w, .of_tie htie hne, hv, hw, ⟨hmakes _ hvmade, hhidden hV _ hvmade⟩,
      ⟨hmakes _ hwmade, hhidden hV _ hwmade⟩⟩

end

/-- A column of a table that an expression is, through parentheses, by the text. -/
def Scope.TableColumn (scope₀ : Scope) (e : Expr) (type : SqlType) : Prop :=
  (scope₀.columnOf? e).bind SourceColumn.declaredType? = some type

/-- What is a column of a table by the text, is a reference to one with that type. -/
theorem Scope.TableColumn.reference {V : Nat → Prop} {scope₀ scope : Scope} {e : Expr} {type : SqlType}
    (h : scope₀.TableColumn e type) (hscope : scope₀.Shown V scope) :
    ∃ c column, e.column? = some c ∧ scope.resolve c = .ok column ∧
      column.var.projected = false ∧ column.var.info = .exact type := by
  obtain ⟨column₀, hcolumn₀, hdeclared⟩ := Option.bind_eq_some_iff.1 h
  obtain ⟨c, hc, hlookup⟩ := Option.bind_eq_some_iff.1 hcolumn₀
  have hresolve₀ : scope₀.resolve c = .ok column₀ := by
    unfold Scope.lookup? at hlookup
    cases hmeaning : scope₀.resolve c with
    | error e =>
      rw [hmeaning] at hlookup
      cases hlookup
    | ok found =>
      rw [hmeaning] at hlookup
      exact congrArg Except.ok (Option.some.inj hlookup)
  obtain ⟨column, hresolve, hshown⟩ := (hscope.resolve (namedAlike_shown V) c).of_ok hresolve₀
  obtain ⟨hplain, hinfo⟩ := SourceColumn.of_declaredType? (hshown.declared.trans hdeclared)
  exact ⟨c, column, hc, hresolve, hplain, hinfo⟩

namespace Local

variable {V : Nat → Prop} {known : List (String × Level)} {scope₀ scope : Scope} {left right : Expr}
  {type : SqlType}

/-- A placeholder on the left of a comparison with a column of a table. -/
theorem pinLeft (setting : Setting) (label : String) (hscope : scope₀.Shown V scope)
    (hleft : left.isParameter = true) (hright : scope₀.TableColumn right type) :
    Local V known (inferExpr setting scope left >>= fun l => inferExpr setting scope right >>= fun r =>
      inferCompare setting label l r) [some type] Inferred.Live := by
  obtain ⟨c, column, hc, hresolve, hplain, hinfo⟩ := hright.reference hscope
  obtain ⟨name, hparameter⟩ := inferExpr_of_isParameter setting scope hleft
  rw [hparameter, inferExpr_of_column? hc]
  intro r x s _ hrun
  rw [Analyze.outcome_bind, Analyze.outcome_of_runFrom (runFrom_addPlaceholder name false r), ok_bind,
    Analyze.outcome_bind, outcome_inferColumn hresolve hplain, ok_bind] at hrun
  have hcompared := compared_of_inferCompare hrun
  have hne : r.issued + 1 ≠ r.issued + 2 := by omega
  refine ⟨_, ⟨[(⟨r.issued + 1, parameterText name, .unknown, false, false⟩, some type)],
    reaches_tie hcompared.issued hcompared.constraints (.left label) rfl hinfo hne ?_ ?_, rfl,
    ?_⟩, hcompared.ctes, .inr hcompared.var⟩
  · exact ⟨Nat.lt_succ_self _, Nat.le_succ _⟩
  · exact ⟨Nat.lt_succ_of_lt (Nat.lt_succ_self _), Nat.le_refl _⟩
  · rw [hcompared.vars]
    simp [Run.vars]

/-- A placeholder on the right of a comparison with a column of a table. -/
theorem pinRight (setting : Setting) (label : String) (hscope : scope₀.Shown V scope)
    (hleft : scope₀.TableColumn left type) (hright : right.isParameter = true) :
    Local V known (inferExpr setting scope left >>= fun l => inferExpr setting scope right >>= fun r =>
      inferCompare setting label l r) [some type] Inferred.Live := by
  obtain ⟨c, column, hc, hresolve, hplain, hinfo⟩ := hleft.reference hscope
  obtain ⟨name, hparameter⟩ := inferExpr_of_isParameter setting scope hright
  rw [hparameter, inferExpr_of_column? hc]
  intro r x s _ hrun
  rw [Analyze.outcome_bind, outcome_inferColumn hresolve hplain, ok_bind, Analyze.outcome_bind,
    Analyze.outcome_of_runFrom (runFrom_addPlaceholder name false _), ok_bind] at hrun
  have hcompared := compared_of_inferCompare hrun
  have hne : r.issued + 2 ≠ r.issued + 1 := by omega
  refine ⟨_, ⟨[(⟨r.issued + 2, parameterText name, .unknown, false, false⟩, some type)],
    reaches_tie hcompared.issued hcompared.constraints (.right label) rfl hinfo hne ?_ ?_,
    rfl, ?_⟩, hcompared.ctes, .inr hcompared.var⟩
  · exact ⟨Nat.lt_succ_of_lt (Nat.lt_succ_self _), Nat.le_refl _⟩
  · exact ⟨Nat.lt_succ_self _, Nat.le_succ _⟩
  · rw [hcompared.vars]
    simp [Run.vars]

end Local

end QuerySignature
