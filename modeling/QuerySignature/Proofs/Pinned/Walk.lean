import QuerySignature.Proofs.Pinned.Forms
import QuerySignature.Proofs.Placeholders.Pieces
import QuerySignature.Proofs.Walk.Sound

namespace QuerySignature

/-! # The walk over pinned placeholders

A walk collects the placeholders of a text as the text lists them, with the columns of tables that they
are compared with, and pins each that is compared with one.

- `Local.expr`, `Local.query`, ...: an expression, or a query, collects its placeholders; the columns
  of a query are those that the text shows.
-/

/-! ## Bare placeholders and references -/

section

variable {schema : Schema} {ctes : List (String × Level)} {scope : Scope}

theorem Expr.pins_of_isParameter : ∀ {e : Expr}, e.isParameter = true →
    e.pins schema ctes scope = [none]
  | .paren inner, h => by
    rw [Expr.pins]
    exact pins_of_isParameter (e := inner) h
  | .parameter _, _ => by rw [Expr.pins]

theorem Expr.pins_of_column? {c : ColumnRef} : ∀ {e : Expr}, e.column? = some c →
    e.pins schema ctes scope = []
  | .paren inner, h => by
    rw [Expr.pins]
    exact pins_of_column? (e := inner) h
  | .column _, _ => by rw [Expr.pins]

theorem Expr.not_isParameter_of_column? {e : Expr} {c : ColumnRef} (h : e.column? = some c) :
    e.isParameter = false := by
  unfold Expr.column? at h
  unfold Expr.isParameter
  generalize e.bare = bare at h
  cases bare <;> first | rfl | cases h

/-- A placeholder on the left of a column of a table is pinned. -/
theorem pins_compare_left {op : CompareOp} {left right : Expr} {type : SqlType}
    (hleft : left.isParameter = true) (hright : scope.TableColumn right type) :
    (Expr.compare op left right).pins schema ctes scope = [some type] := by
  obtain ⟨column, hcolumn, -⟩ := Option.bind_eq_some_iff.1 hright
  obtain ⟨c, hc, -⟩ := Option.bind_eq_some_iff.1 hcolumn
  unfold Scope.TableColumn at hright
  rw [Expr.pins, if_pos hleft, hright, Expr.not_isParameter_of_column? hc, Expr.pins_of_column? hc]
  rfl

/-- A placeholder on the right of a column of a table is pinned. -/
theorem pins_compare_right {op : CompareOp} {left right : Expr} {type : SqlType}
    (hleft : scope.TableColumn left type) (hright : right.isParameter = true) :
    (Expr.compare op left right).pins schema ctes scope = [some type] := by
  obtain ⟨column, hcolumn, -⟩ := Option.bind_eq_some_iff.1 hleft
  obtain ⟨c, hc, -⟩ := Option.bind_eq_some_iff.1 hcolumn
  unfold Scope.TableColumn at hleft
  rw [Expr.pins, if_pos hright, hleft, Expr.not_isParameter_of_column? hc, Expr.pins_of_column? hc]
  rfl

/-- No other comparison pins anything but what its operands do. -/
theorem pins_compare {op : CompareOp} {left right : Expr}
    (hleft : ∀ type, ¬ (left.isParameter = true ∧ scope.TableColumn right type))
    (hright : ∀ type, ¬ (scope.TableColumn left type ∧ right.isParameter = true)) :
    (Expr.compare op left right).pins schema ctes scope =
      left.pins schema ctes scope ++ right.pins schema ctes scope := by
  have hopen : ∀ {e : Expr}, (∀ type, ¬ scope.TableColumn e type) →
      (scope.columnOf? e).bind SourceColumn.declaredType? = none :=
    fun hnot => Option.eq_none_iff_forall_ne_some.2 hnot
  rw [Expr.pins]
  congr 1
  · split
    · next hparameter =>
      rw [hopen fun type h => hleft type ⟨hparameter, h⟩, Expr.pins_of_isParameter hparameter]
    · exact rfl
  · split
    · next hparameter =>
      rw [hopen fun type h => hright type ⟨h, hparameter⟩, Expr.pins_of_isParameter hparameter]
    · exact rfl

end

/-! ## The walk -/

namespace Local

mutual

theorem expr (setting : Setting) (e : Expr) {V : Nat → Prop} {known : List (String × Level)}
    {scope₀ scope : Scope} (hs : scope₀.Shown V scope) :
    Local V known (inferExpr setting scope e) (e.pins setting.schema known scope₀)
      Inferred.Live := by
  match e with
  | .literal value =>
    rw [Expr.pins]
    exact literal setting.profile value
  | .column c =>
    rw [Expr.pins]
    exact column hs c
  | .parameter name =>
    rw [Expr.pins]
    exact addPlaceholder name false
  | .paren inner =>
    rw [Expr.pins]
    exact expr setting inner hs
  | .arithmetic op left right =>
    rw [Expr.pins]
    refine (expr setting left hs).bind fun W l hVW hl => ?_
    refine (expr setting right (hs.mono hVW)).before fun X r hWX hr => ?_
    exact arithmetic _ (hWX _ hl) hr
  | .compare op left right =>
    -- a comparison of a placeholder with a column of a table hands neither on
    by_cases hleft : ∃ type, left.isParameter = true ∧ scope₀.TableColumn right type
    · obtain ⟨type, hparameter, hcolumn⟩ := hleft
      rw [pins_compare_left hparameter hcolumn]
      exact pinLeft setting _ hs hparameter hcolumn
    by_cases hright : ∃ type, scope₀.TableColumn left type ∧ right.isParameter = true
    · obtain ⟨type, hcolumn, hparameter⟩ := hright
      rw [pins_compare_right hcolumn hparameter]
      exact pinRight setting _ hs hcolumn hparameter
    rw [pins_compare (not_exists.1 hleft) (not_exists.1 hright)]
    refine (expr setting left hs).bind fun W l hVW hl => ?_
    refine (expr setting right (hs.mono hVW)).before fun X r hWX hr => ?_
    exact compare setting _ (hWX _ hl) hr
  | .between negated value low high =>
    rw [Expr.pins, List.append_assoc]
    refine (expr setting value hs).bind fun W v hVW hv => ?_
    refine (expr setting low (hs.mono hVW)).bind fun X l hWX hl => ?_
    refine (expr setting high ((hs.mono hVW).mono hWX)).before fun Y h hXY hh => ?_
    exact between setting _ (hXY _ (hWX _ hv)) (hXY _ hl) hh
  | .inList negated value items =>
    rw [Expr.pins]
    refine (expr setting value hs).bind fun W v hVW hv => after (.force v) fun _ => ?_
    dsimp only
    cases hsole : soleParameter? items with
    | some name =>
      obtain rfl := eq_of_soleParameter? hsole
      have hpins : pinsOfAll setting.schema known scope₀ [.parameter name] = [none] := by
        rw [pinsOfAll, pinsOfAll, Expr.pins]
        rfl
      rw [hpins]
      have hlist : Local W known (QuerySignature.addPlaceholder name true >>= fun list =>
          Pure.pure [list]) [none] fun X as => ∀ a ∈ as, a.Live X := by
        refine (addPlaceholder name true).before fun X p _ hp => pure fun a ha => ?_
        rw [List.mem_singleton.1 ha]
        exact hp
      exact hlist.before fun X as hWX has => inList setting _ (hWX _ hv) has
    | none =>
      refine (all setting items (hs.mono hVW)).before fun X as hWX has => ?_
      exact inList setting _ (hWX _ hv) has
  | .inQuery negated value q =>
    rw [Expr.pins]
    refine (expr setting value hs).bind fun W v hVW hv => after (.force v) fun _ => ?_
    refine (query setting q (hs.mono hVW).levels).before fun X result hWX hresult => ?_
    refine (firstColumn _ hresult).behind fun Y c hXY hc => ?_
    exact inQuery setting _ (hXY _ (hWX _ hv)) hc
  | .like negated value pattern =>
    rw [Expr.pins]
    refine (expr setting value hs).bind fun W v hVW hv => ?_
    refine (expr setting pattern (hs.mono hVW)).before fun X p hWX hp => ?_
    exact like setting _ (hWX _ hv) hp
  | .isNull negated value =>
    rw [Expr.pins]
    exact (expr setting value hs).before fun _ _ _ _ => predicate setting _
  | .and left right =>
    rw [Expr.pins]
    refine (expr setting left hs).bind fun W _ hVW _ => ?_
    exact (expr setting right (hs.mono hVW)).before fun _ _ _ _ => predicate setting _
  | .or left right =>
    rw [Expr.pins]
    refine (expr setting left hs).bind fun W _ hVW _ => ?_
    exact (expr setting right (hs.mono hVW)).before fun _ _ _ _ => predicate setting _
  | .not operand =>
    rw [Expr.pins]
    exact (expr setting operand hs).before fun _ _ _ _ => predicate setting _
  | .call function distinct es =>
    rw [Expr.pins]
    exact (arguments setting es hs).before fun _ _ _ has => call setting.profile function _ has
  | .case operand branches otherwise =>
    rw [Expr.pins, List.append_assoc]
    refine (option setting operand hs).bind fun W o hVW ho => ?_
    refine (fresh _ _).behind fun X v hWX hv => ?_
    have hs₁ := (hs.mono hVW).mono hWX
    refine (caseBranches setting branches hs₁ (fun a ha => hWX _ (ho a ha)) hv).bind
      fun Y _ hXY _ => ?_
    refine (caseElse setting otherwise (hs₁.mono hXY) (hXY _ hv)).before fun Z _ hYZ _ => ?_
    exact pure (hYZ _ (hXY _ hv))
  | .scalar q =>
    rw [Expr.pins]
    refine (query setting q hs.levels).before fun W result _ hresult => ?_
    exact (firstColumn _ hresult).behind fun X c _ hc => pure hc
  | .hasRows q =>
    rw [Expr.pins]
    exact (query setting q hs.levels).before fun _ _ _ _ => predicate setting _
  | .star => exact throw _

theorem all (setting : Setting) (es : List Expr) {V : Nat → Prop} {known : List (String × Level)}
    {scope₀ scope : Scope} (hs : scope₀.Shown V scope) :
    Local V known (inferAll setting scope es) (pinsOfAll setting.schema known scope₀ es)
      fun W as => ∀ a ∈ as, a.Live W := by
  match es with
  | [] =>
    rw [pinsOfAll]
    exact pure fun a ha => absurd ha List.not_mem_nil
  | e :: rest =>
    rw [pinsOfAll]
    refine (expr setting e hs).bind fun W a hVW ha => ?_
    refine (all setting rest (hs.mono hVW)).before fun X as hWX has => pure ?_
    exact List.forall_mem_cons.2 ⟨hWX _ ha, has⟩

theorem arguments (setting : Setting) (es : List Expr) {V : Nat → Prop}
    {known : List (String × Level)} {scope₀ scope : Scope} (hs : scope₀.Shown V scope) :
    Local V known (inferArguments setting scope es) (pinsOfAll setting.schema known scope₀ es)
      fun W as => ∀ a ∈ as, a.Live W := by
  match es with
  | [] =>
    rw [pinsOfAll]
    exact pure fun a ha => absurd ha List.not_mem_nil
  | e :: rest =>
    rw [pinsOfAll]
    unfold inferArguments
    split
    · next hstar =>
      obtain rfl : e = .star := by cases e <;> first | rfl | cases hstar
      rw [Expr.pins]
      exact arguments setting rest hs
    · refine (expr setting e hs).bind fun W a hVW ha => ?_
      refine (arguments setting rest (hs.mono hVW)).before fun X as hWX has => pure ?_
      exact List.forall_mem_cons.2 ⟨hWX _ ha, has⟩

theorem option (setting : Setting) (o : Option Expr) {V : Nat → Prop}
    {known : List (String × Level)} {scope₀ scope : Scope} (hs : scope₀.Shown V scope) :
    Local V known (inferSome setting scope o) (pinsOfSome setting.schema known scope₀ o)
      fun W a => ∀ x ∈ a, x.Live W := by
  match o with
  | none =>
    rw [pinsOfSome]
    exact pure fun x hx => nomatch hx
  | some e =>
    rw [pinsOfSome]
    refine (expr setting e hs).before fun W a _ ha => pure fun x hx => ?_
    rw [← Option.some.inj hx]
    exact ha

theorem caseBranches (setting : Setting) (bs : List WhenThen) {V : Nat → Prop}
    {known : List (String × Level)} {scope₀ scope : Scope} (hs : scope₀.Shown V scope)
    {operand : Option Inferred} (ho : ∀ o ∈ operand, o.Live V) {result : TypeVar}
    (hresult : V result.id) :
    Local V known (inferBranches setting scope operand result bs)
      (pinsOfBranches setting.schema known scope₀ bs) Unread := by
  match bs with
  | [] =>
    rw [pinsOfBranches]
    exact pure trivial
  | ⟨condition, value⟩ :: rest =>
    rw [pinsOfBranches, List.append_assoc]
    refine (expr setting condition hs).bind fun W c hVW hc => ?_
    refine (caseWhen setting _ (fun o hmem => hVW _ (ho o hmem)) hc).behind fun X _ hWX _ => ?_
    have hs₁ := (hs.mono hVW).mono hWX
    refine (expr setting value hs₁).bind fun Y v hXY hv => ?_
    have hlift : ∀ id, V id → Y id := fun id hid => hXY _ (hWX _ (hVW _ hid))
    refine after (.demand (.widest _ _ (hlift _ hresult) hv)) fun _ => ?_
    refine (caseBranches setting rest (hs.mono hlift) (fun o hmem => hlift _ (ho o hmem))
      (hlift _ hresult)).before fun _ _ _ _ => ?_
    exact pure trivial

theorem caseElse (setting : Setting) (o : Option Expr) {V : Nat → Prop}
    {known : List (String × Level)} {scope₀ scope : Scope} (hs : scope₀.Shown V scope)
    {result : TypeVar} (hresult : V result.id) :
    Local V known (inferElse setting scope result o) (pinsOfSome setting.schema known scope₀ o)
      Unread := by
  match o with
  | none =>
    rw [pinsOfSome]
    exact pure trivial
  | some e =>
    rw [pinsOfSome]
    refine (expr setting e hs).before fun W a hVW ha => ?_
    exact after (.demand (.widest _ _ (hVW _ hresult) ha)) fun _ => pure trivial

theorem query (setting : Setting) (q : Select) {V : Nat → Prop} {known : List (String × Level)}
    {outer₀ outer : List Level} (ho : LevelsShown V outer₀ outer) :
    Local V known (inferQuery setting outer q) (q.pins setting.schema known outer₀)
      fun W result =>
        List.Forall₂ (OutputColumn.Shown W) (q.names setting.schema known) result.columns := by
  match q with
  | ⟨own, branches, order, limit⟩ =>
    intro r result s hknown hrun
    obtain ⟨r₁, results, r₂, ⟨first, columns⟩, r₃, r₄, hctes, hbranches, hhead, horder, hlimit, rfl,
      rfl⟩ := clauses_of_query hrun
    dsimp only at hctes hbranches hhead horder hlimit
    obtain ⟨W₁, hcollects₁, hknown₁⟩ := commonTables setting own ho hknown hctes
    have ho₁ := LevelsShown.mono hcollects₁.keeps ho
    obtain ⟨W₂, hcollects₂, hctes₂, hresults⟩ :=
      union setting branches ho₁ r₁ results r₂ hknown₁ hbranches
    have ho₂ := LevelsShown.mono hcollects₂.keeps ho₁
    have hknown₂ : TablesShown W₂ (knownWith setting.schema known own) r₂.ctes :=
      hctes₂ ▸ hknown₁.mono hcollects₂.keeps
    obtain ⟨hfirst, hcolumns⟩ : first.Shown W₂ _ _ ∧
        List.Forall₂ (OutputColumn.Shown W₂) _ columns := by
      obtain ⟨others, rfl, hunion⟩ := exists_of_unionOf hhead
      exact ⟨hresults _ rfl, shown_unionColumns (hresults _ rfl).columns hunion⟩
    have hsOrder : Scope.Shown W₂ ⟨_, _ :: outer₀⟩ (orderScope outer (first, columns)) :=
      ⟨shown_levelOf "" hcolumns, .cons hfirst.visible ho₂⟩
    obtain ⟨W₃, hcollects₃, hctes₃, -⟩ :=
      orderBy setting order hsOrder r₂ _ r₃ hknown₂ horder
    have hsLimit : Scope.Shown W₃ ⟨_, outer₀⟩ ⟨first.visible, outer⟩ :=
      ⟨Level.Shown.mono hcollects₃.keeps hfirst.visible, LevelsShown.mono hcollects₃.keeps ho₂⟩
    obtain ⟨W₄, hcollects₄, -, -⟩ := limitTo setting limit hsLimit r₃ _ r₄
      (hctes₃ ▸ hknown₂.mono hcollects₃.keeps) hlimit
    have hall := (((hcollects₁.trans hcollects₂).trans hcollects₃).trans hcollects₄)
    refine ⟨W₄, ?_, rfl, ?_⟩
    · rw [Select.pins]
      exact hall.withCtes r.ctes
    · rw [Select.names]
      exact columnsShown_mono hcollects₄.keeps (columnsShown_mono hcollects₃.keeps hcolumns)

theorem commonTables (setting : Setting) (own : List Cte) {V : Nat → Prop}
    {known : List (String × Level)} {outer₀ outer : List Level} (ho : LevelsShown V outer₀ outer)
    {r s : Run} {done : Unit} (hknown : TablesShown V known r.ctes)
    (hrun : (inferCtes setting outer own).outcome r = .ok (done, s)) :
    ∃ W, Collects V W r s (pinsOfCtes setting.schema known outer₀ own) ∧
      TablesShown W (knownWith setting.schema known own) s.ctes := by
  match own with
  | [] =>
    cases hrun
    obtain ⟨W, hcollects, -, rfl⟩ := still (.pure ()) r () r hknown rfl
    rw [pinsOfCtes, knownWith]
    exact ⟨_, hcollects, hknown⟩
  | ⟨name, q⟩ :: rest =>
    rw [outcome_inferCtes_cons] at hrun
    rcases bind_eq_ok.1 hrun with ⟨⟨result, r₁⟩, hquery, hrun⟩
    obtain ⟨W, hcollects, hctes, hresult⟩ := query setting q ho r result r₁ hknown hquery
    have hdeclared := hcollects.withCtes ((name, levelOf name result.columns) :: r₁.ctes)
    have hknown₁ : TablesShown W ((name, (q.names setting.schema known).map
        (projectedColumn name)) :: known) ((name, levelOf name result.columns) :: r₁.ctes) :=
      .declare name (shown_levelOf name hresult) (hctes ▸ hknown.mono hcollects.keeps)
    obtain ⟨X, hcollects', hknown'⟩ := commonTables setting rest
      (LevelsShown.mono hcollects.keeps ho) hknown₁ hrun
    rw [pinsOfCtes, knownWith]
    exact ⟨X, hdeclared.trans hcollects', hknown'⟩

theorem union (setting : Setting) (bs : List Branch) {V : Nat → Prop}
    {known : List (String × Level)} {outer₀ outer : List Level} (ho : LevelsShown V outer₀ outer) :
    Local V known (inferUnion setting outer bs) (pinsOfUnion setting.schema known outer₀ bs)
      fun W results => ∀ first ∈ results.head?,
        first.Shown W (namesOfFirst setting.schema known bs)
          (firstLevel setting.schema known bs) := by
  match bs with
  | [] =>
    rw [pinsOfUnion]
    exact pure fun first hfirst => nomatch hfirst
  | b :: rest =>
    rw [pinsOfUnion]
    refine (branch setting b ho).bind fun W result hVW hresult => ?_
    refine (union setting rest (LevelsShown.mono hVW ho)).before fun X others hWX _ => ?_
    refine pure fun first hfirst => ?_
    rw [← Option.some.inj hfirst, namesOfFirst]
    exact hresult.mono hWX

theorem branch (setting : Setting) (b : Branch) {V : Nat → Prop} {known : List (String × Level)}
    {outer₀ outer : List Level} (ho : LevelsShown V outer₀ outer) :
    Local V known (inferBranch setting outer b) (b.pins setting.schema known outer₀)
      fun W result => result.Shown W (b.names setting.schema known)
        (b.level setting.schema known) := by
  match b with
  | ⟨distinct, itemList, sources, joins, criteria, group, having⟩ =>
    intro r result s hknown hrun
    obtain ⟨⟨joined, columns⟩, r₄, _, r₅, _, hfront, hgroup, hhaving, rfl⟩ := clauses_of_branch hrun
    obtain ⟨listed, r₁, r₂, r₃, _, hlisted, hjoined, hitems, hcriteria⟩ := clauses_of_front hfront
    dsimp only at hlisted hjoined hitems hcriteria hgroup hhaving
    obtain ⟨W₁, hcollects₁, hctes₁, hlevel₁⟩ :=
      sourceList setting sources (.nil : Level.Shown V [] Sources.empty.columns) r listed r₁ hknown hlisted
    have hknown₁ : TablesShown W₁ known r₁.ctes := hctes₁ ▸ hknown.mono hcollects₁.keeps
    have ho₁ := LevelsShown.mono hcollects₁.keeps ho
    obtain ⟨W₂, hcollects₂, hctes₂, hlevel₂⟩ :=
      joinList setting joins ho₁ hlevel₁ _ r₁ joined r₂ hknown₁ hjoined
    have hknown₂ : TablesShown W₂ known r₂.ctes := hctes₂ ▸ hknown₁.mono hcollects₂.keeps
    have ho₂ := LevelsShown.mono hcollects₂.keeps ho₁
    have hs₂ : Scope.Shown W₂ ⟨_, outer₀⟩ ⟨joined.columns, outer⟩ := ⟨hlevel₂, ho₂⟩
    obtain ⟨W₃, hcollects₃, hctes₃, hcolumns⟩ := items setting itemList hs₂
      { r₂ with placeholders := r₂.placeholders.take r.placeholders.length } columns r₃ hknown₂
      hitems
    -- the placeholders of the FROM clause are put back behind those of the items
    have hfront := (hcollects₁.trans hcollects₂).aside hcollects₃
    have hknown₃ : TablesShown W₃ known r₃.ctes := hctes₃ ▸ hknown₂.mono hcollects₃.keeps
    have hs₃ := hs₂.mono hcollects₃.keeps
    obtain ⟨W₄, hcollects₄, hctes₄, -⟩ := option setting criteria hs₃
      { r₃ with placeholders :=
          r₃.placeholders ++ r₂.placeholders.drop r.placeholders.length } _ r₄ hknown₃ hcriteria
    have hknown₄ : TablesShown W₄ known r₄.ctes := hctes₄ ▸ hknown₃.mono hcollects₄.keeps
    have hs₄ := hs₃.mono hcollects₄.keeps
    have hgrouped : Scope.Shown W₄ ⟨_, _ :: outer₀⟩ (groupedScope outer (joined, columns)) :=
      ⟨hs₄.columns, .cons (shown_levelOf "" (columnsShown_mono hcollects₄.keeps hcolumns)) hs₄.outer⟩
    obtain ⟨W₅, hcollects₅, hctes₅, -⟩ :=
      all setting group hgrouped r₄ _ r₅ hknown₄ hgroup
    have hknown₅ : TablesShown W₅ known r₅.ctes := hctes₅ ▸ hknown₄.mono hcollects₅.keeps
    obtain ⟨W₆, hcollects₆, hctes₆, -⟩ :=
      option setting having (hgrouped.mono hcollects₅.keeps) r₅ _ s hknown₅ hhaving
    have hlift : ∀ id, W₃ id → W₆ id := fun id hid =>
      hcollects₆.keeps _ (hcollects₅.keeps _ (hcollects₄.keeps _ hid))
    have hall := ((hfront.trans hcollects₄).trans hcollects₅).trans hcollects₆
    refine ⟨W₆, ?_, ?_, ?_⟩
    · rw [Branch.pins]
      simpa only [List.append_assoc] using hall
    · exact hctes₆.trans (hctes₅.trans (hctes₄.trans (hctes₃.trans (hctes₂.trans hctes₁))))
    · rw [Branch.names]
      exact ⟨columnsShown_mono hlift (shown_proveColumns _ _ hcolumns),
        Level.Shown.mono hlift hs₃.columns⟩

theorem items (setting : Setting) (is : List Item) {V : Nat → Prop} {known : List (String × Level)}
    {scope₀ scope : Scope} (hs : scope₀.Shown V scope) :
    Local V known (inferItems setting scope is) (pinsOfItems setting.schema known scope₀ is)
      fun W cs =>
        List.Forall₂ (OutputColumn.Shown W) (is.flatMap (Item.names scope₀.columns)) cs := by
  match is with
  | [] =>
    rw [pinsOfItems]
    exact pure .nil
  | i :: rest =>
    rw [pinsOfItems]
    refine (item setting i hs).bind fun W cs hVW hcs => ?_
    refine (items setting rest (hs.mono hVW)).before fun X ds hWX hds => pure ?_
    rw [List.flatMap_cons]
    exact List.rel_append (columnsShown_mono hWX hcs) hds

theorem item (setting : Setting) (i : Item) {V : Nat → Prop} {known : List (String × Level)}
    {scope₀ scope : Scope} (hs : scope₀.Shown V scope) :
    Local V known (inferItem setting scope i) (i.pins setting.schema known scope₀)
      fun W cs => List.Forall₂ (OutputColumn.Shown W) (i.names scope₀.columns) cs := by
  match i with
  | .star =>
    rw [Item.pins]
    exact star hs.columns
  | .tableStar table =>
    rw [Item.pins]
    have hof := Level.Shown.ofTable hs.columns table
    unfold inferItem
    split
    · exact throw _
    · exact star hof
  | .expr value aliasName =>
    rw [Item.pins]
    refine (expr setting value hs).before fun W a _ ha => pure ?_
    exact .cons ⟨rfl, ha⟩ .nil

theorem sourceList (setting : Setting) (xs : List Source) {V : Nat → Prop}
    {known : List (String × Level)} {done₀ : Level} {done : Sources}
    (hdone : Level.Shown V done₀ done.columns) :
    Local V known (inferSources setting done xs) (pinsOfSources setting.schema known xs)
      fun W listed => Level.Shown W (listedLevel setting.schema known done₀ xs) listed.columns := by
  match xs with
  | [] =>
    rw [pinsOfSources, listedLevel]
    exact pure hdone
  | x :: rest =>
    rw [pinsOfSources, listedLevel]
    refine (source setting x).bind fun W l hVW hl => ?_
    exact sourceList setting rest (List.rel_append (Level.Shown.mono hVW hdone) hl)

theorem source (setting : Setting) (x : Source) {V : Nat → Prop} {known : List (String × Level)} :
    Local V known (inferSource setting x) (x.pins setting.schema known)
      fun W l => Level.Shown W (x.level setting.schema known) l := by
  match x with
  | .table name aliasName =>
    rw [Source.pins, Source.level]
    exact tableColumns setting.schema name aliasName
  | .derived q aliasName =>
    rw [Source.pins, Source.level]
    refine (query setting q .nil).before fun W result _ hresult => ?_
    exact pure (shown_levelOf aliasName hresult)

theorem joinList (setting : Setting) (js : List Join) {V : Nat → Prop}
    {known : List (String × Level)} {outer₀ outer : List Level} (ho : LevelsShown V outer₀ outer)
    {done₀ : Level} {done : Sources} (hdone : Level.Shown V done₀ done.columns)
    (previous : String) :
    Local V known (inferJoins setting outer done previous js)
      (pinsOfJoins setting.schema known outer₀ done₀ js)
      fun W joined => Level.Shown W (joinedLevel setting.schema known done₀ js) joined.columns := by
  match js with
  | [] =>
    rw [pinsOfJoins, joinedLevel]
    exact pure hdone
  | ⟨kind, x, on⟩ :: rest =>
    rw [pinsOfJoins, joinedLevel, List.append_assoc]
    refine (source setting x).bind fun W l hVW hl => ?_
    have hdone₁ := Level.Shown.mono hVW hdone
    have ho₁ := LevelsShown.mono hVW ho
    have hs : Scope.Shown W ⟨_, outer₀⟩ ⟨done.columns ++ l, outer⟩ :=
      ⟨List.rel_append hdone₁ hl, ho₁⟩
    refine (condition setting on hs).bind fun X _ hWX _ => ?_
    refine joinList setting rest (LevelsShown.mono hWX ho₁) ?_ _
    exact List.rel_append (Level.Shown.earlier (Level.Shown.mono hWX hdone₁) kind)
      (Level.Shown.joined (Level.Shown.added (Level.Shown.mono hWX hl) on) kind)

theorem condition (setting : Setting) (c : JoinCondition) {V : Nat → Prop}
    {known : List (String × Level)} {scope₀ scope : Scope} (hs : scope₀.Shown V scope) :
    Local V known (inferCondition setting scope c) (c.pins setting.schema known scope₀) Unread := by
  match c with
  | .predicate e =>
    rw [JoinCondition.pins]
    exact (expr setting e hs).before fun _ _ _ _ => pure trivial
  | .shared _ =>
    rw [JoinCondition.pins]
    exact pure trivial
  | .unconditional =>
    rw [JoinCondition.pins]
    exact pure trivial

theorem orderBy (setting : Setting) (terms : List OrderTerm) {V : Nat → Prop}
    {known : List (String × Level)} {scope₀ scope : Scope} (hs : scope₀.Shown V scope) :
    Local V known (inferOrder setting scope terms)
      (pinsOfOrder setting.schema known scope₀ terms) Unread := by
  match terms with
  | [] =>
    rw [pinsOfOrder]
    exact pure trivial
  | ⟨value, _⟩ :: rest =>
    rw [pinsOfOrder]
    unfold inferOrder
    split
    · exact orderBy setting rest hs
    · refine (expr setting value hs).bind fun W _ hVW _ => ?_
      exact orderBy setting rest (hs.mono hVW)

theorem limitTo (setting : Setting) (l : Option Limit) {V : Nat → Prop}
    {known : List (String × Level)} {scope₀ scope : Scope} (hs : scope₀.Shown V scope) :
    Local V known (inferLimit setting scope l) (pinsOfLimit setting.schema known scope₀ l)
      Unread := by
  match l with
  | none =>
    rw [pinsOfLimit]
    exact pure trivial
  | some ⟨count, offset⟩ =>
    rw [pinsOfLimit]
    refine (expr setting count hs).bind fun W c hVW hc => ?_
    refine (bound setting _ hc).behind fun X _ hWX _ => ?_
    exact offsetBy setting offset ((hs.mono hVW).mono hWX)

theorem offsetBy (setting : Setting) (o : Option Expr) {V : Nat → Prop}
    {known : List (String × Level)} {scope₀ scope : Scope} (hs : scope₀.Shown V scope) :
    Local V known (inferOffset setting scope o) (pinsOfSome setting.schema known scope₀ o)
      Unread := by
  match o with
  | none =>
    rw [pinsOfSome]
    exact pure trivial
  | some offset =>
    rw [pinsOfSome]
    exact (expr setting offset hs).before fun W a _ ha => bound setting _ ha

end

end Local

end QuerySignature
