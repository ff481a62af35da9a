import QuerySignature.Proofs.Mirrored.Queries
import QuerySignature.Proofs.Onward.Rest

namespace QuerySignature

/-! # Comparisons inside statements

However deep a comparison stands in a statement, a walk over the statement leads past it, and a walk over
the statement with the sides of the comparison exchanged leads past the mirrored comparison.

- `Mirrored.lead`: expressions, queries and branches, by induction on the place of the comparison.
- `MirroredStatement.leads`: statements.
-/

variable {setting : Setting} {p : Passing setting} {N : Naming}

/-- Walks over two texts that differ in the sides of one comparison lead past it. -/
theorem Mirrored.lead {c : Counterparts} {r : Run} (h : Mirrored N p c r) : c.Lead p N r := by
  induction h with
  | here => exact fun made r' scope' hbefore hs he => p.leads_comparison hbefore hs he
  | paren _ ih => exact ih
  | unary f _ ih => exact Lead.unary f ih
  | left f right _ ih => exact Lead.left f right ih
  | right f hrun _ ih => exact Lead.right f hrun ih
  | between negated low high _ ih => exact Lead.between negated low high ih
  | low negated high hrun _ ih => exact Lead.low negated high hrun ih
  | high negated hvalue hlow _ ih => exact Lead.high negated hvalue hlow ih
  | inList negated items _ ih => exact Lead.inList negated items ih
  | listed negated ys hvalue hforce hxs h ih =>
    exact Lead.listed negated ys h.compound.1 h.compound.2 hvalue hforce hxs ih
  | inQuery negated q _ ih => exact Lead.inQuery negated q ih
  | queried negated hvalue hforce _ ih => exact Lead.queried negated hvalue hforce ih
  | argument function distinct ys hrun h ih =>
    exact Lead.argument function distinct ys h.compound.1 h.compound.2 hrun ih
  | operand branches otherwise _ ih => exact Lead.operand branches otherwise ih
  | condition result ys otherwise hoperand hfresh hbranches _ ih =>
    exact Lead.condition result ys otherwise hoperand hfresh hbranches ih
  | result ys otherwise hoperand hfresh hbranches hcondition hwhen _ ih =>
    exact Lead.result ys otherwise hoperand hfresh hbranches hcondition hwhen ih
  | otherwise hoperand hfresh hbranches _ ih =>
    exact Lead.otherwise hoperand hfresh hbranches ih
  | query f _ ih => exact Lead.query f ih
  | commonTable name ys branches order limit hrun _ ih =>
    exact Lead.commonTable name ys branches order limit hrun ih
  | union ys order limit hctes hunion _ ih => exact Lead.union ys order limit hctes hunion ih
  | order descending ys limit hctes hunion hhead hxs h ih =>
    exact Lead.orderTerm descending ys limit h.compound.1 h.compound.2 hctes hunion hhead hxs ih
  | limit offset hctes hunion hhead horder _ ih =>
    exact Lead.limit offset hctes hunion hhead horder ih
  | offset hctes hunion hhead horder hcount hbound _ ih =>
    exact Lead.offset hctes hunion hhead horder hcount hbound ih
  | source distinct items aliasName ys joins criteria group having hrun _ ih =>
    exact Lead.source distinct items aliasName ys joins criteria group having hrun ih
  | joined distinct items kind aliasName on ys criteria group having hsources hxs _ ih =>
    exact Lead.joined distinct items kind aliasName on ys criteria group having hsources hxs ih
  | on distinct items kind ys criteria group having hsources hxs hx _ ih =>
    exact Lead.on distinct items kind ys criteria group having hsources hxs hx ih
  | item distinct aliasName ys criteria group having hfrom hxs hblurs h ih =>
    exact Lead.item distinct aliasName ys criteria group having h.compound.1 h.compound.2 hfrom hxs
      hblurs ih
  | criteria distinct group having hrun h ih =>
    exact Lead.criteria distinct group having h.proveAlike hrun ih
  | group distinct ys having hrun hcriteria hxs _ ih =>
    exact Lead.group distinct ys having hrun hcriteria hxs ih
  | having distinct hrun hcriteria hgroup _ ih =>
    exact Lead.having distinct hrun hcriteria hgroup ih

/-! ## Statements -/

namespace Passing.Leads

/-- Both walks go over the same text, from the same run. -/
theorem afterSame {α β γ : Type} {made : List TypeInfo} {P : List TypeInfo → α → Prop}
    {R : α → α → Prop} {Q : β → γ → Prop} {step : Analyze α} {next : α → Analyze β}
    {next' : α → Analyze γ} {r s : Run} {a : α} (hr : r.Sound made)
    (hstep : Common N made P R step step) (hrun : step.outcome r = .ok (a, s))
    (hnext : ∀ made₁, made <+: made₁ → s.Sound made₁ → P made₁ a →
      p.Leads N Q s s (next a) (next' a)) :
    p.Leads N Q r r (step >>= next) (step >>= next') := by
  obtain ⟨made₁, b, s', hgrows, hrun', hbefore, ha, -, hissued, hvars⟩ :=
    (Before.same hr).step hstep hrun
  rw [hrun] at hrun'
  cases hrun'
  intro c t hsecond
  rw [Analyze.outcome_bind, hrun] at hsecond
  obtain ⟨d, t', p', hsecond', hcd, htraded, hcrossed⟩ :=
    hnext made₁ hgrows hbefore.sound ha c t hsecond
  refine ⟨d, t', p', ?_, hcd, htraded, hcrossed.earlier hissued hvars⟩
  rw [Analyze.outcome_bind, hrun]
  exact hsecond'

end Passing.Leads

namespace Common

variable {made : List TypeInfo}

theorem tableColumns (schema : Schema) (name : String) :
    Common N made (fun made columns => columns.Issued made) (Level.Stands (.all N))
      (QuerySignature.tableColumns schema name none) (QuerySignature.tableColumns schema name none) :=
  ⟨.tableColumns schema name, .tableColumns schema name none⟩

theorem rows {rows : List (List Expr)} (hrows : ∀ row ∈ rows, SpelledAll N row) {targets : Level}
    (htargets : targets.Issued made) :
    Common N made (fun _ _ => True) Done (inferRows setting targets rows)
      (inferRows setting targets rows) :=
  ⟨.rows rows htargets, .rows hrows (.refl N targets)⟩

theorem assignments {as : List Assignment} (has : ∀ a ∈ as, a.Spelled N) {scope : Scope}
    (hs : SharedLevels N made scope.levels scope.levels) :
    Common N made (fun _ _ => True) Done (inferAssignments setting scope as)
      (inferAssignments setting scope as) :=
  ⟨.assignments as hs.beside, .assignments has hs.related⟩

theorem resolve {scope : Scope} (hs : SharedLevels N made scope.levels scope.levels)
    (c : ColumnRef) :
    Common N made (fun made d => d.var.Issued made) (SourceColumn.Stands (.all N))
      (QuerySignature.resolve scope c) (QuerySignature.resolve scope c) :=
  ⟨.resolve hs.beside c, .resolve_self hs.related c⟩

end Common

/-- The columns of a table, of which the variables have been made. -/
theorem SharedLevels.table {made : List TypeInfo} {columns : Level} (h : columns.Issued made) :
    SharedLevels N made (Scope.mk columns []).levels (Scope.mk columns []).levels :=
  .cons h (.refl N columns) (.nil N made)

theorem Before.start : Before N [] .start .start := .same .start

/-! ## Statements that write -/

namespace Passing.Leads

variable {made : List TypeInfo} {r : Run}

/-- Behind the columns of the table that a statement writes. -/
theorem ofTable {β γ : Type} {Q : β → γ → Prop} {table : String} {columns : Level} {s : Run}
    {next : Level → Analyze β} {next' : Level → Analyze γ}
    (htable : (tableColumns setting.schema table none).outcome .start = .ok (columns, s))
    (hnext : ∀ made, s.Sound made → columns.Issued made →
      p.Leads N Q s s (next columns) (next' columns)) :
    p.Leads N Q .start .start (tableColumns setting.schema table none >>= next)
      (tableColumns setting.schema table none >>= next') :=
  afterSame .start (.tableColumns setting.schema table) htable fun made _ => hnext made

/-- The columns that an INSERT writes are the same in both walks. -/
theorem ofTargets {β γ : Type} {Q : β → γ → Prop} {all : Level} {columns : List String}
    {next : Level → Analyze β} {next' : Level → Analyze γ} (hall : all.Issued made)
    (hnext : ∀ targets, targetColumns all columns = .ok targets → targets.Issued made →
      p.Leads N Q r r (next targets) (next' targets)) :
    p.Leads N Q r r (lift (targetColumns all columns) >>= next)
      (lift (targetColumns all columns) >>= next') := by
  cases htargets : targetColumns all columns with
  | error e =>
    intro _ _ hrun
    cases hrun
  | ok targets =>
    exact hnext targets htargets fun c hc => hall c (mem_of_targetColumns htargets c hc)

theorem ofGet {β γ : Type} {Q : β → γ → Prop} {r' : Run} {next : Run → Analyze β}
    {next' : Run → Analyze γ} (h : p.Leads N Q r r' (next r) (next' r')) :
    p.Leads N Q r r' (get >>= next) (get >>= next') :=
  h.congr rfl rfl

/-- A row of an INSERT with a comparison in one of its values. -/
theorem rowAt {targets : Level} {xs ys : List Expr} {after : List (List Expr)} {e e' : Expr}
    {is : List Inferred} {s : Run} (hr : r.Sound made) (htargets : targets.Issued made)
    (hxs : (inferAll setting .empty xs).outcome r = .ok (is, s))
    (hlead : (Counterparts.expr .empty e e').Lead p N s) (hrow : SpelledAll N (xs ++ e :: ys))
    (hafter : ∀ row ∈ after, SpelledAll N row) :
    p.Leads N Done r r (inferRows setting targets ((xs ++ e :: ys) :: after))
      (inferRows setting targets ((xs ++ e' :: ys) :: after)) := by
  have hlength : (xs ++ e' :: ys).length = (xs ++ e :: ys).length := by simp
  have hnothing : SharedLevels N made Scope.empty.levels Scope.empty.levels :=
    .cons (fun _ hc => absurd hc List.not_mem_nil) .nil (.nil N made)
  unfold inferRows
  rw [hlength]
  split
  · intro _ _ hrun
    cases hrun
  · have hbefore : Before N made r r := .same hr
    refine (Lead.all hxs hlead hbefore hnothing hrow).bind hbefore fun hmade es es' hes => ?_
    have hstands : targets.Stands (p.outlook N) targets :=
      (Level.Stands.refl N targets).narrow hmade htargets
    refine .bind ((p.outlook N).comparison.bindRow trivial hstands ?_) fun _ _ _ =>
      .rows hafter hstands
    exact List.rel_map (fun _ _ he => ⟨he.var, he.placeholder⟩) hes

/-- An INSERT with a comparison in one of its values. -/
theorem insertedValue {table : String} {columns : List String} {before : List (List Expr)}
    {xs ys : List Expr} {after : List (List Expr)} {e e' : Expr} {all targets : Level}
    {is : List Inferred} {s t : Run}
    (htable : (tableColumns setting.schema table none).outcome .start = .ok (all, r))
    (htargets : targetColumns all columns = .ok targets)
    (hbefore : (inferRows setting targets before).outcome r = .ok ((), s))
    (hxs : (inferAll setting .empty xs).outcome s = .ok (is, t))
    (hlead : (Counterparts.expr .empty e e').Lead p N t)
    (hrows : ∀ row ∈ before ++ (xs ++ e :: ys) :: after, SpelledAll N row) :
    p.Leads N Done .start .start
      (inferInsert setting table columns (.values (before ++ (xs ++ e :: ys) :: after)))
      (inferInsert setting table columns (.values (before ++ (xs ++ e' :: ys) :: after))) := by
  have hparts := List.forall_mem_append.1 hrows
  obtain ⟨hrow, hafter⟩ := List.forall_mem_cons.1 hparts.2
  refine .ofTable htable fun made hr hall => .ofTargets hall fun found hfound hissued => ?_
  obtain rfl : targets = found := Except.ok.inj (htargets.symm.trans hfound)
  dsimp only
  rw [inferRows_append, inferRows_append]
  refine .afterSame hr (.rows hparts.1 hissued) hbefore fun made₁ hgrows hs _ => ?_
  exact .rowAt hs (hissued.mono hgrows) hxs hlead hrow hafter

/-- An INSERT from a query with a comparison in it. -/
theorem insertedQuery {table : String} {columns : List String} {q q' : Select} {all : Level}
    (htable : (tableColumns setting.schema table none).outcome .start = .ok (all, r))
    (hlead : (Counterparts.query [] q q').Lead p N r) (hq : q.Spelled N) :
    p.Leads N Done .start .start (inferInsert setting table columns (.query q))
      (inferInsert setting table columns (.query q')) := by
  refine .ofTable htable fun made hr hall => .ofTargets hall fun targets _ hissued => ?_
  have hbefore : Before N made r r := .same hr
  refine (hlead _ _ _ hbefore (.nil N made) hq).bind hbefore fun hmade result result' hresult => ?_
  have hstands : targets.Stands (p.outlook N) targets :=
    (Level.Stands.refl N targets).narrow hmade hissued
  rw [← hresult.length_eq]
  split
  · exact .throw _ _
  · refine (p.outlook N).comparison.bindRow trivial hstands ?_
    exact List.rel_map (fun _ _ hc => ⟨hc.var, hc.placeholder⟩) hresult

/-- Assignments behind the columns of the table, with a comparison in the first value. -/
theorem assignedFirst {columns : Level} {column : String} {target : SourceColumn} {e e' : Expr}
    {ys : List Assignment} {t : Run} (hr : r.Sound made)
    (hs : SharedLevels N made (Scope.mk columns []).levels (Scope.mk columns []).levels)
    (htarget : (QuerySignature.resolve ⟨columns, []⟩ (.ofText column)).outcome r = .ok (target, t))
    (hlead : (Counterparts.expr ⟨columns, []⟩ e e').Lead p N t) (he : e.Spelled N)
    (hys : ∀ a ∈ ys, a.Spelled N) :
    p.Leads N Done r r (inferAssignments setting ⟨columns, []⟩ (⟨column, e⟩ :: ys))
      (inferAssignments setting ⟨columns, []⟩ (⟨column, e'⟩ :: ys)) := by
  refine .afterSame hr (.resolve hs (.ofText column)) htarget fun made₁ hgrows hr₁ hissued => ?_
  have hs₁ := hs.mono hgrows
  have hbefore : Before N made₁ t t := .same hr₁
  refine (hlead _ _ _ hbefore hs₁ he).bind hbefore fun hmade value value' hvalue => ?_
  have hstands : target.Stands (p.outlook N) target :=
    (SourceColumn.Stands.refl N target).narrow hmade hissued
  exact .assign hstands hvalue _ _ (.assignments hys (hs₁.narrowScope hmade))

/-- An UPDATE with a comparison in one of the values that it assigns. -/
theorem updatedValue {table : String} {xs ys : List Assignment} {column : String}
    {criteria : Option Expr} {e e' : Expr} {columns : Level} {target : SourceColumn} {s t : Run}
    (htable : (tableColumns setting.schema table none).outcome .start = .ok (columns, r))
    (hxs : (inferAssignments setting ⟨columns, []⟩ xs).outcome r = .ok ((), s))
    (htarget : (QuerySignature.resolve ⟨columns, []⟩ (.ofText column)).outcome s = .ok (target, t))
    (hlead : (Counterparts.expr ⟨columns, []⟩ e e').Lead p N t)
    (hassignments : ∀ a ∈ xs ++ ⟨column, e⟩ :: ys, a.Spelled N) (hcriteria : SpelledSome N criteria) :
    p.Leads N Done .start .start (inferUpdate setting table (xs ++ ⟨column, e⟩ :: ys) criteria)
      (inferUpdate setting table (xs ++ ⟨column, e'⟩ :: ys) criteria) := by
  have hparts := List.forall_mem_append.1 hassignments
  obtain ⟨hassignment, hys⟩ := List.forall_mem_cons.1 hparts.2
  refine .ofTable htable fun made hr hcolumns => ?_
  dsimp only
  rw [inferAssignments_append, inferAssignments_append, bind_assoc, bind_assoc]
  have hs := SharedLevels.table (N := N) hcolumns
  refine .afterSame hr (.assignments hparts.1 hs) hxs fun made₁ hgrows hr₁ _ => ?_
  have hs₁ := hs.mono hgrows
  have hbefore : Before N made₁ s s := .same hr₁
  refine (assignedFirst hr₁ hs₁ htarget hlead hassignment.2 hys).bind hbefore
    fun hmade _ _ _ => .bind .get fun _ _ _ => ?_
  refine .bind (.some setting criteria hcriteria (hs₁.narrowScope hmade)) fun _ _ _ => ?_
  exact .pure trivial

/-- An UPDATE with a comparison in its criteria. -/
theorem updatedCriteria {table : String} {assignments : List Assignment} {e e' : Expr}
    {columns : Level} {s : Run}
    (htable : (tableColumns setting.schema table none).outcome .start = .ok (columns, r))
    (has : (inferAssignments setting ⟨columns, []⟩ assignments).outcome r = .ok ((), s))
    (hlead : (Counterparts.expr ⟨columns, []⟩ e e').Lead p N s)
    (hassignments : ∀ a ∈ assignments, a.Spelled N) (he : e.Spelled N) :
    p.Leads N Done .start .start (inferUpdate setting table assignments (some e))
      (inferUpdate setting table assignments (some e')) := by
  refine .ofTable htable fun made hr hcolumns => ?_
  have hs := SharedLevels.table (N := N) hcolumns
  refine .afterSame hr (.assignments hassignments hs) has fun made₁ hgrows hr₁ _ => ?_
  have hbefore : Before N made₁ s s := .same hr₁
  refine .ofGet (Passing.Leads.bind (R := Done) hbefore ?_ fun _ _ _ _ => .pure trivial)
  exact (hlead _ _ _ hbefore (hs.mono hgrows) he).bind hbefore fun _ _ _ _ => .pure trivial

/-- A DELETE with a comparison in its criteria. -/
theorem deletedCriteria {table : String} {e e' : Expr} {columns : Level}
    (htable : (tableColumns setting.schema table none).outcome .start = .ok (columns, r))
    (hlead : (Counterparts.expr ⟨columns, []⟩ e e').Lead p N r) (he : e.Spelled N) :
    p.Leads N Done .start .start (inferDelete setting table (some e))
      (inferDelete setting table (some e')) := by
  refine .ofTable htable fun made hr hcolumns => ?_
  have hbefore : Before N made r r := .same hr
  refine Passing.Leads.bind (R := Done) hbefore ?_ fun _ _ _ _ => .pure trivial
  exact (hlead _ _ _ hbefore (.table hcolumns) he).bind hbefore fun _ _ _ _ => .pure trivial

/-- A statement that writes has no columns. -/
theorem written {α β : Type} {step : Analyze α} {step' : Analyze β} {f : α → Analysis}
    {f' : β → Analysis} (hcolumns : ∀ a b, QueryResult.Stands (p.outlook N) (f a).query (f' b).query)
    (h : p.Leads N Done .start .start step step') :
    p.Leads N (fun a a' => QueryResult.Stands (p.outlook N) a.query a'.query) .start .start
      (step >>= fun a => pure (f a)) (step' >>= fun b => pure (f' b)) :=
  h.bind .start fun _ a b _ => .pure (hcolumns a b)

end Passing.Leads

/-- Walks over two statements that differ in the sides of one comparison lead past it, and find columns
that stand for one another. -/
theorem MirroredStatement.leads {st st' : Statement} (h : MirroredStatement N p st st')
    (hst : st.Spelled N) :
    p.Leads N (fun a a' => QueryResult.Stands (p.outlook N) a.query a'.query) .start .start
      (inferStatement setting st) (inferStatement setting st') := by
  cases h with
  | select h =>
    refine (h.lead _ _ _ .start (.nil N []) hst).bind .start fun _ _ _ hresult => ?_
    exact .pure hresult
  | value ys after htable htargets hbefore hxs h =>
    exact .written (fun _ _ => .nil)
      (.insertedValue htable htargets hbefore hxs h.lead hst.2.2)
  | rows columns htable h =>
    exact .written (fun _ _ => .nil) (.insertedQuery htable h.lead hst.2.2)
  | assigned ys criteria htable hxs htarget h =>
    exact .written (fun _ _ => .nil)
      (.updatedValue htable hxs htarget h.lead hst.2.1 hst.2.2)
  | updated htable has h =>
    exact .written (fun _ _ => .nil) (.updatedCriteria htable has h.lead hst.2.1 hst.2.2)
  | deleted htable h =>
    exact .written (fun _ _ => .nil) (.deletedCriteria htable h.lead hst.2)

end QuerySignature
