import QuerySignature.Proofs.Pinned.Asked
import QuerySignature.Proofs.Pinned.Walk
import QuerySignature.Proofs.Solver.Interleaving

namespace QuerySignature

/-! # The types of compared placeholders

A placeholder that is compared with a column of a table is described with the type that the column is
declared with, and as not null, at any depth of a statement and whatever else it holds. The constraint
of the comparison is solved as if it were the only one.

- `infoOf_of_pinned`: a solution gives a pinned placeholder the type that it is pinned to.
- `collects_of_statement`: the walk over a statement pins the placeholders that the text shows.
- `describe_pins`: a description gives compared placeholders the types of their columns.
-/

/-! ## The solution of a pin -/

/-- A constraint among others, which are solved beside it. -/
theorem interleaved_singleton {α : Type} (x : α) (before after : List α) :
    Interleaved [x] (before ++ after) (before ++ x :: after) := by
  have hafter : Interleaved after [] after := by
    have hall := Interleaved.nil.append_left after
    rwa [List.append_nil] at hall
  exact ((Interleaved.left hafter.symm).symm.append_left before).symm

/-- One strict constraint equates its two variables, and gives them one type. -/
theorem equate_of_strict {profile : Profile} {label : String} {x y : TypeVar} (hne : x.id ≠ y.id)
    {solution : Solution} (hsolve : solve profile [.strict label (.var x) (.var y)] = .ok solution) :
    ∃ info, TypeInfo.equate x.info y.info = some info ∧ solution.infoOf x = info ∧
      solution.infoOf y = info := by
  let initial : Nat → TypeInfo := fun id => if id = x.id then x.info else y.info
  have hx : x.Carries initial := (if_pos rfl).symm
  have hy : y.Carries initial := (if_neg hne.symm).symm
  have hsteps : ∀ step ∈ equationsOf [.strict label (.var x) (.var y)], step.Carries initial := by
    intro step hstep
    rw [List.mem_singleton.1 hstep]
    exact ⟨hx, hy⟩
  obtain ⟨s, hrun, hinfo⟩ := exists_classes hsteps hsolve
  have hrun : ((Classes.start initial).merge profile
      (.strict label (.var x) (.var y), x, y)).bind (fun t => .ok t) = .ok s := hrun
  unfold Classes.merge Classes.start at hrun
  simp only [id, if_neg hne, Constraint.strict, TypeInfo.merge?] at hrun
  rw [← hx, ← hy] at hrun
  cases hmerge : TypeInfo.equate x.info y.info with
  | none =>
    rw [hmerge] at hrun
    cases hrun
  | some info =>
    -- the one equation puts the two variables into one class
    have hjoin : s = (Classes.start initial).join x.id y.id info := by
      simp only [hmerge, ok_bind, Except.ok.injEq] at hrun
      exact hrun.symm
    refine ⟨info, rfl, ?_, ?_⟩
    · rw [hinfo x hx, hjoin, Classes.infoOf_join, if_pos (.inl rfl)]
    · rw [hinfo y hy, hjoin, Classes.infoOf_join, if_pos (.inr rfl)]

section

variable {profile : Profile} {v w : TypeVar} {type : SqlType} {tie : Constraint} {solution : Solution}

/-- A placeholder and a column of a table that one comparison equates. -/
theorem infoOf_of_tie (h : Ties v w tie) (hv : v.info = .unknown) (hw : w.info = .exact type)
    (hne : v.id ≠ w.id) (hsolve : solve profile [tie] = .ok solution) :
    solution.infoOf v = .exact type := by
  cases h with
  | left label =>
    obtain ⟨info, hequate, hinfo, -⟩ := equate_of_strict hne hsolve
    rw [hv, hw] at hequate
    rw [hinfo]
    exact (Option.some.inj hequate).symm
  | right label =>
    obtain ⟨info, hequate, -, hinfo⟩ := equate_of_strict hne.symm hsolve
    rw [hv, hw] at hequate
    rw [hinfo]
    exact (Option.some.inj hequate).symm

theorem compatible_of_equate {a b : SqlType} {info : TypeInfo}
    (h : TypeInfo.equate (.exact a) (.exact b) = some info) : a.compatible b = true := by
  by_contra hnot
  rw [TypeInfo.equate, if_neg hnot] at h
  cases h

/-- Two types that are equated are compatible. -/
theorem compatible_of_tie (h : Ties v w tie) {type' : SqlType} (hv : v.info = .exact type')
    (hw : w.info = .exact type) (hne : v.id ≠ w.id) (hsolve : solve profile [tie] = .ok solution) :
    type.compatible type' = true := by
  cases h with
  | left label =>
    obtain ⟨info, hequate, -⟩ := equate_of_strict hne hsolve
    rw [hv, hw] at hequate
    exact SqlType.compatible_symm (compatible_of_equate hequate)
  | right label =>
    obtain ⟨info, hequate, -⟩ := equate_of_strict hne.symm hsolve
    rw [hv, hw] at hequate
    exact compatible_of_equate hequate

end

/-- Two tied variables are solved as if there were nothing but their tie. -/
theorem solve_of_tied {profile : Profile} {constraints : List Constraint} {v w : TypeVar}
    (h : Tied constraints v w) {solution : Solution}
    (hsolve : solve profile constraints = .ok solution) :
    ∃ tie alone, Ties v w tie ∧ solve profile [tie] = .ok alone ∧
      solution.infoOf v = alone.infoOf v := by
  obtain ⟨before, tie, after, hsplit, htie, -, hrest⟩ := h
  rw [← solve_split, hsplit] at hsolve
  -- nothing but the tie speaks of the two variables
  have hmixed := interleaved_singleton tie before after
  have hapart : Unrelated [tie] (before ++ after) := by
    intro x hx u hu
    have hends : x = v ∨ x = w := by
      cases htie with
      | left label => exact List.mem_pair.1 hx
      | right label => exact (List.mem_pair.1 hx).symm
    rcases hends with rfl | rfl
    · exact (hrest u hu).1.symm
    · exact (hrest u hu).2.symm
  have hok := (solve_interleaved_isOk_iff profile hmixed hapart).1 (by rw [hsolve]; rfl)
  obtain ⟨alone, halone⟩ := exists_of_isOk hok.1
  have hunmentioned : ¬ Mentions (before ++ after) v.id := fun ⟨u, hu, heq⟩ => (hrest u hu).1 heq
  exact ⟨tie, alone, htie, halone, infoOf_interleaved hmixed hapart hsolve halone hunmentioned⟩

/-- A solution gives a pinned placeholder the type that it is pinned to. -/
theorem infoOf_of_pinned {profile : Profile} {own : Nat → Prop} {constraints : List Constraint}
    {v : TypeVar} {type : SqlType} (h : Pinned own constraints v type) {solution : Solution}
    (hsolve : solve profile constraints = .ok solution) : solution.infoOf v = .exact type := by
  obtain ⟨w, htied, hv, hw, -, -⟩ := h
  obtain ⟨tie, alone, htie, halone, hinfo⟩ := solve_of_tied htied hsolve
  rw [hinfo]
  exact infoOf_of_tie htie hv hw htied.ne halone

/-! ## Statements -/

/-- Nothing may be spoken of where nothing has been made. -/
abbrev Nothing : Nat → Prop := fun _ => False

namespace Local

variable {V : Nat → Prop} {known : List (String × Level)} {setting : Setting}

/-- Values go to columns of tables, which they speak of by their types alone. -/
theorem bindTargets {targets : Level} (htargets : ∀ c ∈ targets, c.var.projected = true → V c.var.id)
    (values : List Written) :
    Local V known (QuerySignature.bindTargets targets values) []
      fun W vars => ∀ v ∈ vars, W v.id := by
  induction targets generalizing V values with
  | nil => exact pure fun v hv => absurd hv List.not_mem_nil
  | cons target targets ih =>
    cases values with
    | nil => exact pure fun v hv => absurd hv List.not_mem_nil
    | cons value values =>
      refine (reference (htargets target List.mem_cons_self)).behind fun W v hVW hv => ?_
      refine after (.matchNull _ _) fun _ => ?_
      have hrest : ∀ c ∈ targets, c.var.projected = true → W c.var.id := fun c hc hprojected =>
        hVW _ (htargets c (List.mem_cons_of_mem _ hc) hprojected)
      refine (ih hrest values).behind fun X vars hWX hvars => pure ?_
      exact List.forall_mem_cons.2 ⟨hWX _ hv, hvars⟩

theorem bindRow (label : String) {targets : Level}
    (htargets : ∀ c ∈ targets, c.var.projected = true → V c.var.id) {values : List Written}
    (hvalues : ∀ v ∈ values, V v.var.id) :
    Local V known (QuerySignature.bindRow label targets values) [] Unread := by
  refine (bindTargets htargets values).behind fun W vars hVW hvars => unread (.demand ?_)
  refine .rows _ hvars fun v hv => ?_
  obtain ⟨value, hvalue, rfl⟩ := List.mem_map.1 hv
  exact hVW _ (hvalues value hvalue)

theorem rows (rows : List (List Expr)) {targets : Level}
    (htargets : ∀ c ∈ targets, c.var.projected = true → V c.var.id) :
    Local V known (inferRows setting targets rows)
      (rows.flatMap (pinsOfAll setting.schema known .empty)) Unread := by
  induction rows generalizing V with
  | nil => exact pure trivial
  | cons row rest ih =>
    rw [List.flatMap_cons]
    unfold inferRows
    split
    · exact throw _
    · refine (all setting row ⟨.nil, .nil⟩).bind fun W as hVW has => ?_
      have hrow : ∀ v ∈ as.map fun a => (⟨a.var, a.placeholder⟩ : Written), W v.var.id := by
        intro v hv
        obtain ⟨a, ha, rfl⟩ := List.mem_map.1 hv
        exact has a ha
      have htargets₁ := fun c hc hprojected => hVW _ (htargets c hc hprojected)
      refine (bindRow _ htargets₁ hrow).behind fun X _ hWX _ => ?_
      exact ih fun c hc hprojected => hWX _ (htargets₁ c hc hprojected)

theorem assignments (as : List Assignment) {scope₀ scope : Scope} (hs : scope₀.Shown V scope) :
    Local V known (inferAssignments setting scope as)
      (as.flatMap fun a => a.value.pins setting.schema known scope₀) Unread := by
  induction as generalizing V with
  | nil => exact pure trivial
  | cons a rest ih =>
    rw [List.flatMap_cons]
    refine (resolve hs _).behind fun W target hVW ⟨_, htarget⟩ => ?_
    refine (expr setting a.value (hs.mono hVW)).bind fun X value hWX hvalue => ?_
    have hlive := fun hprojected => hWX _ (htarget.live hprojected)
    refine (reference hlive).behind fun Y v hXY hv => ?_
    refine after (.demand (.strict _ hv (hXY _ hvalue))) fun _ => after (.matchNull _ _) fun _ => ?_
    exact ih (((hs.mono hVW).mono hWX).mono hXY)

/-- What needs no run hands on what it finds. -/
theorem lift {α : Type} {x : Except AnalysisError α} {P : (Nat → Prop) → α → Prop}
    (h : ∀ a, x = .ok a → P V a) : Local V known (QuerySignature.lift x) [] P := by
  cases hx : x with
  | error e => exact throw e
  | ok a => exact pure (h a hx)

theorem insert (setting : Setting) (table : String) (columns : List String) (rows : InsertRows) :
    Local V [] (inferInsert setting table columns rows)
      ((Statement.insert table columns rows).pins setting.schema) Unread := by
  refine (tableColumns setting.schema table none).behind fun W all _ hall => ?_
  have htargets : ∀ targets, targetColumns all columns = .ok targets →
      ∀ c ∈ targets, c.var.projected = true → W c.var.id := by
    intro targets hfound c hc
    obtain ⟨c₀, -, hshown⟩ := exists_partner hall (mem_of_targetColumns hfound c hc)
    exact hshown.live
  have hbound : Local W [] (QuerySignature.lift (targetColumns all columns)) []
      fun X targets => ∀ c ∈ targets, c.var.projected = true → X c.var.id := lift htargets
  refine hbound.behind fun X targets _ htargets => ?_
  cases rows with
  | values rows => exact Local.rows rows htargets
  | query q =>
    refine (query setting q .nil).before fun Y result hXY hresult => ?_
    dsimp only
    split
    · exact throw _
    · have htargets := fun c hc hprojected => hXY _ (htargets c hc hprojected)
      refine bindRow _ htargets fun v hv => ?_
      obtain ⟨c, hc, rfl⟩ := List.mem_map.1 hv
      obtain ⟨name, -, hshown⟩ := exists_partner hresult hc
      exact hshown.live

theorem update (setting : Setting) (table : String) (as : List Assignment) (criteria : Option Expr) :
    Local V [] (inferUpdate setting table as criteria)
      ((Statement.update table as criteria).pins setting.schema) Unread := by
  refine (tableColumns setting.schema table none).behind fun W columns _ hcolumns => ?_
  have hs : Scope.Shown W ⟨tableLevel setting.schema [] table "", []⟩ ⟨columns, []⟩ :=
    ⟨hcolumns, .nil⟩
  refine (assignments as hs).bind fun X _ hWX _ => ?_
  have hread : Still X (get : Analyze Run) := by
    intro r a s hrun
    cases hrun
    refine ⟨rfl, rfl, rfl, [], (List.append_nil _).symm, ?_⟩
    exact fun u hu => absurd hu List.not_mem_nil
  exact after hread fun _ =>
    (option setting criteria (hs.mono hWX)).before fun _ _ _ _ => pure trivial

theorem delete (setting : Setting) (table : String) (criteria : Option Expr) :
    Local V [] (inferDelete setting table criteria)
      ((Statement.delete table criteria).pins setting.schema) Unread :=
  (tableColumns setting.schema table none).behind fun _ _ _ hcolumns =>
    (option setting criteria ⟨hcolumns, .nil⟩).before fun _ _ _ _ => pure trivial

/-- A statement collects its placeholders. -/
theorem statement (setting : Setting) (s : Statement) :
    Local V [] (inferStatement setting s) (s.pins setting.schema) Unread := by
  cases s with
  | select q => exact (query setting q .nil).before fun _ _ _ _ => pure trivial
  | insert table columns rows =>
    exact (insert setting table columns rows).before fun _ _ _ _ => pure trivial
  | update table as criteria =>
    exact (update setting table as criteria).before fun _ _ _ _ => pure trivial
  | delete table criteria =>
    exact (delete setting table criteria).before fun _ _ _ _ => pure trivial

end Local

/-- The walk over a statement pins the placeholders that the text shows. -/
theorem collects_of_statement {setting : Setting} {s : Statement} {analysis : Analysis} {run : Run}
    (h : (inferStatement setting s).outcome .start = .ok (analysis, run)) :
    ∃ W, Collects Nothing W .start run (s.pins setting.schema) := by
  obtain ⟨W, hcollects, -⟩ := Local.statement setting s .start analysis run .nil h
  exact ⟨W, hcollects⟩

/-! ## Descriptions -/

/-- A described placeholder is as the column of a table that it is compared with, if there is one: it
has the type of that column, and is not null. -/
def Pins (pin : Option SqlType) (p : ResultParameter) : Prop :=
  ∀ type, pin = some type → p.type = type ∧ p.notNull = true

/-- The placeholders that a whole walk has collected have the types that they are pinned to. -/
theorem typeOf_of_collects {profile : Profile} {W : Nat → Prop} {run : Run}
    {pins : List (Option SqlType)} (h : Collects Nothing W .start run pins) {solution : Solution}
    (hsolve : solve profile run.constraints = .ok solution) :
    List.Forall₂ (fun pin v => ∀ type, pin = some type → solution.typeOf profile v = type) pins
      run.vars := by
  obtain ⟨collected, hreaches, hpins, hvars⟩ := h
  obtain ⟨added, hadded, -, hpinned⟩ := hreaches.constraints
  have hconstraints : run.constraints = added := hadded
  have hempty : ∀ id, Nothing id → id ≤ Run.start.issued := fun id hid => hid.elim
  rw [← hpins, hvars, List.forall₂_map_left_iff]
  refine List.forall₂_map_right_iff.2 (List.forall₂_same.2 fun entry hentry type hpin => ?_)
  have hinfo := infoOf_of_pinned (hpinned hempty entry.1 type (hpin ▸ hentry)) (hconstraints ▸ hsolve)
  unfold Solution.typeOf
  rw [hinfo]

/-- A placeholder that is compared with a column of a table is described with the type that the column
is declared with, and as not null, in whatever statement it stands, and wherever. -/
theorem describe_pins {setting : Setting} {s : Statement} {d : Description}
    (h : describe setting s = .ok d) :
    List.Forall₂ Pins (s.pins setting.schema) (d.data ++ d.parameters) := by
  obtain ⟨analysis, run, solution, hwalk, hsolve, hall⟩ := placeholders_of_described h
  obtain ⟨W, hcollects⟩ := collects_of_statement hwalk
  -- the types come from the constraints that have been collected, the rest from the text
  have htypes := typeOf_of_collects hcollects hsolve
  have hasked := asked_of_statement hwalk
  unfold Run.vars at htypes
  unfold Run.marks at hasked
  rw [List.forall₂_map_right_iff] at htypes hasked
  rw [hall]
  refine rel_zipIdx (fun pin p index hp => ?_)
    (htypes.mp (fun pin p htype hask => And.intro htype hask) hasked) 0
  intro type hpin
  exact ⟨hp.1 type hpin, hp.2 (hpin ▸ rfl)⟩

/-- A table of names. -/
def nameTable : Schema :=
  .ofRecords [⟨"names", "id", .int, .primary, true⟩, ⟨"names", "name", .varchar, .plain, false⟩]

/-- `SELECT ? AS a FROM names AS t WHERE EXISTS (SELECT u.id FROM names AS u
WHERE u.name = (?) AND ? < t.id)`. -/
def idsAbove : Select :=
  ⟨[], [⟨false, [.expr (.parameter none) (some "a")], [.table "names" (some "t")], [],
    some (.hasRows ⟨[], [⟨false, [.expr (.column ⟨some "u", "id"⟩) none],
      [.table "names" (some "u")], [],
      some (.and (.compare .eq (.column ⟨some "u", "name"⟩) (.paren (.parameter none)))
        (.compare .lt (.parameter none) (.column ⟨some "t", "id"⟩))), [], none⟩], [], none⟩),
    [], none⟩], [], none⟩

/-- Two placeholders of an inner query are compared, one with a column of the query around it. -/
theorem describe_pins_idsAbove :
    ∃ d, describe ⟨nameTable, .mysql⟩ (.select idsAbove) = .ok d ∧
      List.Forall₂ Pins [none, some .varchar, some .int] (d.data ++ d.parameters) := by
  have hd : (describe ⟨nameTable, .mysql⟩ (.select idsAbove)).isOk = true := by decide +kernel
  obtain ⟨d, hd⟩ := exists_of_isOk hd
  have hpinned := describe_pins hd
  have hpins : (Statement.select idsAbove).pins nameTable = [none, some .varchar, some .int] := by
    decide +kernel
  rw [hpins] at hpinned
  exact ⟨d, hd, hpinned⟩

end QuerySignature
