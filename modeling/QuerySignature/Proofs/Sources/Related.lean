import QuerySignature.Analysis.Query
import QuerySignature.Proofs.Alike

namespace QuerySignature

/-! # Related scopes

Two scopes may hold columns that differ in their variables, or in the table that they come from, and
still mean the same by every reference. What counts is that the columns stand at the same places, and
that no name tells the two at a place apart.

- `Scope.Related.resolve`: a reference means related columns, or fails for the same reason.
- `NamedAlike.provesNotNull`: a criterion proves related columns not null.
-/

theorem resolve_eq_lift (scope : Scope) (c : ColumnRef) :
    resolve scope c = lift (scope.resolve c) := by
  unfold resolve lift
  cases scope.resolve c <;> rfl

/-- Columns in a relation have the same name and are visible under the same table. -/
structure NamedAlike (R : SourceColumn → SourceColumn → Prop) : Prop where
  name : ∀ {c c'}, R c c' → c'.name = c.name
  visibleTable : ∀ {c c'}, R c c' → c'.visibleTable = c.visibleTable

/-- Two scopes with related columns at the same places. -/
structure Scope.Related (R : SourceColumn → SourceColumn → Prop) (s s' : Scope) : Prop where
  columns : List.Forall₂ R s.columns s'.columns
  outer : List.Forall₂ (List.Forall₂ R) s.outer s'.outer

namespace NamedAlike

variable {R : SourceColumn → SourceColumn → Prop} {c c' d d' : SourceColumn} {l l' : Level}

theorem isOf (hR : NamedAlike R) (h : R c c') (table : String) : c'.isOf table = c.isOf table := by
  unfold SourceColumn.isOf
  rw [hR.visibleTable h]

theorem qualifiedName (hR : NamedAlike R) (h : R c c') : c'.qualifiedName = c.qualifiedName := by
  unfold SourceColumn.qualifiedName
  rw [hR.visibleTable h, hR.name h]

theorem sameAs (hR : NamedAlike R) (h : R c c') (h' : R d d') : c'.sameAs d' = c.sameAs d := by
  unfold SourceColumn.sameAs
  rw [hR.visibleTable h, hR.name h, hR.visibleTable h', hR.name h']

theorem filter (h : List.Forall₂ R l l') {p : SourceColumn → Bool}
    (hp : ∀ c c', R c c' → p c' = p c) : List.Forall₂ R (l.filter p) (l'.filter p) :=
  List.rel_filter (fun c c' hc => by simp only [hp c c' hc]) h

theorem answers (hR : NamedAlike R) (h : List.Forall₂ R l l') (c : ColumnRef) :
    List.Forall₂ R (Level.answers l c) (Level.answers l' c) := by
  refine filter h fun d d' hd => ?_
  unfold SourceColumn.answers
  rw [hR.name hd, hR.isOf hd]

/-- A reference means related columns in the innermost level that has one, or is as ambiguous. -/
theorem resolveIn (hR : NamedAlike R) {levels levels' : List Level}
    (h : List.Forall₂ (List.Forall₂ R) levels levels') (c : ColumnRef) :
    Option.Rel (Alike R) (QuerySignature.resolveIn c levels)
      (QuerySignature.resolveIn c levels') := by
  induction h with
  | nil => exact .none
  | @cons l l' rest rest' hl _ ih =>
    unfold QuerySignature.resolveIn
    have hanswers := hR.answers hl c
    generalize Level.answers l c = found, Level.answers l' c = found' at hanswers
    cases hanswers with
    | nil => exact ih
    | @cons first first' others others' hfirst hothers =>
      have hone : (others'.all fun other => other.sameAs first') =
          others.all fun other => other.sameAs first :=
        all_eq_of_rel hothers fun _ _ hother => hR.sameAs hother hfirst
      have hnames : ((first' :: others').map fun column => (column.visibleTable, column.name)) =
          (first :: others).map fun column => (column.visibleTable, column.name) :=
        map_eq_of_rel (.cons hfirst hothers) fun _ _ hc => by rw [hR.visibleTable hc, hR.name hc]
      simp only [hone, hnames]
      split
      · exact .some hfirst
      · exact .some rfl

end NamedAlike

namespace Scope.Related

variable {R : SourceColumn → SourceColumn → Prop} {s s' : Scope}

theorem levels (h : s.Related R s') : List.Forall₂ (List.Forall₂ R) s.levels s'.levels :=
  .cons h.columns h.outer

theorem hasTable (h : s.Related R s') (hR : NamedAlike R) (table : String) :
    s'.hasTable table = s.hasTable table :=
  any_eq_of_rel h.levels fun _ _ hl => any_eq_of_rel hl fun _ _ hc => hR.isOf hc table

theorem candidates (h : s.Related R s') (hR : NamedAlike R) (c : ColumnRef) :
    s'.candidates c = s.candidates c :=
  map_eq_of_rel (NamedAlike.filter h.columns fun _ _ hd => by rw [hR.isOf hd])
    fun _ _ hd => hR.qualifiedName hd

/-- A reference means related columns, or fails for the same reason. -/
theorem resolve (h : s.Related R s') (hR : NamedAlike R) (c : ColumnRef) :
    Alike R (s.resolve c) (s'.resolve c) := by
  have hmeaning := hR.resolveIn h.levels c
  unfold Scope.resolve
  rw [h.hasTable hR, h.candidates hR]
  generalize resolveIn c s.levels = found, resolveIn c s'.levels = found' at hmeaning
  cases hmeaning with
  | some halike => exact halike
  | none =>
    dsimp only
    split
    · exact rfl
    · exact rfl

end Scope.Related

/-! ## Where all references mean related columns -/

section

variable {R : SourceColumn → SourceColumn → Prop} {s s' : Scope}

/-- An expression is related columns, if it is a column. -/
theorem columnOf?_related (hmeans : ∀ c, Alike R (s.resolve c) (s'.resolve c)) (e : Expr) :
    Option.Rel R (s.columnOf? e) (s'.columnOf? e) := by
  unfold Scope.columnOf? Scope.lookup?
  cases e.column? with
  | none => exact .none
  | some c =>
    have hmeaning := hmeans c
    dsimp only [Option.bind_some]
    cases hc : s.resolve c with
    | error reason =>
      rw [hmeaning.of_error hc]
      exact .none
    | ok column =>
      rcases hmeaning.of_ok hc with ⟨column', hc', hcolumn⟩
      rw [hc']
      exact .some hcolumn

namespace NamedAlike

theorem refersTo (hR : NamedAlike R) (hmeans : ∀ c, Alike R (s.resolve c) (s'.resolve c))
    {c c' : SourceColumn} (hc : R c c') (e : Expr) : s'.refersTo c' e = s.refersTo c e := by
  have hcolumn := columnOf?_related hmeans e
  unfold Scope.refersTo
  generalize s.columnOf? e = found, s'.columnOf? e = found' at hcolumn
  cases hcolumn with
  | none => rfl
  | some hfound => exact hR.sameAs hfound hc

/-- A criterion proves related columns not null. -/
theorem provesNotNull (hR : NamedAlike R) (hmeans : ∀ c, Alike R (s.resolve c) (s'.resolve c))
    {c c' : SourceColumn} (hc : R c c') (e : Expr) :
    s'.provesNotNull c' e = s.provesNotNull c e := by
  fun_induction Scope.provesNotNull s c e with
  | case1 inner ih => simp [Scope.provesNotNull, ih]
  | case2 left right ihl ihr => simp [Scope.provesNotNull, ihl, ihr]
  | case3 left right ihl ihr => simp [Scope.provesNotNull, ihl, ihr]
  | case4 op left right => simp [Scope.provesNotNull, hR.refersTo hmeans hc]
  | case5 value => simp [Scope.provesNotNull, hR.refersTo hmeans hc]
  | case6 e h1 h2 h3 h4 h5 => simp [Scope.provesNotNull]

end NamedAlike

end

end QuerySignature
