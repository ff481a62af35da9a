import QuerySignature.Analysis.Query
import QuerySignature.Proofs.Sources.Related

namespace QuerySignature

/-! # Renumbered variables

Two walks over one text make the same variables, but may have made different ones before, so that
the numbers of the second walk are ahead by a shift. What the second walk sees and finds is what
the first one does, with its variables renumbered.

- `LevelsMatch.resolve`: a reference means the same column in renumbered levels; levels without
  columns make no difference.
- `Scope.Matches.provesNotNull`: a criterion proves the same columns not null.
-/

/-- Numbers up to `kept` stay, later ones are shifted. -/
structure Renaming where
  kept : Nat
  shift : Nat

namespace Renaming

/-- The number of a variable in the second walk. -/
def apply (ρ : Renaming) (id : Nat) : Nat := if id ≤ ρ.kept then id else id + ρ.shift

/-- A variable in the second walk. -/
def var (ρ : Renaming) (v : TypeVar) : TypeVar := { v with id := ρ.apply v.id }

/-- A column in the second walk. -/
def column (ρ : Renaming) (c : SourceColumn) : SourceColumn := { c with var := ρ.var c.var }

/-- A level in the second walk. -/
def level (ρ : Renaming) (l : Level) : Level := l.map ρ.column

/-- Without a shift nothing is renumbered. -/
theorem var_of_shift_zero (kept : Nat) (v : TypeVar) : (Renaming.mk kept 0).var v = v := by
  simp [var, apply]

theorem var_of_le {ρ : Renaming} {v : TypeVar} (h : v.id ≤ ρ.kept) : ρ.var v = v := by
  simp [var, apply, h]

theorem column_of_le {ρ : Renaming} {c : SourceColumn} (h : c.var.id ≤ ρ.kept) :
    ρ.column c = c := by
  simp [column, var_of_le h]

theorem level_of_le {ρ : Renaming} {l : Level} (h : ∀ c ∈ l, c.var.id ≤ ρ.kept) :
    ρ.level l = l := by
  unfold level
  conv_rhs => rw [← List.map_id l]
  exact List.map_congr_left fun c hc => column_of_le (h c hc)

@[simp] theorem column_name (ρ : Renaming) (c : SourceColumn) : (ρ.column c).name = c.name := rfl

@[simp] theorem column_notNull (ρ : Renaming) (c : SourceColumn) :
    (ρ.column c).notNull = c.notNull := rfl

@[simp] theorem column_visibleTable (ρ : Renaming) (c : SourceColumn) :
    (ρ.column c).visibleTable = c.visibleTable := rfl

@[simp] theorem column_qualifiedName (ρ : Renaming) (c : SourceColumn) :
    (ρ.column c).qualifiedName = c.qualifiedName := rfl

@[simp] theorem column_isOf (ρ : Renaming) (c : SourceColumn) (table : String) :
    (ρ.column c).isOf table = c.isOf table := rfl

@[simp] theorem column_answers (ρ : Renaming) (c : SourceColumn) (qualifier name : String) :
    (ρ.column c).answers qualifier name = c.answers qualifier name := rfl

@[simp] theorem column_sameAs (ρ : Renaming) (c d : SourceColumn) :
    (ρ.column c).sameAs (ρ.column d) = c.sameAs d := rfl

@[simp] theorem level_isEmpty (ρ : Renaming) (l : Level) : (ρ.level l).isEmpty = l.isEmpty := by
  simp [level]

theorem level_filter (ρ : Renaming) (l : Level) (p : SourceColumn → Bool)
    (hp : ∀ c, p (ρ.column c) = p c) : (ρ.level l).filter p = ρ.level (l.filter p) := by
  unfold level
  rw [List.filter_map]
  exact congrArg _ (List.filter_congr fun c _ => hp c)

theorem level_append (ρ : Renaming) (l m : Level) : ρ.level (l ++ m) = ρ.level l ++ ρ.level m := by
  simp [level]

end Renaming

/-! ## Variables that have been made -/

/-- A variable is one of those that have been made, and carries the type that it was made with. -/
def TypeVar.Issued (made : List TypeInfo) (v : TypeVar) : Prop :=
  0 < v.id ∧ made[v.id - 1]? = some v.info

/-- Every column of a level has a variable that has been made. -/
def Level.Issued (made : List TypeInfo) (l : Level) : Prop := ∀ c ∈ l, c.var.Issued made

theorem TypeVar.Issued.mono {made made' : List TypeInfo} {v : TypeVar} (h : v.Issued made)
    (hgrows : made <+: made') : v.Issued made' := by
  rcases hgrows with ⟨later, rfl⟩
  refine ⟨h.1, ?_⟩
  have hlt : v.id - 1 < made.length := by
    rcases List.getElem?_eq_some_iff.1 h.2 with ⟨hlt, _⟩
    exact hlt
  rw [List.getElem?_append_left hlt]
  exact h.2

theorem TypeVar.Issued.le {made : List TypeInfo} {v : TypeVar} (h : v.Issued made) :
    v.id ≤ made.length := by
  rcases List.getElem?_eq_some_iff.1 h.2 with ⟨hlt, _⟩
  have := h.1
  omega

theorem Level.Issued.mono {made made' : List TypeInfo} {l : Level} (h : l.Issued made)
    (hgrows : made <+: made') : l.Issued made' :=
  fun c hc => (h c hc).mono hgrows

theorem Level.Issued.append {made : List TypeInfo} {l m : Level} (hl : l.Issued made)
    (hm : m.Issued made) : Level.Issued made (l ++ m) := by
  intro c hc
  rcases List.mem_append.1 hc with hc | hc
  · exact hl c hc
  · exact hm c hc

/-! ## Matching levels -/

/-- The levels that have columns. -/
def withColumns (levels : List Level) : List Level := levels.filter fun l => !l.isEmpty

/-- The levels of the second walk are those of the first, except for levels without columns. -/
structure LevelsMatch (ρ : Renaming) (made : List TypeInfo) (levels levels' : List Level) :
    Prop where
  issued : ∀ l ∈ levels, Level.Issued made l
  same : withColumns levels' = (withColumns levels).map ρ.level

theorem LevelsMatch.mono {ρ : Renaming} {made made' : List TypeInfo} {levels levels' : List Level}
    (h : LevelsMatch ρ made levels levels') (hgrows : made <+: made') :
    LevelsMatch ρ made' levels levels' :=
  ⟨fun l hl => (h.issued l hl).mono hgrows, h.same⟩

theorem LevelsMatch.nil (ρ : Renaming) (made : List TypeInfo) : LevelsMatch ρ made [] [] :=
  ⟨fun _ hl => absurd hl List.not_mem_nil, rfl⟩

theorem LevelsMatch.cons {ρ : Renaming} {made : List TypeInfo} {l : Level}
    {levels levels' : List Level} (hl : l.Issued made) (h : LevelsMatch ρ made levels levels') :
    LevelsMatch ρ made (l :: levels) (ρ.level l :: levels') := by
  refine ⟨?_, ?_⟩
  · intro m hm
    rcases List.mem_cons.1 hm with rfl | hm
    · exact hl
    · exact h.issued m hm
  · have hsame := h.same
    unfold withColumns at hsame ⊢
    cases hempty : l.isEmpty
    · simp [hempty, hsame]
    · simp [hempty, hsame]

/-- A level without columns may be added around the others. -/
theorem LevelsMatch.empty_cons {ρ : Renaming} {made : List TypeInfo} {levels levels' : List Level}
    (h : LevelsMatch ρ made levels levels') : LevelsMatch ρ made levels ([] :: levels') :=
  ⟨h.issued, h.same⟩

/-! ## What a reference means -/

theorem resolveIn_withColumns (c : ColumnRef) (levels : List Level) :
    resolveIn c (withColumns levels) = resolveIn c levels := by
  induction levels with
  | nil => rfl
  | cons l rest ih =>
    unfold withColumns at ih ⊢
    cases l with
    | nil => simpa [resolveIn, Level.answers] using ih
    | cons column columns => simp [resolveIn, ih]

theorem resolveIn_map (ρ : Renaming) (c : ColumnRef) (levels : List Level) :
    resolveIn c (levels.map ρ.level) =
      (resolveIn c levels).map fun meaning => meaning.map ρ.column := by
  induction levels with
  | nil => rfl
  | cons l rest ih =>
    have hanswers : Level.answers (ρ.level l) c = ρ.level (Level.answers l c) :=
      ρ.level_filter l _ fun _ => rfl
    rw [List.map_cons]
    unfold resolveIn
    rw [hanswers]
    cases Level.answers l c with
    | nil => simpa [Renaming.level] using ih
    | cons first others =>
      simp only [Renaming.level, List.map_cons, List.all_map]
      have hall : (others.all ((fun other => other.sameAs (ρ.column first)) ∘ ρ.column)) =
          others.all fun other => other.sameAs first := rfl
      rw [hall]
      by_cases hone : (others.all fun other => other.sameAs first) = true
      · simp [hone, Except.map]
      · simp [hone, Except.map, Function.comp_def]

theorem LevelsMatch.resolveIn {ρ : Renaming} {made : List TypeInfo} {levels levels' : List Level}
    (h : LevelsMatch ρ made levels levels') (c : ColumnRef) :
    QuerySignature.resolveIn c levels' =
      (QuerySignature.resolveIn c levels).map fun meaning => meaning.map ρ.column := by
  rw [← resolveIn_withColumns, h.same, resolveIn_map, resolveIn_withColumns]

/-- What a reference means is a column of some level. -/
theorem mem_of_resolveIn {c : ColumnRef} {levels : List Level} {column : SourceColumn}
    (h : resolveIn c levels = some (.ok column)) : ∃ l ∈ levels, column ∈ l := by
  induction levels with
  | nil => simp [resolveIn] at h
  | cons l rest ih =>
    unfold resolveIn at h
    cases hanswers : Level.answers l c with
    | nil =>
      simp only [hanswers] at h
      rcases ih h with ⟨m, hm, hcolumn⟩
      exact ⟨m, List.mem_cons_of_mem _ hm, hcolumn⟩
    | cons first others =>
      simp only [hanswers] at h
      split at h
      · cases h
        have hmem : column ∈ Level.answers l c := by simp [hanswers]
        exact ⟨l, List.mem_cons_self, List.mem_of_mem_filter hmem⟩
      · cases h

/-- The scope of the second walk is that of the first, except for levels without columns. -/
structure Scope.Matches (ρ : Renaming) (made : List TypeInfo) (s s' : Scope) : Prop where
  issued : s.columns.Issued made
  columns : s'.columns = ρ.level s.columns
  outer : LevelsMatch ρ made s.outer s'.outer

namespace Scope.Matches

variable {ρ : Renaming} {made made' : List TypeInfo} {s s' : Scope}

theorem mono (h : Scope.Matches ρ made s s') (hgrows : made <+: made') :
    Scope.Matches ρ made' s s' :=
  ⟨h.issued.mono hgrows, h.columns, h.outer.mono hgrows⟩

theorem levels (h : Scope.Matches ρ made s s') : LevelsMatch ρ made s.levels s'.levels := by
  unfold Scope.levels
  rw [h.columns]
  exact h.outer.cons h.issued

theorem hasTable (h : Scope.Matches ρ made s s') (table : String) :
    s'.hasTable table = s.hasTable table := by
  have hwith : ∀ ls : List Level, (ls.any fun l => l.any fun c => c.isOf table) =
      (withColumns ls).any fun l => l.any fun c => c.isOf table := by
    intro ls
    unfold withColumns
    rw [List.any_filter]
    congr 1
    funext l
    cases l <;> simp
  unfold Scope.hasTable
  rw [hwith s'.levels, hwith s.levels, h.levels.same, List.any_map]
  congr 1
  funext l
  simp [Renaming.level, Function.comp_def]

/-- A reference means the renumbered column, or fails for the same reason. -/
theorem resolve (h : Scope.Matches ρ made s s') (c : ColumnRef) :
    s'.resolve c = (s.resolve c).map ρ.column := by
  unfold Scope.resolve
  rw [h.levels.resolveIn c]
  cases resolveIn c s.levels with
  | some meaning => rfl
  | none =>
    have hcandidates : s'.candidates c = s.candidates c := by
      unfold Scope.candidates
      rw [h.columns, ρ.level_filter _ _ fun _ => rfl]
      simp [Renaming.level, Function.comp_def]
    simp only [Option.map_none, h.hasTable, hcandidates]
    split <;> rfl

/-- What a reference means has a variable that has been made. -/
theorem issued_of_resolve (h : Scope.Matches ρ made s s') {c : ColumnRef} {column : SourceColumn}
    (hc : s.resolve c = .ok column) : column.var.Issued made := by
  unfold Scope.resolve at hc
  cases hmeaning : resolveIn c s.levels with
  | none =>
    simp only [hmeaning] at hc
    split at hc <;> cases hc
  | some meaning =>
    simp only [hmeaning] at hc
    subst hc
    rcases mem_of_resolveIn hmeaning with ⟨l, hl, hcolumn⟩
    exact h.levels.issued l hl column hcolumn

/-- A criterion proves the renumbered column not null as it does the column. -/
theorem provesNotNull (h : Scope.Matches ρ made s s') (column : SourceColumn) (e : Expr) :
    s'.provesNotNull (ρ.column column) e = s.provesNotNull column e := by
  have hnamed : NamedAlike fun c c' => c' = ρ.column c :=
    ⟨fun hc => by rw [hc, ρ.column_name], fun hc => by rw [hc, ρ.column_visibleTable]⟩
  refine hnamed.provesNotNull (fun c => ?_) rfl e
  rw [h.resolve]
  cases s.resolve c with
  | error reason => exact rfl
  | ok column => exact rfl

end Scope.Matches

end QuerySignature
