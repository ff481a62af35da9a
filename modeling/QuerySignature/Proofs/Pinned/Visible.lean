import QuerySignature.Proofs.Pinned.Pins
import QuerySignature.Proofs.Sources.Related
import QuerySignature.Proofs.Walk.Parts

namespace QuerySignature

/-! # Columns of a walk as the text shows them

The columns that a walk sees are those that can be read off the text: they stand at the same places
under the same names, and the columns of tables have the types that are declared. What a walk knows
besides is the numbers of their variables. Only those of projected columns are ever spoken of again.

- `Scope.Shown`, `TablesShown`: the scope of a walk and its common tables are those of the text.
- `Level.Shown.added`, `shown_levelOf`, ...: what joins and queries make of shown columns.
-/

/-- A column of a walk, as the text shows it. If it is a projected column, the number of its variable
is one of `V`. -/
structure SourceColumn.Shown (V : Nat → Prop) (c₀ c : SourceColumn) : Prop where
  table : c.table = c₀.table
  aliasName : c.aliasName = c₀.aliasName
  name : c.name = c₀.name
  declared : c.declaredType? = c₀.declaredType?
  live : c.var.projected = true → V c.var.id

/-- A level of a walk, as the text shows it. -/
abbrev Level.Shown (V : Nat → Prop) (l₀ l : Level) : Prop :=
  List.Forall₂ (SourceColumn.Shown V) l₀ l

/-- The levels around a query, as the text shows them. -/
abbrev LevelsShown (V : Nat → Prop) (outer₀ outer : List Level) : Prop :=
  List.Forall₂ (Level.Shown V) outer₀ outer

/-- A scope of a walk, as the text shows it. -/
abbrev Scope.Shown (V : Nat → Prop) (scope₀ scope : Scope) : Prop :=
  scope₀.Related (SourceColumn.Shown V) scope

/-- The table that goes by a name among some; the first of them hides others of its name. -/
abbrev tableNamed? (tables : List (String × Level)) (name : String) : Option Level :=
  (tables.find? fun entry => sameName entry.1 name).map (·.2)

/-- The common tables of a run, as the text shows them: under every name it knows the same one, or
knows none. -/
def TablesShown (V : Nat → Prop) (known ctes : List (String × Level)) : Prop :=
  ∀ name, Option.Rel (Level.Shown V) (tableNamed? known name) (tableNamed? ctes name)

/-- An output column under the name that the text gives it. The number of its variable is one of
`V`. -/
structure OutputColumn.Shown (V : Nat → Prop) (name : String) (c : OutputColumn) : Prop where
  name : c.name = name
  live : V c.var.id

/-- A branch with the columns that the text shows, those that it gives and those that it reads. -/
structure BranchResult.Shown (V : Nat → Prop) (names : List String) (level₀ : Level)
    (b : BranchResult) : Prop where
  columns : List.Forall₂ (OutputColumn.Shown V) names b.columns
  visible : Level.Shown V level₀ b.visible

theorem namedAlike_shown (V : Nat → Prop) : NamedAlike (SourceColumn.Shown V) := by
  refine ⟨fun h => h.name, fun h => ?_⟩
  unfold SourceColumn.visibleTable
  rw [h.aliasName, h.table]

/-! ## More numbers -/

section

variable {V W : Nat → Prop} (hVW : ∀ id, V id → W id)

include hVW

theorem SourceColumn.Shown.mono {c₀ c : SourceColumn} (h : c₀.Shown V c) : c₀.Shown W c :=
  { h with live := fun hprojected => hVW _ (h.live hprojected) }

theorem Level.Shown.mono {l₀ l : Level} (h : Level.Shown V l₀ l) : Level.Shown W l₀ l :=
  List.Forall₂.imp (fun _ _ hc => hc.mono hVW) h

theorem LevelsShown.mono {outer₀ outer : List Level} (h : LevelsShown V outer₀ outer) :
    LevelsShown W outer₀ outer :=
  List.Forall₂.imp (fun _ _ hl => Level.Shown.mono hVW hl) h

theorem Scope.Shown.mono {scope₀ scope : Scope} (h : scope₀.Shown V scope) :
    scope₀.Shown W scope :=
  ⟨Level.Shown.mono hVW h.columns, LevelsShown.mono hVW h.outer⟩

theorem TablesShown.mono {known ctes : List (String × Level)} (h : TablesShown V known ctes) :
    TablesShown W known ctes := by
  intro name
  have htable := h name
  generalize tableNamed? known name = found₀, tableNamed? ctes name = found at htable
  cases htable with
  | none => exact .none
  | some hlevel => exact .some (Level.Shown.mono hVW hlevel)

theorem OutputColumn.Shown.mono {name : String} {c : OutputColumn} (h : c.Shown V name) :
    c.Shown W name :=
  ⟨h.name, hVW _ h.live⟩

theorem columnsShown_mono {names : List String} {cs : List OutputColumn}
    (h : List.Forall₂ (OutputColumn.Shown V) names cs) :
    List.Forall₂ (OutputColumn.Shown W) names cs :=
  h.imp fun _ _ hc => hc.mono hVW

theorem BranchResult.Shown.mono {names : List String} {level₀ : Level} {b : BranchResult}
    (h : b.Shown V names level₀) : b.Shown W names level₀ :=
  ⟨columnsShown_mono hVW h.columns, Level.Shown.mono hVW h.visible⟩

end

/-! ## Columns of sources -/

variable {V : Nat → Prop} {l₀ l : Level}

namespace Level.Shown

theorem nullable (h : Level.Shown V l₀ l) : Level.Shown V l₀ (l.map SourceColumn.nullable) := by
  refine List.forall₂_map_right_iff.2 (List.Forall₂.imp (fun _ _ hc => ?_) h)
  exact ⟨hc.table, hc.aliasName, hc.name, hc.declared, hc.live⟩

theorem earlier (h : Level.Shown V l₀ l) (kind : JoinKind) :
    Level.Shown V l₀ (kind.earlier l) := by
  cases kind with
  | right | full => exact nullable h
  | inner | left | cross => exact h

theorem joined (h : Level.Shown V l₀ l) (kind : JoinKind) : Level.Shown V l₀ (kind.joined l) := by
  cases kind with
  | left | full => exact nullable h
  | inner | right | cross => exact h

/-- What a join adds goes by names alone. -/
theorem added (h : Level.Shown V l₀ l) (condition : JoinCondition) :
    Level.Shown V (condition.added l₀) (condition.added l) := by
  cases condition with
  | predicate e => exact h
  | unconditional => exact h
  | shared names =>
    refine NamedAlike.filter h fun c₀ c hc => ?_
    unfold SourceColumn.isShared
    rw [hc.name]

theorem ofTable (h : Level.Shown V l₀ l) (table : String) :
    Level.Shown V (Level.ofTable l₀ table) (Level.ofTable l table) :=
  NamedAlike.filter h fun _ _ hc => (namedAlike_shown V).isOf hc table

theorem withAlias (h : Level.Shown V l₀ l) (aliasName : String) :
    Level.Shown V (l₀.map fun column => { column with aliasName })
      (l.map fun column => { column with aliasName }) :=
  List.rel_map (fun _ _ hc => ⟨hc.table, rfl, hc.name, hc.declared, hc.live⟩) h

end Level.Shown

/-! ## Columns of queries -/

theorem shown_levelOf (table : String) {names : List String} {cs : List OutputColumn}
    (h : List.Forall₂ (OutputColumn.Shown V) names cs) :
    Level.Shown V (names.map (projectedColumn table)) (levelOf table cs) :=
  List.rel_map (fun _ _ hc => ⟨rfl, rfl, hc.name, rfl, fun _ => hc.live⟩) h

theorem shown_proveColumns (scope : Scope) (criteria : Option Expr) {names : List String}
    {cs : List OutputColumn} (h : List.Forall₂ (OutputColumn.Shown V) names cs) :
    List.Forall₂ (OutputColumn.Shown V) names (proveColumns scope criteria cs) := by
  unfold proveColumns
  rw [List.forall₂_map_right_iff]
  exact h.imp fun _ _ hc => ⟨hc.name, hc.live⟩

/-- The columns of a union are those of its first branch. -/
theorem shown_unionColumns {names : List String} {first columns : List OutputColumn}
    {others : List BranchResult} (h : List.Forall₂ (OutputColumn.Shown V) names first)
    (hunion : unionColumns first others = .ok columns) :
    List.Forall₂ (OutputColumn.Shown V) names columns := by
  induction others generalizing first with
  | nil =>
    cases hunion
    exact h
  | cons branch rest ih =>
    unfold unionColumns at hunion
    split at hunion
    · next hlength =>
      refine ih ?_ hunion
      clear hunion ih
      generalize branch.columns = others at hlength
      induction h generalizing others with
      | nil => exact .nil
      | cons hc _ ih =>
        cases others with
        | nil => cases hlength
        | cons other others => exact .cons ⟨hc.name, hc.live⟩ (ih others (Nat.succ.inj hlength))
    · cases hunion

/-! ## Meanings -/

namespace TablesShown

variable {known ctes : List (String × Level)}

theorem nil : TablesShown V [] [] := fun _ => .none

/-- One more table is declared, in the text and in the run. -/
theorem declare (name : String) (hl : Level.Shown V l₀ l) (h : TablesShown V known ctes) :
    TablesShown V ((name, l₀) :: known) ((name, l) :: ctes) := by
  intro asked
  have htable := h asked
  unfold tableNamed? at htable ⊢
  rw [List.find?_cons, List.find?_cons]
  cases sameName name asked with
  | true => exact .some hl
  | false => exact htable

/-- Under one name the text and the run know the same common table, or neither knows one. -/
theorem find? {r : Run} (h : TablesShown V known r.ctes) (name : String) :
    Option.Rel (Level.Shown V) (tableNamed? known name) (r.cte? name) :=
  h name

end TablesShown

/-- A column of a walk that is declared with a type is no projected column. -/
theorem SourceColumn.of_declaredType? {c : SourceColumn} {type : SqlType}
    (h : c.declaredType? = some type) : c.var.projected = false ∧ c.var.info = .exact type := by
  unfold declaredType? at h
  split at h
  · next hprojected hinfo =>
    cases h
    exact ⟨hprojected, hinfo⟩
  · cases h

end QuerySignature
