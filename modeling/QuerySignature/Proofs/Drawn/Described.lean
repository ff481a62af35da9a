import QuerySignature.Proofs.Described
import QuerySignature.Proofs.Drawn.Walk

namespace QuerySignature

/-! # Where reported types come from

A description reports no type but those of its profile and of its schema. As the two dialects share
no names of types, a statement over tables of one dialect, with a profile of that dialect, is never
described in names of the other.

- `Description.reportedTypes`: the types of all columns and placeholders.
- `SqlType.dialect`: the dialect that a type is named in.
- `describe_types_drawn`: reported types are those of the setting.
-/

/-- The types that a description reports, of columns and of placeholders. -/
def Description.reportedTypes (d : Description) : List SqlType :=
  d.columns.map (·.type) ++ d.data.map (·.type) ++ d.parameters.map (·.type)

/-! ## Dialects -/

namespace SqlType

/-- The dialect whose name a type has: SQLite has storage classes, MySQL has column types. -/
def dialect : SqlType → Dialect
  | storageInteger | storageReal | storageNumeric => .sqlite
  | storageText | storageBlob | storageDate => .sqlite
  | _ => .mysql

/-- The name of a type says which type it is, and so its dialect. -/
theorem name_injective {t u : SqlType} (h : t.name = u.name) : t = u := by
  have hread := congrArg ofDeclared? h
  rw [ofDeclared?_name, ofDeclared?_name] at hread
  exact Option.some.inj hread

end SqlType

/-! ## Columns and placeholders -/

section

variable {T : SqlType → Prop} {profile : Profile} {solution : Solution}

/-- A column of a union has the type of one of its branches. -/
theorem OutputColumn.DrawnFrom.type {column : OutputColumn} (h : column.DrawnFrom T)
    (hprofile : ∀ t ∈ profile.types, T t) (hsolution : solution.DrawnFrom T) :
    T (column.type solution profile) := by
  have hunion : ∀ (vars : List TypeVar) (first : SqlType), T first →
      (∀ v ∈ vars, v.DrawnFrom T) →
      T (vars.foldl (fun type v => type.widest (solution.typeOf profile v)) first) := by
    intro vars
    induction vars with
    | nil => exact fun first hfirst _ => hfirst
    | cons v rest ih =>
      intro first hfirst hvars
      have hv := hsolution.typeOf hprofile (hvars v (.head _))
      have hwider : T (first.widest (solution.typeOf profile v)) := by
        rcases SqlType.widest_eq_or first (solution.typeOf profile v) with heq | heq
        · rw [heq]
          exact hfirst
        · rw [heq]
          exact hv
      exact ih _ hwider fun w hw => hvars w (.tail _ hw)
  exact hunion column.unionVars _ (hsolution.typeOf hprofile h.var) h.unionVars

/-- What is reported of a run that draws on some types has these types. -/
theorem Description.drawnFrom_of {statement : Statement} {analysis : Analysis} {run : Run}
    (hprofile : ∀ t ∈ profile.types, T t) (hquery : analysis.query.DrawnFrom T)
    (hrun : run.DrawnFrom T) (hsolution : solution.DrawnFrom T) :
    ∀ t ∈ (Description.of profile statement analysis run solution).reportedTypes, T t := by
  have hplaceholder : ∀ p ∈ run.placeholders.zipIdx.map
      (fun numbered => numbered.1.result numbered.2 solution profile), T p.type := by
    intro p hp
    obtain ⟨⟨found, index⟩, hfound, rfl⟩ := List.mem_map.1 hp
    have hfound : found ∈ run.placeholders := List.fst_mem_of_mem_zipIdx hfound
    exact hsolution.typeOf hprofile (hrun.placeholders found hfound)
  intro t ht
  rcases List.mem_append.1 ht with ht | ht
  · rcases List.mem_append.1 ht with ht | ht
    · obtain ⟨result, hresult, rfl⟩ := List.mem_map.1 ht
      obtain ⟨column, hcolumn, rfl⟩ := List.mem_map.1 hresult
      exact (hquery column hcolumn).type hprofile hsolution
    · obtain ⟨p, hp, rfl⟩ := List.mem_map.1 ht
      exact hplaceholder p (List.mem_of_mem_take hp)
  · obtain ⟨p, hp, rfl⟩ := List.mem_map.1 ht
    exact hplaceholder p (List.mem_of_mem_drop hp)

end

theorem Run.drawnFrom_start (T : SqlType → Prop) : Run.start.DrawnFrom T :=
  ⟨fun _ h => absurd h List.not_mem_nil, fun _ h => absurd h List.not_mem_nil,
    fun _ h => absurd h List.not_mem_nil⟩

/-! ## Descriptions -/

/-- Every type that a description reports is one of the profile's or a declared type of the schema.
If these are all named by one dialect, no reported type has a name of another. -/
theorem describe_types_drawn {setting : Setting} {statement : Statement} {d : Description}
    (h : describe setting statement = .ok d) :
    (∀ T : SqlType → Prop, (∀ t ∈ setting.types, T t) → ∀ t ∈ d.reportedTypes, T t) ∧
      ∀ dialect, (∀ t ∈ setting.types, t.dialect = dialect) →
        ∀ t ∈ d.reportedTypes, ∀ other : SqlType, other.dialect ≠ dialect →
          t.name ≠ other.name := by
  have hdrawn : ∀ T : SqlType → Prop, (∀ t ∈ setting.types, T t) →
      ∀ t ∈ d.reportedTypes, T t := by
    intro T hsetting
    obtain ⟨analysis, run, solution, hwalk, hsolve, rfl⟩ := describe_eq_ok_iff.1 h
    obtain ⟨hquery, hrun⟩ :=
      Draws.statement hsetting statement .start analysis run (Run.drawnFrom_start T) hwalk
    have hprofile := Draws.profile_types hsetting
    have hsolution := Solution.drawnFrom_of_solve hprofile hrun.constraints hsolve
    exact Description.drawnFrom_of hprofile hquery hrun hsolution
  -- types with one name are one type, and one type has one dialect
  refine ⟨hdrawn, fun dialect hdialect t ht other hother hname => hother ?_⟩
  rw [← SqlType.name_injective hname]
  exact hdrawn (fun t => t.dialect = dialect) hdialect t ht

/-- A table of two columns in storage classes. -/
def storedPrices : Setting where
  schema := ⟨[("prices", [⟨"prices", "label", .storageText, .unique, true⟩,
    ⟨"prices", "price", .storageReal, .plain, false⟩])]⟩
  profile := .sqlite

/-- `SELECT label, SUM(price) FROM prices WHERE price > ? UNION SELECT 'all', COUNT(*) FROM prices
LIMIT ?`. -/
def pricesByLabel : Select :=
  ⟨[], [⟨false, [.expr (.column ⟨none, "label"⟩) none,
      .expr (.call "SUM" false [.column ⟨none, "price"⟩]) none], [.table "prices" none], [],
      some (.compare .gt (.column ⟨none, "price"⟩) (.parameter none)), [], none⟩,
    ⟨false, [.expr (.literal (.string "all")) none, .expr (.call "COUNT" false [.star]) none],
      [.table "prices" none], [], none, [], none⟩], [], some ⟨.parameter none, none⟩⟩

/-- Columns and placeholders over storage classes have storage classes. -/
theorem describe_types_drawn_pricesByLabel :
    ∃ d, describe storedPrices (.select pricesByLabel) = .ok d ∧
      d.reportedTypes = [.storageText, .storageReal, .storageReal, .storageInteger] ∧
      (∀ t ∈ d.reportedTypes, t ∈ storedPrices.types) ∧
      ∀ t ∈ d.reportedTypes, ∀ other : SqlType, other.dialect = .mysql → t.name ≠ other.name := by
  obtain ⟨d, hd⟩ := exists_of_isOk (x := describe storedPrices (.select pricesByLabel))
    (by decide +kernel)
  have hreported : (describe storedPrices (.select pricesByLabel)).toOption.map
      Description.reportedTypes =
        some [.storageText, .storageReal, .storageReal, .storageInteger] := by decide +kernel
  rw [hd] at hreported
  obtain ⟨hdrawn, hnames⟩ := describe_types_drawn hd
  have hstored : ∀ t ∈ storedPrices.types, t.dialect = .sqlite := by decide
  refine ⟨d, hd, Option.some.inj hreported, ?_, ?_⟩
  · exact hdrawn (· ∈ storedPrices.types) fun t ht => ht
  · intro t ht other hother
    exact hnames .sqlite hstored t ht other (by rw [hother]; decide)

end QuerySignature
