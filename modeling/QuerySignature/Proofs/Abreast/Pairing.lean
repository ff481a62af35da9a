import QuerySignature.Analysis.Output
import QuerySignature.Proofs.Sources.Related

namespace QuerySignature

/-! # Columns that stand for one another

Two walks over one text number their variables from where each has set out, and may find columns of
different origin under one name. A walk asks of a column what it is called, whether it may be null and
of what type it is; it links to the variable of a column only where that is an output column of an inner
query. Columns that answer alike stand for one another.

- `Pairing`: which columns of one walk stand for which of another.
- `Pairing.added`, `Pairing.joined`, ...: so do the columns that clauses make of them.
- `Pairing.byLooks`: columns that look alike stand for one another.
-/

/-- A variable, and the same one under the number that it has in another walk. -/
structure TypeVar.Paired (number : Nat → Nat) (v v' : TypeVar) : Prop where
  made : 0 < v.id
  eq : v' = { v with id := number v.id }

namespace TypeVar.Paired

variable {number : Nat → Nat} {v v' : TypeVar}

theorem label (h : v.Paired number v') : v'.label = v.label := by
  rw [h.eq]

theorem id (h : v.Paired number v') : v'.id = number v.id := by
  rw [h.eq]

theorem info (h : v.Paired number v') : v'.info = v.info := by
  rw [h.eq]

theorem asProjected (h : v.Paired number v') : v.asProjected.Paired number v'.asProjected := by
  refine ⟨h.made, ?_⟩
  rw [h.eq]
  rfl

end TypeVar.Paired

/-- Columns of one walk and the columns of another that stand for them. The variables of output columns
of inner queries stand for one another by their numbers. -/
structure Pairing where
  number : Nat → Nat
  Columns : SourceColumn → SourceColumn → Prop
  named : NamedAlike Columns
  notNull : ∀ {c c'}, Columns c c' → c'.notNull = c.notNull
  projected : ∀ {c c'}, Columns c c' → c'.var.projected = c.var.projected
  info : ∀ {c c'}, Columns c c' → c'.var.info = c.var.info
  tied : ∀ {c c'}, Columns c c' → c.var.projected = true → c.var.Paired number c'.var
  nullable : ∀ {c c'}, Columns c c' → Columns c.nullable c'.nullable
  /-- Columns that differ in nothing but the numbers of their variables stand for one another. -/
  made : ∀ {v v'} (table aliasName name : String) (key : KeyRole) (notNull : Bool),
    v.Paired number v' →
      Columns ⟨table, aliasName, name, v, key, notNull⟩ ⟨table, aliasName, name, v', key, notNull⟩

namespace Pairing

/-- Levels whose columns stand for one another, place by place. -/
abbrev Levels (P : Pairing) (l l' : Level) : Prop := List.Forall₂ P.Columns l l'

/-- Common tables whose columns stand for one another under whatever alias. -/
def Tables (P : Pairing) (l l' : Level) : Prop :=
  ∀ aliasName : String, P.Levels (l.map fun column => { column with aliasName })
    (l'.map fun column => { column with aliasName })

variable {P : Pairing} {l l' m m' : Level}

theorem ofTable (h : P.Levels l l') (table : String) :
    P.Levels (Level.ofTable l table) (Level.ofTable l' table) :=
  NamedAlike.filter h fun _ _ hc => P.named.isOf hc table

theorem nullables (h : P.Levels l l') :
    P.Levels (l.map SourceColumn.nullable) (l'.map SourceColumn.nullable) :=
  List.rel_map (fun _ _ hc => P.nullable hc) h

theorem earlier (h : P.Levels l l') (kind : JoinKind) :
    P.Levels (kind.earlier l) (kind.earlier l') := by
  cases kind with
  | right | full => exact nullables h
  | inner | left | cross => exact h

theorem joined (h : P.Levels l l') (kind : JoinKind) : P.Levels (kind.joined l) (kind.joined l') := by
  cases kind with
  | left | full => exact nullables h
  | inner | right | cross => exact h

/-- What a join adds goes by names alone. -/
theorem added (h : P.Levels l l') (condition : JoinCondition) :
    P.Levels (condition.added l) (condition.added l') := by
  cases condition with
  | predicate e => exact h
  | unconditional => exact h
  | shared names =>
    refine NamedAlike.filter h fun c c' hc => ?_
    unfold SourceColumn.isShared
    rw [P.named.name hc]

end Pairing

/-! ## Columns that look alike -/

/-- A column that looks like another one, whatever table it comes from: a walk finds the same under its
name and asks the same of it. -/
structure SourceColumn.LooksLike (number : Nat → Nat) (c c' : SourceColumn) : Prop where
  name : c'.name = c.name
  visibleTable : c'.visibleTable = c.visibleTable
  notNull : c'.notNull = c.notNull
  projected : c'.var.projected = c.var.projected
  info : c'.var.info = c.var.info
  tied : c.var.projected = true → c.var.Paired number c'.var

/-- Columns stand for one another when they look alike. -/
def Pairing.byLooks (number : Nat → Nat) : Pairing where
  number := number
  Columns := SourceColumn.LooksLike number
  named := ⟨fun h => h.name, fun h => h.visibleTable⟩
  notNull h := h.notNull
  projected h := h.projected
  info h := h.info
  tied h := h.tied
  nullable h := ⟨h.name, h.visibleTable, rfl, h.projected, h.info, h.tied⟩
  made _ _ _ _ _ hv := ⟨rfl, rfl, rfl, by rw [hv.eq], hv.info, fun _ => hv⟩

/-- No columns stand for one another that do not look alike. -/
theorem Pairing.looksLike (P : Pairing) {c c' : SourceColumn} (h : P.Columns c c') :
    c.LooksLike P.number c' :=
  ⟨P.named.name h, P.named.visibleTable h, P.notNull h, P.projected h, P.info h, P.tied h⟩

end QuerySignature
