import QuerySignature.Proofs.Comparison.Steps
import QuerySignature.Proofs.Printed.Spelled
import QuerySignature.Proofs.Spelling.Columns

namespace QuerySignature

/-! # Columns that no name tells apart

An expression that is projected without an alias goes by its text. Where two walks go over different
texts, such a column has different names in them; what matters is that no name that is asked for tells
the two apart. A reference by one of these names then means the same in both walks.

- `Outlook`: the variables of which may be spoken, and the names that may be asked for.
- `Scope.Stands.resolve`: what a reference means.
- `Scope.Stands.provesNotNull`: what a criterion proves not null.
-/

/-- What two walks go by: the numbers of the variables of which they may speak, and the names that they
may ask for. -/
structure Outlook where
  Sees : Nat → Prop
  naming : Naming

/-- Two names that none of the names that may be asked for tells apart. -/
def Naming.Blurs (N : Naming) (name name' : String) : Prop :=
  ∀ asked, N.name asked → sameName name' asked = sameName name asked

theorem Naming.Blurs.refl (N : Naming) (name : String) : N.Blurs name name := fun _ _ => rfl

/-- One variable in two walks, of which may be spoken. -/
structure TypeVar.Stands (O : Outlook) (v v' : TypeVar) : Prop where
  seen : O.Sees v.id
  relabelled : v.Relabelled v'

/-- One column in two walks, under names that are not told apart. -/
structure SourceColumn.Stands (O : Outlook) (c c' : SourceColumn) : Prop where
  var : c.var.Stands O c'.var
  name : O.naming.Blurs c.name c'.name
  eq : c' = { c with name := c'.name, var := c'.var }

/-- Levels of the same columns. -/
abbrev Level.Stands (O : Outlook) (l l' : Level) : Prop := List.Forall₂ (SourceColumn.Stands O) l l'

/-- Scopes of the same columns. -/
abbrev Scope.Stands (O : Outlook) : Scope → Scope → Prop := Scope.Related (SourceColumn.Stands O)

section

variable {O : Outlook}

theorem TypeVar.Stands.asProjected {v v' : TypeVar} (h : v.Stands O v') :
    v.asProjected.Stands O v'.asProjected :=
  ⟨h.seen, h.relabelled.asProjected⟩

/-! ## Columns -/

namespace SourceColumn.Stands

variable {c c' d d' : SourceColumn} {asked : String}

theorem visibleTable (h : c.Stands O c') : c'.visibleTable = c.visibleTable := by
  rw [h.eq]
  rfl

theorem isOf (h : c.Stands O c') (table : String) : c'.isOf table = c.isOf table := by
  unfold SourceColumn.isOf
  rw [h.visibleTable]

theorem notNull (h : c.Stands O c') : c'.notNull = c.notNull := by rw [h.eq]

theorem nullable (h : c.Stands O c') : c.nullable.Stands O c'.nullable := by
  refine ⟨h.var, h.name, ?_⟩
  rw [h.eq]
  rfl

theorem withAlias (h : c.Stands O c') (aliasName : String) :
    SourceColumn.Stands O { c with aliasName } { c' with aliasName } := by
  refine ⟨h.var, h.name, ?_⟩
  rw [h.eq]

theorem answers (h : c.Stands O c') (qualifier : String) (hasked : O.naming.name asked) :
    c'.answers qualifier asked = c.answers qualifier asked := by
  unfold SourceColumn.answers
  rw [h.name asked hasked, h.isOf]

/-- A column that goes by a name that is asked for is as different from another in both walks. -/
theorem sameAs (hd : d.Stands O d') (hc : c.Stands O c') (hasked : O.naming.name asked)
    (hname : sameName d.name asked = true) : d'.sameAs c' = d.sameAs c := by
  have hname' : sameName d'.name asked = true := (hd.name asked hasked).trans hname
  have hsame : sameName d'.name c'.name = sameName d.name c.name := calc
    sameName d'.name c'.name = sameName c'.name asked := by
      rw [sameName_congr hname' (sameName_refl _), sameName_comm]
    _ = sameName c.name asked := hc.name asked hasked
    _ = sameName d.name c.name := by
      rw [sameName_congr hname (sameName_refl _), sameName_comm]
  unfold SourceColumn.sameAs
  rw [hd.visibleTable, hc.visibleTable, hsame]

theorem isShared (h : c.Stands O c') {names : List String}
    (hnames : ∀ name ∈ names, O.naming.name name) : c'.isShared names = c.isShared names := by
  unfold SourceColumn.isShared
  rw [List.any_eq, List.any_eq]
  refine decide_eq_decide.2 (exists_congr fun name => and_congr_right fun hname => ?_)
  rw [sameName_comm name, sameName_comm name, h.name name (hnames name hname)]

end SourceColumn.Stands

namespace Level.Stands

variable {l l' : Level}

theorem ofTable (h : l.Stands O l') (table : String) :
    Level.Stands O (Level.ofTable l table) (Level.ofTable l' table) :=
  NamedAlike.filter h fun _ _ hc => hc.isOf table

theorem nullables (h : l.Stands O l') :
    Level.Stands O (l.map SourceColumn.nullable) (l'.map SourceColumn.nullable) :=
  List.rel_map (fun _ _ hc => hc.nullable) h

theorem earlier (h : l.Stands O l') (kind : JoinKind) :
    Level.Stands O (kind.earlier l) (kind.earlier l') := by
  cases kind with
  | right | full => exact nullables h
  | inner | left | cross => exact h

theorem joined (h : l.Stands O l') (kind : JoinKind) :
    Level.Stands O (kind.joined l) (kind.joined l') := by
  cases kind with
  | left | full => exact nullables h
  | inner | right | cross => exact h

/-- What a join adds goes by the names that both sides share. -/
theorem added (h : l.Stands O l') {condition : JoinCondition}
    (hcondition : condition.Spelled O.naming) :
    Level.Stands O (condition.added l) (condition.added l') := by
  cases condition with
  | predicate e => exact h
  | unconditional => exact h
  | shared names => exact NamedAlike.filter h fun c c' hc => by rw [hc.isShared hcondition]

/-- The columns that answer a reference; all of them go by its name. -/
theorem answers (h : l.Stands O l') {c : ColumnRef} (hc : O.naming.name c.name) :
    List.Forall₂ (fun d d' => sameName d.name c.name = true ∧ d.Stands O d') (Level.answers l c)
      (Level.answers l' c) := by
  refine (List.forall₂_and_left _ _).2 ⟨fun d hd => ?_, ?_⟩
  · have hanswers := List.of_mem_filter hd
    unfold SourceColumn.answers at hanswers
    exact (Bool.and_eq_true_iff.1 hanswers).1
  · exact NamedAlike.filter h fun d d' hd => hd.answers c.qualifier hc

end Level.Stands

/-! ## What a reference means -/

theorem resolveIn_stands {levels levels' : List Level}
    (h : List.Forall₂ (Level.Stands O) levels levels') {c : ColumnRef} (hc : O.naming.name c.name) :
    Option.Rel (AlikeInKind fun d d' => sameName d.name c.name = true ∧ d.Stands O d')
      (resolveIn c levels) (resolveIn c levels') := by
  induction h with
  | nil => exact .none
  | @cons l l' rest rest' hl _ ih =>
    unfold resolveIn
    have hanswers := hl.answers hc
    generalize Level.answers l c = found, Level.answers l' c = found' at hanswers
    cases hanswers with
    | nil => exact ih
    | @cons first first' others others' hfirst hothers =>
      have hone : (others'.all fun other => other.sameAs first') =
          others.all fun other => other.sameAs first :=
        all_eq_of_rel hothers fun _ _ hother => hother.2.sameAs hfirst.2 hc hother.1
      simp only [hone]
      split
      · exact .some (.ok hfirst)
      · exact .some (.error rfl)

namespace Scope.Stands

variable {scope scope' : Scope}

/-- A reference by a name that is asked for means one column in both walks. -/
theorem resolve (h : scope.Stands O scope') {c : ColumnRef} (hc : O.naming.name c.name) :
    AlikeInKind (fun d d' => sameName d.name c.name = true ∧ d.Stands O d') (scope.resolve c)
      (scope'.resolve c) := by
  have hmeaning := resolveIn_stands h.levels hc
  have htable : scope'.hasTable c.qualifier = scope.hasTable c.qualifier :=
    any_eq_of_rel h.levels fun _ _ hl => any_eq_of_rel hl fun _ _ hd => hd.isOf c.qualifier
  unfold Scope.resolve
  rw [htable]
  generalize resolveIn c scope.levels = found, resolveIn c scope'.levels = found' at hmeaning
  cases hmeaning with
  | some halike => exact halike
  | none =>
    dsimp only
    split
    · exact .error rfl
    · exact .error rfl

end Scope.Stands

/-- The column that an expression is, through parentheses, goes by one of the names in it. -/
theorem Expr.Spelled.column? {N : Naming} {e : Expr} (he : e.Spelled N) {c : ColumnRef}
    (hc : e.column? = some c) : N.name c.name := by
  match e with
  | .paren inner => exact Expr.Spelled.column? (e := inner) he hc
  | .column _ =>
    cases hc
    exact he.2
  | .literal _ | .parameter _ | .arithmetic .. | .compare .. | .between .. | .inList ..
  | .inQuery .. | .like .. | .isNull .. | .and .. | .or .. | .not _ | .call .. | .case ..
  | .scalar _ | .hasRows _ | .star => cases hc

namespace Scope.Stands

variable {scope scope' : Scope} {c c' : SourceColumn}

theorem refersTo (h : scope.Stands O scope') (hc : c.Stands O c') {e : Expr}
    (he : e.Spelled O.naming) : scope'.refersTo c' e = scope.refersTo c e := by
  unfold Scope.refersTo Scope.columnOf? Scope.lookup?
  cases hcolumn : e.column? with
  | none => rfl
  | some asked =>
    have hasked := he.column? hcolumn
    have hmeaning := (h.resolve hasked).toOption
    dsimp only [Option.bind_some]
    generalize (scope.resolve asked).toOption = found,
      (scope'.resolve asked).toOption = found' at hmeaning
    cases hmeaning with
    | none => rfl
    | some hfound => exact hfound.2.sameAs hc hasked hfound.1

/-- A criterion proves the same columns not null. -/
theorem provesNotNull (h : scope.Stands O scope') (hc : c.Stands O c') {e : Expr}
    (he : e.Spelled O.naming) : scope'.provesNotNull c' e = scope.provesNotNull c e := by
  fun_induction Scope.provesNotNull scope c e with
  | case1 inner ih => exact ih he
  | case2 left right ihl ihr => simp only [Scope.provesNotNull, ihl he.1, ihr he.2]
  | case3 left right ihl ihr => simp only [Scope.provesNotNull, ihl he.1, ihr he.2]
  | case4 op left right =>
    simp only [Scope.provesNotNull, h.refersTo hc he.1, h.refersTo hc he.2]
  | case5 value => exact h.refersTo hc he
  | case6 e h1 h2 h3 h4 h5 => simp [Scope.provesNotNull]

end Scope.Stands

end

/-- What two walks have in common. -/
def Outlook.likeness (O : Outlook) : Likeness where
  Label _ _ := True
  Name := O.naming.Blurs
  Var := TypeVar.Stands O
  Place i i' := i' = i
  Column := SourceColumn.Stands O
  sameLabel _ := trivial
  label _ := trivial
  noName := .refl O.naming ""
  name h := h.name
  visibleTable h := h.visibleTable ▸ .refl O.naming _
  qualifiedName _ := trivial
  notNull h := h.notNull
  projected h := h.var.relabelled.projected
  info h := h.var.relabelled.info
  tied h _ := h.var

end QuerySignature
