import QuerySignature.Analysis.Output
import QuerySignature.Analysis.Query
import QuerySignature.Proofs.Sources.Related
import QuerySignature.Proofs.Spelling.Syntax

namespace QuerySignature

/-! # Columns by their plain forms

A walk does not only go down an expression. It also reads off it whether it is a column or a
placeholder, which equations its ANDs join, and which columns it mentions. All of this is the same in
the plain form, but for the names, which are in their plain forms themselves.

A walk over a statement and a walk over its plain form find the same columns at the same places, under
names of one plain form. A reference then means such columns in both, or is refused for the same kind of
reason, and whatever else is asked of the columns has the same answer.

- `Expr.column?_plain`, `Expr.isParameter_plain`, `Limit.isOne_plain`: through parentheses.
- `Expr.isStar_plain`, `soleParameter?_plain`: not through parentheses, which stay here.
- `Expr.equalities_plain`, `Expr.columns_plain`: the parts of a condition.
- `Scope.Respelled.resolve`: what a reference means.
- `Scope.Respelled.provesNotNull`, `Scope.Respelled.fixesKey`: what a criterion says of columns.
-/

namespace Expr

/-! ## Through parentheses -/

theorem bare_paren (s : Spelling) (e : Expr) : (s.paren e).bare = e.bare := by
  unfold Spelling.paren
  split <;> rfl

theorem bare_plain (s : Spelling) (e : Expr) : (e.plain s).bare = e.bare.plain s := by
  match e with
  | .paren inner =>
    show (s.paren (inner.plain s)).bare = inner.bare.plain s
    rw [bare_paren]
    exact bare_plain s inner
  | .literal _ | .column _ | .parameter _ | .arithmetic .. | .compare .. | .between ..
  | .inList .. | .inQuery .. | .like .. | .isNull .. | .and .. | .or .. | .not _ | .call ..
  | .case .. | .scalar _ | .hasRows _ | .star => rfl

/-- Without its parentheses, an expression is none in parentheses. -/
theorem bare_ne_paren (e inner : Expr) : e.bare ≠ .paren inner := by
  match e with
  | .paren e => exact bare_ne_paren e inner
  | .literal _ | .column _ | .parameter _ | .arithmetic .. | .compare .. | .between ..
  | .inList .. | .inQuery .. | .like .. | .isNull .. | .and .. | .or .. | .not _ | .call ..
  | .case .. | .scalar _ | .hasRows _ | .star => exact nofun

theorem isParameter_plain (s : Spelling) (e : Expr) : (e.plain s).isParameter = e.isParameter := by
  unfold isParameter
  rw [bare_plain]
  cases h : e.bare with
  | paren inner => exact absurd h (bare_ne_paren e inner)
  | _ => rfl

theorem column?_plain (s : Spelling) (e : Expr) :
    (e.plain s).column? = e.column?.map (ColumnRef.plain s) := by
  unfold column?
  rw [bare_plain]
  cases h : e.bare with
  | paren inner => exact absurd h (bare_ne_paren e inner)
  | _ => rfl

/-! ## Stars -/

theorem isStar_paren (s : Spelling) (e : Expr) : (s.paren e).isStar = false := by
  unfold Spelling.paren
  split
  case isTrue h =>
    rw [Bool.and_eq_true, Bool.not_eq_true'] at h
    exact h.2
  case isFalse => rfl

theorem isStar_plain (s : Spelling) (e : Expr) : (e.plain s).isStar = e.isStar := by
  cases e with
  | paren inner => exact isStar_paren s _
  | _ => rfl

/-! ## Conditions -/

theorem equalities_paren (s : Spelling) (e : Expr) : (s.paren e).equalities = e.equalities := by
  unfold Spelling.paren
  split <;> rfl

theorem equalities_plain (s : Spelling) (e : Expr) :
    (e.plain s).equalities =
      e.equalities.map fun sides => (sides.1.plain s, sides.2.plain s) := by
  match e with
  | .paren inner =>
    show (s.paren (inner.plain s)).equalities = _
    rw [equalities_paren]
    exact equalities_plain s inner
  | .and left right =>
    show (left.plain s).equalities ++ (right.plain s).equalities = List.map _ (_ ++ _)
    rw [equalities_plain s left, equalities_plain s right, List.map_append]
  | .compare op _ _ => cases op <;> rfl
  | .literal _ | .column _ | .parameter _ | .arithmetic .. | .between .. | .inList ..
  | .inQuery .. | .like .. | .isNull .. | .or .. | .not _ | .call .. | .case .. | .scalar _
  | .hasRows _ | .star => rfl

theorem columns_paren (s : Spelling) (e : Expr) : (s.paren e).columns = e.columns := by
  unfold Spelling.paren
  split <;> rfl

/-- Parentheses that stay around a placeholder hold no column. -/
theorem columnsOfAll_plainList (items plain : List Expr) :
    columnsOfAll (plainList items plain) = columnsOfAll plain := by
  unfold plainList
  split <;> rfl

mutual

theorem columns_plain (s : Spelling) (e : Expr) :
    (e.plain s).columns = e.columns.map (ColumnRef.plain s) := by
  match e with
  | .literal _ | .parameter _ | .star | .scalar _ | .hasRows _ => rfl
  | .column _ => rfl
  | .paren inner =>
    show (s.paren (inner.plain s)).columns = _
    rw [columns_paren]
    exact columns_plain s inner
  | .arithmetic _ left right | .compare _ left right | .and left right | .or left right
  | .like _ left right =>
    simp only [Expr.plain, Expr.columns, List.map_append, columns_plain s left,
      columns_plain s right]
  | .between _ value low high =>
    simp only [Expr.plain, Expr.columns, List.map_append, columns_plain s value,
      columns_plain s low, columns_plain s high]
  | .inList _ value items =>
    simp only [Expr.plain, Expr.columns, List.map_append, columnsOfAll_plainList,
      columns_plain s value, columnsOfAll_plain s items]
  | .inQuery _ value _ | .isNull _ value | .not value => exact columns_plain s value
  | .call _ _ arguments => exact columnsOfAll_plain s arguments
  | .case operand branches otherwise =>
    simp only [Expr.plain, Expr.columns, List.map_append, columnsOfSome_plain s operand,
      columnsOfBranches_plain s branches, columnsOfSome_plain s otherwise]

theorem columnsOfAll_plain (s : Spelling) (es : List Expr) :
    columnsOfAll (plainAll s es) = (columnsOfAll es).map (ColumnRef.plain s) := by
  match es with
  | [] => rfl
  | e :: rest =>
    simp only [plainAll, columnsOfAll, List.map_append, columns_plain s e,
      columnsOfAll_plain s rest]

theorem columnsOfSome_plain (s : Spelling) (o : Option Expr) :
    columnsOfSome (plainSome s o) = (columnsOfSome o).map (ColumnRef.plain s) := by
  match o with
  | none => rfl
  | some e => exact columns_plain s e

theorem columnsOfBranches_plain (s : Spelling) (bs : List WhenThen) :
    columnsOfBranches (plainWhens s bs) = (columnsOfBranches bs).map (ColumnRef.plain s) := by
  match bs with
  | [] => rfl
  | ⟨condition, result⟩ :: rest =>
    simp only [plainWhens, columnsOfBranches, List.map_append, columns_plain s condition,
      columns_plain s result, columnsOfBranches_plain s rest]

end

end Expr

/-! ## Parts of queries -/

/-- A placeholder stands for a whole list in the plain form exactly if it does in the text. -/
theorem soleParameter?_plain (s : Spelling) (items : List Expr) :
    soleParameter? (plainList items (plainAll s items)) = soleParameter? items := by
  match items with
  | [] => rfl
  | [e] =>
    cases e with
    | paren inner =>
      show soleParameter? (plainList [.paren inner] [s.paren (inner.plain s)]) = none
      generalize s.paren (inner.plain s) = plain
      cases plain <;> rfl
    | _ => rfl
  | first :: second :: rest =>
    have hkept : ∀ plain, plainList (first :: second :: rest) plain = plain := by
      intro plain
      cases first <;> rfl
    have hmany : ∀ (e e' : Expr) (es : List Expr), soleParameter? (e :: e' :: es) = none := by
      intro e e' es
      cases e <;> rfl
    rw [hkept, hmany]
    exact hmany _ _ _

theorem Limit.isOne_plain (s : Spelling) (limit : Option Limit) :
    (plainLimit s limit).any Limit.isOne = limit.any Limit.isOne := by
  rcases limit with _ | ⟨count, offset⟩
  · rfl
  · show Limit.isOne ⟨count.plain s, plainSome s offset⟩ = Limit.isOne ⟨count, offset⟩
    unfold Limit.isOne
    rw [Expr.bare_plain]
    cases h : count.bare with
    | paren inner => exact absurd h (Expr.bare_ne_paren count inner)
    | _ => rfl

theorem length_plainUnion (s : Spelling) (branches : List Branch) :
    (plainUnion s branches).length = branches.length := by
  induction branches with
  | nil => rfl
  | cons branch rest ih => exact congrArg (· + 1) ih

/-! ## Kinds of reasons -/

/-- A reason to refuse a statement, without its particulars. -/
inductive ErrorKind where
  | unsupported
  | clash
  | unknownTable
  | unknownColumn
  | ambiguousColumn
  | unknownFunction
  | wrongArity
  | wrongColumnCount
  deriving DecidableEq, Repr

/-- The kind of a reason. -/
def AnalysisError.kind : AnalysisError → ErrorKind
  | .unsupported _ => .unsupported
  | .clash _ => .clash
  | .unknownTable _ => .unknownTable
  | .unknownColumn _ _ => .unknownColumn
  | .ambiguousColumn _ _ => .ambiguousColumn
  | .unknownFunction _ => .unknownFunction
  | .wrongArity _ _ _ => .wrongArity
  | .wrongColumnCount _ _ => .wrongColumnCount

/-- Both fail for a reason of one kind, or both give related values. -/
inductive AlikeInKind {α β : Type} (R : α → β → Prop) :
    Except AnalysisError α → Except AnalysisError β → Prop
  | ok {a : α} {b : β} : R a b → AlikeInKind R (.ok a) (.ok b)
  | error {e e' : AnalysisError} : e.kind = e'.kind → AlikeInKind R (.error e) (.error e')

namespace AlikeInKind

variable {α β γ δ : Type} {R : α → β → Prop} {S : γ → δ → Prop} {x : Except AnalysisError α}
  {y : Except AnalysisError β}

theorem bind {f : α → Except AnalysisError γ} {g : β → Except AnalysisError δ}
    (h : AlikeInKind R x y) (hnext : ∀ a b, R a b → AlikeInKind S (f a) (g b)) :
    AlikeInKind S (x.bind f) (y.bind g) := by
  cases h with
  | ok hab => exact hnext _ _ hab
  | error hkind => exact .error hkind

theorem mono {R' : α → β → Prop} (h : AlikeInKind R x y) (hR : ∀ a b, R a b → R' a b) :
    AlikeInKind R' x y := by
  cases h with
  | ok hab => exact .ok (hR _ _ hab)
  | error hkind => exact .error hkind

/-- What is alike to a third is alike. -/
theorem through {P : α → γ → Prop} {Q : β → γ → Prop} {z : Except AnalysisError γ}
    (h : AlikeInKind P x z) (h' : AlikeInKind Q y z) (hR : ∀ a b c, P a c → Q b c → R a b) :
    AlikeInKind R x y := by
  cases h with
  | ok hac =>
    cases h' with
    | ok hbc => exact .ok (hR _ _ _ hac hbc)
  | error hkind =>
    cases h' with
    | error hkind' => exact .error (hkind.trans hkind'.symm)

/-- If the first gives a value, the second gives a related one. -/
theorem of_ok (h : AlikeInKind R x y) {a : α} (ha : x = .ok a) : ∃ b, y = .ok b ∧ R a b := by
  subst ha
  cases h with
  | ok hab => exact ⟨_, rfl, hab⟩

/-- If one gives a value, so does the other. -/
theorem toOption (h : AlikeInKind R x y) : Option.Rel R x.toOption y.toOption := by
  cases h with
  | ok hab => exact .some hab
  | error _ => exact .none

end AlikeInKind

/-! ## Columns -/

/-- Variables that differ in their labels only. -/
structure TypeVar.Relabelled (v v' : TypeVar) : Prop where
  id : v'.id = v.id
  info : v'.info = v.info
  list : v'.list = v.list
  projected : v'.projected = v.projected

theorem TypeVar.Relabelled.asProjected {v v' : TypeVar} (h : v.Relabelled v') :
    v.asProjected.Relabelled v'.asProjected :=
  ⟨h.id, h.info, h.list, rfl⟩

/-- One column, under names of one plain form. -/
structure SourceColumn.Respelled (s : Spelling) (c c' : SourceColumn) : Prop where
  table : s.Same c.table c'.table
  aliasName : s.Same c.aliasName c'.aliasName
  name : s.Same c.name c'.name
  var : c.var.Relabelled c'.var
  key : c'.key = c.key
  notNull : c'.notNull = c.notNull

/-- Levels of the same columns at the same places. -/
abbrev Level.Respelled (s : Spelling) (l l' : Level) : Prop :=
  List.Forall₂ (SourceColumn.Respelled s) l l'

/-- Scopes of the same columns at the same places. -/
abbrev Scope.Respelled (s : Spelling) : Scope → Scope → Prop :=
  Scope.Related (SourceColumn.Respelled s)

theorem Level.Respelled.filter {s : Spelling} {l l' : Level} (h : l.Respelled s l')
    {p p' : SourceColumn → Bool} (hp : ∀ c c', c.Respelled s c' → p' c' = p c) :
    Level.Respelled s (l.filter p) (l'.filter p') :=
  List.rel_filter (fun c c' hc => by simp only [hp c c' hc]) h

namespace SourceColumn.Respelled

variable {s : Spelling} {c c' d d' : SourceColumn}

theorem visibleTable (h : c.Respelled s c') : s.Same c.visibleTable c'.visibleTable := by
  unfold SourceColumn.visibleTable
  rw [h.aliasName.isEmpty]
  split
  · exact h.table
  · exact h.aliasName

theorem isOf (h : c.Respelled s c') {table table' : String} (htable : s.Same table table') :
    c'.isOf table' = c.isOf table :=
  h.visibleTable.compared htable

theorem answers (h : c.Respelled s c') {qualifier qualifier' name name' : String}
    (hqualifier : s.Same qualifier qualifier') (hname : s.Same name name') :
    c'.answers qualifier' name' = c.answers qualifier name := by
  unfold SourceColumn.answers
  rw [h.name.compared hname, hqualifier.isEmpty, h.isOf hqualifier]

theorem sameAs (h : c.Respelled s c') (h' : d.Respelled s d') : c'.sameAs d' = c.sameAs d := by
  unfold SourceColumn.sameAs
  rw [h.visibleTable.compared h'.visibleTable, h.name.compared h'.name]

theorem isShared (h : c.Respelled s c') (names : List String) :
    c'.isShared (names.map s.name) = c.isShared names := by
  unfold SourceColumn.isShared
  rw [List.any_map]
  exact congrArg names.any (funext fun name => (s.same_name name).compared h.name)

theorem nullable (h : c.Respelled s c') : c.nullable.Respelled s c'.nullable :=
  { h with notNull := rfl }

/-- Under another alias. -/
theorem withAlias (h : c.Respelled s c') {aliasName aliasName' : String}
    (halias : s.Same aliasName aliasName') :
    SourceColumn.Respelled s { c with aliasName } { c' with aliasName := aliasName' } :=
  { h with aliasName := halias }

end SourceColumn.Respelled

/-! ## What a reference means -/

theorem Level.Respelled.answers {s : Spelling} {l l' : Level} (h : l.Respelled s l') (c : ColumnRef) :
    Level.Respelled s (Level.answers l c) (Level.answers l' (c.plain s)) :=
  h.filter fun _ _ hd => hd.answers (s.qualifier_plain c) (s.same_name c.name)

/-- The columns that a qualified star stands for. -/
theorem Level.Respelled.ofTable {s : Spelling} {l l' : Level} (h : l.Respelled s l')
    (table : String) : Level.Respelled s (Level.ofTable l table) (Level.ofTable l' (s.name table)) :=
  h.filter fun _ _ hd => hd.isOf (s.same_name table)

theorem resolveIn_respelled {s : Spelling} {levels levels' : List Level}
    (h : List.Forall₂ (Level.Respelled s) levels levels') (c : ColumnRef) :
    Option.Rel (AlikeInKind (SourceColumn.Respelled s)) (resolveIn c levels)
      (resolveIn (c.plain s) levels') := by
  induction h with
  | nil => exact .none
  | @cons l l' rest rest' hl _ ih =>
    unfold resolveIn
    have hanswers := hl.answers c
    generalize Level.answers l c = found, Level.answers l' (c.plain s) = found' at hanswers
    cases hanswers with
    | nil => exact ih
    | @cons first first' others others' hfirst hothers =>
      have hone : (others'.all fun other => other.sameAs first') =
          others.all fun other => other.sameAs first :=
        all_eq_of_rel hothers fun _ _ hother => hother.sameAs hfirst
      simp only [hone]
      split
      · exact .some (.ok hfirst)
      · exact .some (.error rfl)

namespace Scope.Respelled

variable {s : Spelling} {scope scope' : Scope} {c c' : SourceColumn}

theorem hasTable (h : scope.Respelled s scope') {table table' : String}
    (htable : s.Same table table') : scope'.hasTable table' = scope.hasTable table :=
  any_eq_of_rel h.levels fun _ _ hl => any_eq_of_rel hl fun _ _ hc => hc.isOf htable

/-- A reference means one column, or is refused for a reason of one kind. -/
theorem resolve (h : scope.Respelled s scope') (c : ColumnRef) :
    AlikeInKind (SourceColumn.Respelled s) (scope.resolve c) (scope'.resolve (c.plain s)) := by
  have hmeaning := resolveIn_respelled h.levels c
  have hqualifier := s.qualifier_plain c
  unfold Scope.resolve
  rw [h.hasTable hqualifier, hqualifier.isEmpty]
  generalize resolveIn c scope.levels = found, resolveIn (c.plain s) scope'.levels = found'
    at hmeaning
  cases hmeaning with
  | some halike => exact halike
  | none =>
    dsimp only
    split
    · exact .error rfl
    · exact .error rfl

theorem lookup? (h : scope.Respelled s scope') (c : ColumnRef) :
    Option.Rel (SourceColumn.Respelled s) (scope.lookup? c) (scope'.lookup? (c.plain s)) :=
  (h.resolve c).toOption

theorem columnOf? (h : scope.Respelled s scope') (e : Expr) :
    Option.Rel (SourceColumn.Respelled s) (scope.columnOf? e) (scope'.columnOf? (e.plain s)) := by
  unfold Scope.columnOf?
  rw [Expr.column?_plain]
  cases e.column? with
  | none => exact .none
  | some c => exact h.lookup? c

/-! ## What a criterion says -/

theorem refersTo (h : scope.Respelled s scope') (hc : c.Respelled s c') (e : Expr) :
    scope'.refersTo c' (e.plain s) = scope.refersTo c e := by
  have hcolumn := h.columnOf? e
  unfold Scope.refersTo
  generalize scope.columnOf? e = found, scope'.columnOf? (e.plain s) = found' at hcolumn
  cases hcolumn with
  | none => rfl
  | some hfound => exact hfound.sameAs hc

/-- A criterion proves a column not null through parentheses. -/
theorem provesNotNull (h : scope.Respelled s scope') (hc : c.Respelled s c') (e : Expr) :
    scope'.provesNotNull c' (e.plain s) = scope.provesNotNull c e := by
  fun_induction Scope.provesNotNull scope c e with
  | case1 inner ih =>
    have hparen : scope'.provesNotNull c' (s.paren (inner.plain s)) =
        scope'.provesNotNull c' (inner.plain s) := by
      unfold Spelling.paren
      split <;> rfl
    exact hparen.trans ih
  | case2 left right ihl ihr => simp only [Expr.plain, Scope.provesNotNull, ihl, ihr]
  | case3 left right ihl ihr => simp only [Expr.plain, Scope.provesNotNull, ihl, ihr]
  | case4 op left right =>
    simp only [Expr.plain, Scope.provesNotNull, h.refersTo hc]
  | case5 value => simp only [Expr.plain, Scope.provesNotNull, h.refersTo hc]
  | case6 e hparen hand hor hcompare hnull =>
    cases e with
    | paren inner => exact absurd rfl (hparen inner)
    | and left right => exact absurd rfl (hand left right)
    | or left right => exact absurd rfl (hor left right)
    | compare op left right => exact absurd rfl (hcompare op left right)
    | isNull negated value =>
      cases negated with
      | true => exact absurd rfl (hnull value)
      | false => rfl
    | _ => rfl

theorem isPrimaryKey (h : scope.Respelled s scope') (e : Expr) :
    scope'.isPrimaryKey (e.plain s) = scope.isPrimaryKey e := by
  unfold Scope.isPrimaryKey
  rw [Expr.column?_plain]
  cases e.column? with
  | none => rfl
  | some c =>
    refine any_eq_of_rel h.columns fun d d' hd => ?_
    show (d'.answers (c.plain s).qualifier (s.name c.name) && d'.key == .primary) = _
    rw [hd.answers (s.qualifier_plain c) (s.same_name c.name), hd.key]

theorem fixesKey (h : scope.Respelled s scope') (e : Expr) :
    scope'.fixesKey (e.plain s) = scope.fixesKey e := by
  unfold Scope.fixesKey
  rw [Expr.equalities_plain, List.any_map]
  refine congrArg e.equalities.any (funext fun sides => ?_)
  show (scope'.isPrimaryKey (sides.1.plain s) || scope'.isPrimaryKey (sides.2.plain s)) = _
  rw [h.isPrimaryKey, h.isPrimaryKey]

end Scope.Respelled

end QuerySignature
