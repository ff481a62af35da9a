import QuerySignature.Proofs.Abreast.Clauses
import QuerySignature.Proofs.Abreast.Pairing
import QuerySignature.Proofs.Abreast.Walk

namespace QuerySignature

/-! # Steps behind a run

A step that is taken behind another run does what it does alone: it adds the same variables,
constraints and placeholders, all of them behind those that are there, and it fails for the same
reasons. Nothing that it adds speaks of what was there before. A walk behind a run goes abreast of the
same walk from where nothing has happened.

Behind a run the variables are numbered from where it has stopped. Only the output columns of inner
queries are ever linked to by their numbers; a column of a table is read for its type alone, so that it
does not matter which number it has.

- `Pairing.moved`: a column stands for the same one behind other variables.
- `Sources.Behind.add`, `Sources.Behind.join`: so do the columns that a FROM clause shows.
- `Pasts.moved`: a run in which nothing has happened, beside the run that is ahead.
- `Behind.of_abreast`: steps that go abreast from there are steps behind the run.
- `Behind.branch`, `Behind.union`, `Behind.items`: the walk over branches and over a projection.
-/

/-! ## Variables -/

/-- A variable as it is numbered when so many others have been made before. -/
def TypeVar.moved (n : Nat) (v : TypeVar) : TypeVar := { v with id := v.id + n }

/-- A variable that a walk has made, and the same one behind `n` others. -/
structure TypeVar.Behind (n : Nat) (v v' : TypeVar) : Prop where
  made : 0 < v.id
  eq : v' = v.moved n

theorem TypeVar.behind_iff_paired {n : Nat} {v v' : TypeVar} :
    v.Behind n v' ↔ v.Paired (· + n) v' :=
  ⟨fun h => ⟨h.made, h.eq⟩, fun h => ⟨h.made, h.eq⟩⟩

/-! ## Columns -/

/-- A column and the same one behind `n` other variables. The number of its variable is looked at only
where the column is an output column of an inner query. -/
structure SourceColumn.Behind (n : Nat) (c c' : SourceColumn) : Prop where
  same : c' = { c with var := { c.var with id := c'.var.id } }
  tied : c.var.projected = true → c.var.Behind n c'.var

/-- A level and the same one behind `n` other variables. -/
abbrev Level.Behind (n : Nat) (l l' : Level) : Prop := List.Forall₂ (SourceColumn.Behind n) l l'

namespace SourceColumn.Behind

variable {n : Nat} {c c' : SourceColumn}

/-- A column of a table is the same wherever it stands. -/
theorem of_table (n : Nat) {c : SourceColumn} (h : c.var.projected = false) : c.Behind n c :=
  ⟨rfl, fun htied => absurd (h.symm.trans htied) Bool.false_ne_true⟩

/-- What does not look at the number of a column's variable is the same of both columns. -/
theorem read {α : Type} (h : c.Behind n c') (f : SourceColumn → α)
    (hf : ∀ (c : SourceColumn) id, f { c with var := { c.var with id } } = f c) : f c' = f c := by
  rw [h.same]
  exact hf c _

/-- A column with other features than its variable changed stays behind. -/
theorem change (h : c.Behind n c') (f : SourceColumn → SourceColumn)
    (hf : ∀ (c : SourceColumn) id,
      f { c with var := { c.var with id } } = { f c with var := { (f c).var with id } })
    (hvar : ∀ c, (f c).var = c.var) : (f c).Behind n (f c') := by
  refine ⟨?_, fun htied => ?_⟩
  · conv_lhs => rw [h.same, hf]
    rw [hvar c']
  · rw [hvar] at htied ⊢
    rw [hvar]
    exact h.tied htied

end SourceColumn.Behind

/-- The number of a column's variable does not show in a name. -/
theorem namedAlike_behind (n : Nat) : NamedAlike (SourceColumn.Behind n) :=
  ⟨fun h => h.read (·.name) fun _ _ => rfl, fun h => h.read SourceColumn.visibleTable fun _ _ => rfl⟩

/-- A column stands for the same one behind `n` other variables. -/
def Pairing.moved (n : Nat) : Pairing where
  number := (· + n)
  Columns := SourceColumn.Behind n
  named := namedAlike_behind n
  notNull h := h.read (·.notNull) fun _ _ => rfl
  projected h := h.read (·.var.projected) fun _ _ => rfl
  info h := h.read (·.var.info) fun _ _ => rfl
  tied h htied := TypeVar.behind_iff_paired.1 (h.tied htied)
  nullable h := h.change SourceColumn.nullable (fun _ _ => rfl) fun _ => rfl
  made table aliasName name key notNull hv := by
    refine ⟨?_, fun _ => TypeVar.behind_iff_paired.2 hv⟩
    rw [hv.eq]

/-! ## Scopes and clauses -/

/-- The levels that an expression sees, and the same ones behind `n` other variables. -/
abbrev LevelsBehind (n : Nat) (levels levels' : List Level) : Prop :=
  List.Forall₂ (Level.Behind n) levels levels'

/-- A scope and the same one behind `n` other variables. -/
structure Scope.Behind (n : Nat) (s s' : Scope) : Prop where
  columns : Level.Behind n s.columns s'.columns
  outer : LevelsBehind n s.outer s'.outer

theorem Scope.Behind.related {n : Nat} {s s' : Scope} (h : s.Behind n s') :
    s.Related (SourceColumn.Behind n) s' :=
  ⟨h.columns, h.outer⟩

/-- A FROM clause, and the same one behind `n` variables. -/
def Sources.Behind (n : Nat) (s s' : Sources) : Prop := Level.Behind n s.columns s'.columns

namespace Sources.Behind

variable {n : Nat} {s s' : Sources} {l l' : Level}

theorem add (h : s.Behind n s') (source : Source) (hl : l.Behind n l') :
    Sources.Behind n (s.add source l) (s'.add source l') :=
  List.rel_append h hl

theorem join (h : s.Behind n s') (outer outer' : List Level) (previous : String) (kind : JoinKind)
    (source : Source) (condition : JoinCondition) (hl : l.Behind n l') :
    Sources.Behind n (s.join outer previous kind source condition l)
      (s'.join outer' previous kind source condition l') := by
  have hearlier : (Pairing.moved n).Levels s.columns s'.columns := h
  have hadded : (Pairing.moved n).Levels (condition.added l) (condition.added l') :=
    Pairing.added hl condition
  exact List.rel_append (Pairing.earlier hearlier kind) (Pairing.joined hadded kind)

end Sources.Behind

/-! ## What a step gives -/

/-- An output column, and the same one behind a run. -/
structure OutputColumn.Behind (lead : Run) (c c' : OutputColumn) : Prop where
  name : c'.name = c.name
  var : c.var.Behind lead.issued c'.var
  unionVars : List.Forall₂ (TypeVar.Behind lead.issued) c.unionVars c'.unionVars
  notNull : c'.notNull = c.notNull
  table : c'.table = c.table
  source : Option.Rel (SourceColumn.Behind lead.issued) c.source c'.source
  placeholder : c'.placeholder = c.placeholder.map (lead.placeholders.length + ·)
  aggregate : c'.aggregate = c.aggregate

/-- A branch, and the same one behind a run. -/
structure BranchResult.Behind (lead : Run) (b b' : BranchResult) : Prop where
  columns : List.Forall₂ (OutputColumn.Behind lead) b.columns b'.columns
  visible : Level.Behind lead.issued b.visible b'.visible

/-- A constraint, and the same one behind `n` variables. -/
structure Constraint.Behind (n : Nat) (c c' : Constraint) : Prop where
  label : c'.label = c.label
  strength : c'.strength = c.strength
  coercion : c'.coercion = c.coercion
  equations : List.Forall₂ (fun p p' => p.1.Behind n p'.1 ∧ p.2.Behind n p'.2) c.equations
    c'.equations

/-- A placeholder behind `n` variables. -/
def Placeholder.moved (n : Nat) (p : Placeholder) : Placeholder := { p with var := p.var.moved n }

/-- A common table, and the same one behind `n` variables. -/
structure TableBehind (n : Nat) (entry entry' : String × Level) : Prop where
  name : entry'.1 = entry.1
  columns : Level.Behind n entry.2 entry'.2

/-- A run, and the same one with a run ahead of it. -/
structure Run.Ahead (lead r r' : Run) : Prop where
  issued : r'.issued = lead.issued + r.issued
  constraints : ∃ added, r'.constraints = lead.constraints ++ added ∧
    List.Forall₂ (Constraint.Behind lead.issued) r.constraints added
  placeholders : r'.placeholders =
    lead.placeholders ++ r.placeholders.map (Placeholder.moved lead.issued)
  ctes : List.Forall₂ (TableBehind lead.issued) r.ctes r'.ctes
  /-- The placeholders are counted among the variables. -/
  numbered : ∀ p ∈ r.placeholders, 0 < p.var.id ∧ p.var.id ≤ r.issued

/-- A run without common tables stands ahead of one in which nothing has happened. -/
theorem Run.Ahead.start {lead : Run} (h : lead.ctes = []) : lead.Ahead .start lead :=
  ⟨rfl, ⟨[], (List.append_nil _).symm, .nil⟩, (List.append_nil _).symm, by rw [h]; exact .nil,
    fun _ hp => absurd hp List.not_mem_nil⟩

/-! ## Runs abreast -/

/-- A run in which nothing has happened, and a run that is ahead of what follows. -/
def Pasts.moved (lead : Run) : Pasts where
  toPairing := .moved lead.issued
  first := .start
  second := lead
  later k := by
    show 0 + k + 1 + lead.issued = lead.issued + k + 1
    omega

section

variable {lead : Run}

theorem Pasts.place_moved_iff {place place' : Option Nat} :
    Option.Rel (Pasts.moved lead).Place place place' ↔
      place' = place.map (lead.placeholders.length + ·) := by
  constructor
  · rintro (⟨k, rfl, rfl⟩ | _)
    · show some _ = some (_ + (0 + k))
      rw [Nat.zero_add]
      rfl
    · rfl
  · rintro rfl
    cases place with
    | none => exact .none
    | some i => exact .some ⟨i, (Nat.zero_add i).symm, rfl⟩

theorem OutputColumn.behind_iff_abreast {c c' : OutputColumn} :
    c.Behind lead c' ↔ c.Abreast (.moved lead) c' := by
  constructor
  · intro h
    exact ⟨h.name, TypeVar.behind_iff_paired.1 h.var,
      h.unionVars.imp fun _ _ => TypeVar.behind_iff_paired.1, h.notNull, h.table, h.source,
      Pasts.place_moved_iff.2 h.placeholder, h.aggregate⟩
  · intro h
    exact ⟨h.name, TypeVar.behind_iff_paired.2 h.var,
      h.unionVars.imp fun _ _ => TypeVar.behind_iff_paired.2, h.notNull, h.table, h.source,
      Pasts.place_moved_iff.1 h.placeholder, h.aggregate⟩

theorem OutputColumn.rel_behind_iff_abreast {cs cs' : List OutputColumn} :
    List.Forall₂ (OutputColumn.Behind lead) cs cs' ↔
      List.Forall₂ (OutputColumn.Abreast (.moved lead)) cs cs' :=
  ⟨fun h => h.imp fun _ _ => OutputColumn.behind_iff_abreast.1,
    fun h => h.imp fun _ _ => OutputColumn.behind_iff_abreast.2⟩

theorem BranchResult.behind_of_abreast {b b' : BranchResult} (h : b.Abreast (.moved lead) b') :
    b.Behind lead b' :=
  ⟨OutputColumn.rel_behind_iff_abreast.2 h.columns, h.visible⟩

/-- WHERE proves the same output columns not null. -/
theorem proveColumns_behind {scope scope' : Scope} (hscope : scope.Behind lead.issued scope')
    (criteria : Option Expr) {cs cs' : List OutputColumn}
    (hcs : List.Forall₂ (OutputColumn.Behind lead) cs cs') :
    List.Forall₂ (OutputColumn.Behind lead) (proveColumns scope criteria cs)
      (proveColumns scope' criteria cs') := by
  rw [OutputColumn.rel_behind_iff_abreast] at hcs ⊢
  exact proveColumns_abreast hscope.related criteria hcs

theorem Constraint.behind_iff_paired {n : Nat} {c c' : Constraint} :
    c.Behind n c' ↔ c.Paired (· + n) c' := by
  constructor
  · intro h
    refine ⟨h.label, h.strength, h.coercion, h.equations.imp fun _ _ hp => ?_⟩
    exact ⟨TypeVar.behind_iff_paired.1 hp.1, TypeVar.behind_iff_paired.1 hp.2⟩
  · intro h
    refine ⟨h.label, h.strength, h.coercion, h.equations.imp fun _ _ hp => ?_⟩
    exact ⟨TypeVar.behind_iff_paired.2 hp.1, TypeVar.behind_iff_paired.2 hp.2⟩

theorem Placeholder.Paired.eq_moved {n issued : Nat} {p p' : Placeholder}
    (h : p.Paired (· + n) issued p') : p' = p.moved n := by
  have hvar : p'.var = p.var.moved n := (TypeVar.behind_iff_paired.2 h.var).eq
  have hname := h.name
  have hnotNull := h.notNull
  cases p'
  dsimp only at hvar hname hnotNull
  rw [hvar, hname, hnotNull]
  rfl

namespace Run.Ahead

variable {r r' : Run}

theorem abreast (h : lead.Ahead r r') : r.Abreast (.moved lead) r' := by
  obtain ⟨added, hadded, hbehind⟩ := h.constraints
  refine ⟨⟨r.issued, (Nat.zero_add _).symm, h.issued⟩,
    ⟨r.constraints, added, rfl, hadded, hbehind.imp fun _ _ => Constraint.behind_iff_paired.1⟩,
    ⟨r.placeholders, _, rfl, h.placeholders, ?_⟩⟩
  rw [List.forall₂_map_right_iff, List.forall₂_same]
  exact fun p hp => ⟨⟨(h.numbered p hp).1, rfl⟩, (h.numbered p hp).2, rfl, rfl⟩

/-- Under every name both runs know the same common table, or neither knows one. -/
theorem seesAlike (h : lead.Ahead r r') (name : String) : (Pasts.moved lead).SeesAlike r r' name := by
  have hctes := h.ctes
  unfold Pasts.SeesAlike Run.cte?
  generalize r.ctes = entries, r'.ctes = entries' at hctes
  induction hctes with
  | nil => exact .none
  | @cons entry entry' _ _ hentry _ ih =>
    rw [List.find?_cons, List.find?_cons, hentry.name]
    cases sameName entry.1 name with
    | false => exact ih
    | true =>
      refine .some fun aliasName => List.rel_map (fun c c' hc => ?_) hentry.columns
      exact hc.change (fun c => { c with aliasName }) (fun _ _ => rfl) fun _ => rfl

/-- What has been added abreast stands behind the run, where the common tables do. -/
theorem of_abreast (h : r.Abreast (.moved lead) r')
    (hctes : List.Forall₂ (TableBehind lead.issued) r.ctes r'.ctes) : lead.Ahead r r' := by
  obtain ⟨k, hissued, hissued'⟩ := h.issued
  obtain ⟨cs, cs', hcs, hcs', hpairs⟩ := h.constraints
  obtain ⟨ps, ps', hps, hps', hplaces⟩ := h.placeholders
  -- the first walk has set out where nothing has happened, so that all that it has is added
  have hissued : r.issued = k := hissued.trans (Nat.zero_add k)
  have hcs : r.constraints = cs := hcs
  have hps : r.placeholders = ps := hps
  refine ⟨?_, ⟨cs', hcs', ?_⟩, ?_, hctes, fun p hp => ?_⟩
  · rw [hissued]
    exact hissued'
  · rw [hcs]
    exact hpairs.imp fun _ _ => Constraint.behind_iff_paired.2
  · have hmoved : ps'.map id = ps.map (Placeholder.moved lead.issued) :=
      map_eq_of_rel hplaces fun _ _ hp => hp.eq_moved
    rw [hps, ← hmoved, List.map_id]
    exact hps'
  · rw [hps] at hp
    rcases exists_partner hplaces.flip hp with ⟨p', -, hpair⟩
    exact ⟨hpair.var.made, hpair.le⟩

end Run.Ahead

end

/-! ## Steps -/

/-- What two steps give from one run and the same one with a run ahead of it: values in a relation, and
runs like those before, with no fewer variables. -/
structure Passed {α β : Type} (lead : Run) (R : α → β → Prop) (r : Run) (p : α × Run) (p' : β × Run) :
    Prop where
  values : R p.1 p'.1
  runs : lead.Ahead p.2 p'.2
  grows : r.issued ≤ p.2.issued

/-- Two steps of which the second, taken behind a run, does what the first does alone: they fail
alike, or both give values in a relation. -/
def Behind {α β : Type} (lead : Run) (R : α → β → Prop) (step : Analyze α) (step' : Analyze β) :
    Prop :=
  ∀ r r', lead.Ahead r r' → Alike (Passed lead R r) (step.outcome r) (step'.outcome r')

/-- Steps that go abreast of what they do where nothing has happened are taken behind the run. -/
theorem Behind.of_abreast {α β : Type} {lead : Run} {R R' : α → β → Prop} {step : Analyze α}
    {step' : Analyze β} (h : Abreast (.moved lead) (fun _ => True) R step step')
    (hR : ∀ a b, R a b → R' a b) : Behind lead R' step step' := by
  intro r r' hr
  refine (h r r' hr.abreast fun name _ => hr.seesAlike name).mono fun p p' hp => ?_
  refine ⟨hR _ _ hp.values, .of_abreast hp.runs ?_, hp.grows⟩
  rw [hp.ctes, hp.ctes']
  exact hr.ctes

/-! ## Walks -/

namespace Behind

open Parallel (reads_all)

variable {lead : Run} {s s' : Scope} {outer outer' : List Level}

/-- An expression that may be there; what is found out of it is not compared. -/
theorem some (setting : Setting) (o : Option Expr) (hs : s.Behind lead.issued s') :
    Behind lead (fun _ _ => True) (inferSome setting s o) (inferSome setting s' o) :=
  .of_abreast (.some setting o (reads_all _) hs.related) fun _ _ _ => trivial

theorem branch (setting : Setting) (b : Branch) (ho : LevelsBehind lead.issued outer outer') :
    Behind lead (BranchResult.Behind lead) (inferBranch setting outer b)
      (inferBranch setting outer' b) :=
  .of_abreast (.branch setting b (reads_all _) ho) fun _ _ => BranchResult.behind_of_abreast

theorem union (setting : Setting) (bs : List Branch) (ho : LevelsBehind lead.issued outer outer') :
    Behind lead (List.Forall₂ (BranchResult.Behind lead)) (inferUnion setting outer bs)
      (inferUnion setting outer' bs) :=
  .of_abreast (.union setting bs (reads_all _) ho) fun _ _ hbs =>
    hbs.imp fun _ _ => BranchResult.behind_of_abreast

theorem item (setting : Setting) (i : Item) (hs : s.Behind lead.issued s') :
    Behind lead (List.Forall₂ (OutputColumn.Behind lead)) (inferItem setting s i)
      (inferItem setting s' i) :=
  .of_abreast (.item setting i (reads_all _) hs.related) fun _ _ =>
    OutputColumn.rel_behind_iff_abreast.2

theorem items (setting : Setting) (is : List Item) (hs : s.Behind lead.issued s') :
    Behind lead (List.Forall₂ (OutputColumn.Behind lead)) (inferItems setting s is)
      (inferItems setting s' is) :=
  .of_abreast (.items setting is (reads_all _) hs.related) fun _ _ =>
    OutputColumn.rel_behind_iff_abreast.2

end Behind

end QuerySignature
