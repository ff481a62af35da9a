import QuerySignature.Proofs.Solver.Solving
import QuerySignature.Proofs.Walk.Parts

namespace QuerySignature

/-! # What a walk leaves behind

A walk beside itself: whatever a step adds speaks of variables that have been made, in the types
that they were made with, and no step takes back a constraint. Two walks that go one way at first, and
part when all the numbers that stay have been given, have the same variables so far.

- `Run.Sound.advance`: a step of a walk leaves a sound run, with the constraints that there were in
  front.
- `Run.Sound.carries`: in a sound run all copies of a variable carry one type.
- `Scope.Matches.kept`, `BranchResult.Matches.kept`, ...: what one walk has found before they part
  matches itself.
- `Run.Sound.parted`: the runs of two walks that part match, too, when only one of them has gone on.
-/

/-- The types of the variables of a run by their numbers. -/
def initialOf (made : List TypeInfo) (id : Nat) : TypeInfo := made[id - 1]?.getD .unknown

/-- An equation between variables that have been made. -/
def Equation.Issued (made : List TypeInfo) (step : Equation) : Prop :=
  step.2.1.Issued made ∧ step.2.2.Issued made

theorem TypeVar.Issued.carries {made : List TypeInfo} {v : TypeVar} (h : v.Issued made) :
    v.Carries (initialOf made) := by
  unfold TypeVar.Carries initialOf
  rw [h.2]
  rfl

theorem Equation.Issued.mono {made made' : List TypeInfo} {step : Equation} (h : step.Issued made)
    (hgrows : made <+: made') : step.Issued made' :=
  ⟨h.1.mono hgrows, h.2.mono hgrows⟩

theorem Equation.Issued.carries {made : List TypeInfo} {step : Equation} (h : step.Issued made) :
    step.Carries (initialOf made) :=
  ⟨h.1.carries, h.2.carries⟩

/-- The equations of matching constraints, with the constraints that ask for them. -/
structure Equation.Matches (ρ : Renaming) (made : List TypeInfo) (step step' : Equation) : Prop where
  label : step'.1.label = step.1.label
  strength : step'.1.strength = step.1.strength
  coercion : step'.1.coercion = step.1.coercion
  left : step.2.1.Matches ρ made step'.2.1
  right : step.2.2.Matches ρ made step'.2.2

theorem Equation.Matches.issued {ρ : Renaming} {made : List TypeInfo} {step step' : Equation}
    (h : step.Matches ρ made step') : step.Issued made :=
  ⟨h.left.issued, h.right.issued⟩

theorem equationsOf_matches {ρ : Renaming} {made : List TypeInfo} {cs cs' : List Constraint}
    (h : List.Forall₂ (Constraint.Matches ρ made) cs cs') :
    List.Forall₂ (Equation.Matches ρ made) (equationsOf cs) (equationsOf cs') := by
  induction h with
  | nil => exact .nil
  | @cons c c' rest rest' hc _ ih =>
    show List.Forall₂ _ (c.equations.map (fun pair => (c, pair)) ++ equationsOf rest)
      (c'.equations.map (fun pair => (c', pair)) ++ equationsOf rest')
    refine List.rel_append ?_ ih
    rw [List.forall₂_map_left_iff, List.forall₂_map_right_iff]
    exact hc.equations.imp fun _ _ hp => ⟨hc.label, hc.strength, hc.coercion, hp.1, hp.2⟩

theorem issued_of_matches {ρ : Renaming} {made : List TypeInfo} {cs cs' : List Constraint}
    (h : List.Forall₂ (Constraint.Matches ρ made) cs cs') :
    ∀ step ∈ equationsOf cs, step.Issued made := by
  have hsteps := equationsOf_matches h
  generalize equationsOf cs' = steps' at hsteps
  generalize equationsOf cs = steps at hsteps ⊢
  induction hsteps with
  | nil => exact fun _ hmem => absurd hmem List.not_mem_nil
  | cons hhead _ ih =>
    intro step hmem
    rcases List.mem_cons.1 hmem with rfl | hmem
    · exact hhead.issued
    · exact ih step hmem

/-! ## Sound runs -/

/-- A run that speaks only of variables that it has made. -/
structure Run.Sound (made : List TypeInfo) (r : Run) : Prop where
  issued : r.issued = made.length
  steps : ∀ step ∈ equationsOf r.constraints, step.Issued made
  ctes : ∀ entry ∈ r.ctes, Level.Issued made entry.2
  placeholders : Placeholder.AllIssued made r.placeholders

/-- No renumbering. -/
def Renaming.none : Renaming := ⟨0, 0⟩

@[simp] theorem Renaming.none_apply (id : Nat) : Renaming.none.apply id = id := by
  simp [apply, none]

@[simp] theorem Renaming.none_var (v : TypeVar) : Renaming.none.var v = v :=
  var_of_shift_zero 0 v

@[simp] theorem Renaming.none_column (c : SourceColumn) : Renaming.none.column c = c := by
  unfold column
  rw [none_var]

@[simp] theorem Renaming.none_level (l : Level) : Renaming.none.level l = l := by
  have hcolumn : Renaming.none.column = id := funext none_column
  unfold level
  rw [hcolumn, List.map_id]

namespace Run.Sound

variable {made : List TypeInfo} {r : Run}

theorem start : Run.start.Sound [] :=
  ⟨rfl, fun _ h => absurd h List.not_mem_nil, fun _ h => absurd h List.not_mem_nil, .nil⟩

/-- All copies of a variable carry one type. -/
theorem carries (h : r.Sound made) : ∀ step ∈ equationsOf r.constraints,
    step.Carries (initialOf made) :=
  fun step hstep => (h.steps step hstep).carries

theorem seesAlike (h : r.Sound made) (name : String) :
    r.SeesAlike Renaming.none made r name := by
  unfold Run.SeesAlike Run.cte?
  cases hfind : r.ctes.find? fun entry => sameName entry.1 name with
  | none => exact .none
  | some entry => exact .some ⟨h.ctes entry (List.mem_of_find?_eq_some hfind), by simp⟩

theorem beside (h : r.Sound made) : r.Matches ⟨.none, r.constraints, r.constraints⟩ made r :=
  ⟨h.issued, Nat.zero_le _, h.issued, ⟨[], [], by simp, by simp, .nil⟩, h.placeholders⟩

/-- The run after steps from a sound run is sound. -/
theorem of_matches (h : r.Sound made) {made' : List TypeInfo} (hgrows : made <+: made') {s : Run}
    (hs : s.Matches ⟨.none, r.constraints, r.constraints⟩ made' s)
    (hctes : ∀ entry ∈ s.ctes, Level.Issued made' entry.2) :
    s.Sound made' ∧ r.constraints <+: s.constraints := by
  rcases hs.constraints with ⟨added, added', hadded, hadded', hmatch⟩
  refine ⟨⟨hs.issued, ?_, hctes, hs.placeholders⟩, ⟨added, hadded.symm⟩⟩
  intro step hstep
  rw [hadded, equationsOf_append] at hstep
  rcases List.mem_append.1 hstep with hstep | hstep
  · exact (h.steps step hstep).mono hgrows
  · exact issued_of_matches hmatch step hstep

/-- A run with other placeholders that have been made is as sound. -/
theorem withPlaceholders (h : r.Sound made) {ps : List Placeholder}
    (hps : Placeholder.AllIssued made ps) : Run.Sound made { r with placeholders := ps } :=
  ⟨h.issued, h.steps, h.ctes, hps⟩

/-- A step beside itself leads from a sound run to a sound run. -/
theorem advance (h : r.Sound made) {α : Type} {R : List TypeInfo → α → α → Prop} {step : Analyze α}
    (hstep : Parallel ⟨.none, r.constraints, r.constraints⟩ (fun _ => True) made R step step)
    {a : α} {s : Run} (hs : step.outcome r = .ok (a, s)) :
    ∃ made', made <+: made' ∧ s.Sound made' ∧ r.constraints <+: s.constraints ∧
      s.ctes = r.ctes ∧ R made' a a := by
  have halike := hstep r r h.beside fun name _ => h.seesAlike name
  rw [hs] at halike
  rcases halike with ⟨made', hreached, hR⟩
  obtain ⟨hsound, hkept⟩ := h.of_matches hreached.grows hreached.runs (by
    intro entry hentry
    rw [hreached.ctes] at hentry
    exact (h.ctes entry hentry).mono hreached.grows)
  exact ⟨made', hreached.grows, hsound, hkept, hreached.ctes, hR⟩

end Run.Sound

theorem LevelsMatch.beside {made : List TypeInfo} {levels : List Level}
    (h : ∀ l ∈ levels, Level.Issued made l) : LevelsMatch .none made levels levels := by
  refine ⟨h, ?_⟩
  have hmap : (withColumns levels).map Renaming.none.level = (withColumns levels).map id :=
    List.map_congr_left fun l _ => Renaming.none_level l
  rw [hmap, List.map_id]

/-- A query leads from a sound run to a sound run, and its columns have variables that have been
made. -/
theorem Run.Sound.query {made : List TypeInfo} {r : Run} (h : r.Sound made) {setting : Setting}
    {outer : List Level} (houter : ∀ l ∈ outer, Level.Issued made l) {q : Select}
    {result : QueryResult} {s : Run}
    (hs : (inferQuery setting outer q).outcome r = .ok (result, s)) :
    ∃ made', made <+: made' ∧ s.Sound made' ∧ r.constraints <+: s.constraints ∧
      s.ctes = r.ctes ∧ QueryResult.Matches .none made' result result :=
  h.advance (.query setting q (Parallel.reads_all _) (.beside houter)) hs

/-- Listed sources lead from a sound run to a sound run, and their columns have variables that have
been made. -/
theorem Run.Sound.sources {made : List TypeInfo} {r : Run} (h : r.Sound made) {setting : Setting}
    {done : Sources} (hdone : done.Matches .none made done) {xs : List Source} {listed : Sources}
    {s : Run} (hs : (inferSources setting done xs).outcome r = .ok (listed, s)) :
    ∃ made', made <+: made' ∧ s.Sound made' ∧ r.constraints <+: s.constraints ∧
      s.ctes = r.ctes ∧ listed.Matches .none made' listed :=
  h.advance (.sourceList setting xs (Parallel.reads_all _) hdone) hs

/-- Joined sources do so, too. -/
theorem Run.Sound.joins {made : List TypeInfo} {r : Run} (h : r.Sound made) {setting : Setting}
    {outer : List Level} (houter : ∀ l ∈ outer, Level.Issued made l) {done : Sources}
    (hdone : done.Matches .none made done) {previous : String} {js : List Join} {joined : Sources}
    {s : Run} (hs : (inferJoins setting outer done previous js).outcome r = .ok (joined, s)) :
    ∃ made', made <+: made' ∧ s.Sound made' ∧ r.constraints <+: s.constraints ∧
      s.ctes = r.ctes ∧ joined.Matches .none made' joined :=
  h.advance (.joinList setting js (Parallel.reads_all _) (.beside houter) hdone previous) hs

/-- A common table after the one before it. -/
theorem outcome_inferCtes_cons (setting : Setting) (outer : List Level) (cte : Cte)
    (rest : List Cte) (r : Run) :
    (inferCtes setting outer (cte :: rest)).outcome r =
      ((inferQuery setting outer cte.query).outcome r).bind fun p =>
        (inferCtes setting outer rest).outcome
          { p.2 with ctes := (cte.name, levelOf cte.name p.1.columns) :: p.2.ctes } := by
  rcases cte with ⟨name, q⟩
  conv_lhs => unfold inferCtes
  rw [Analyze.outcome_bind]
  rfl

theorem Run.Sound.declare {made : List TypeInfo} {r : Run} (h : r.Sound made) (name : String)
    {l : Level} (hl : l.Issued made) : Run.Sound made { r with ctes := (name, l) :: r.ctes } := by
  refine ⟨h.issued, h.steps, fun entry hentry => ?_, h.placeholders⟩
  rcases List.mem_cons.1 hentry with rfl | hentry
  · exact hl
  · exact h.ctes entry hentry

/-- Common tables lead from a sound run to a sound run. -/
theorem Run.Sound.commonTables {made : List TypeInfo} {r : Run} (h : r.Sound made)
    {setting : Setting} {outer : List Level} (houter : ∀ l ∈ outer, Level.Issued made l)
    {ctes : List Cte} {s : Run} (hs : (inferCtes setting outer ctes).outcome r = .ok ((), s)) :
    ∃ made', made <+: made' ∧ s.Sound made' ∧ r.constraints <+: s.constraints := by
  induction ctes generalizing made r with
  | nil =>
    cases hs
    exact ⟨made, List.prefix_rfl, h, List.prefix_rfl⟩
  | cons cte rest ih =>
    rw [outcome_inferCtes_cons] at hs
    rcases bind_eq_ok.1 hs with ⟨⟨result, t⟩, hquery, hs⟩
    rcases h.query houter hquery with ⟨made₁, hgrows₁, hsound₁, hkept₁, -, hresult⟩
    obtain ⟨made₂, hgrows₂, hsound₂, hkept₂⟩ :=
      ih (hsound₁.declare cte.name (levelOf_matches cte.name hresult).1)
        (fun l hl => (houter l hl).mono hgrows₁) hs
    exact ⟨made₂, hgrows₁.trans hgrows₂, hsound₂, hkept₁.trans hkept₂⟩

/-! ## Branches -/

theorem nothing_outer {made : List TypeInfo} : ∀ l ∈ ([] : List Level), Level.Issued made l :=
  fun _ hl => absurd hl List.not_mem_nil

theorem Sources.Matches.empty (made : List TypeInfo) : Sources.Matches .none made .empty .empty :=
  ⟨fun _ hc => absurd hc List.not_mem_nil, rfl⟩

theorem Scope.Matches.beside {made : List TypeInfo} {scope : Scope}
    (hcolumns : scope.columns.Issued made) (houter : ∀ l ∈ scope.outer, Level.Issued made l) :
    Scope.Matches .none made scope scope :=
  ⟨hcolumns, (Renaming.none_level _).symm, .beside houter⟩

namespace Run.Sound

variable {made : List TypeInfo} {r s : Run} {setting : Setting} {outer : List Level}

theorem union (h : r.Sound made) (houter : ∀ l ∈ outer, Level.Issued made l) {bs : List Branch}
    {results : List BranchResult}
    (hs : (inferUnion setting outer bs).outcome r = .ok (results, s)) :
    ∃ made', made <+: made' ∧ s.Sound made' ∧ r.constraints <+: s.constraints ∧
      s.ctes = r.ctes ∧ List.Forall₂ (BranchResult.Matches .none made') results results :=
  h.advance (.union setting bs (Parallel.reads_all _) (.beside houter)) hs

/-- The part of a branch before its GROUP BY leads from a sound run to a sound run. -/
theorem front (h : r.Sound made) (houter : ∀ l ∈ outer, Level.Issued made l) {b : Branch}
    {front : Sources × List OutputColumn}
    (hs : (inferFront setting outer b).outcome r = .ok (front, s)) :
    ∃ made', made <+: made' ∧ s.Sound made' ∧ r.constraints <+: s.constraints ∧
      s.ctes = r.ctes ∧ front.1.Matches .none made' front.1 ∧
      List.Forall₂ (OutputColumn.Matches .none made') front.2 front.2 := by
  obtain ⟨joined, columns⟩ := front
  obtain ⟨listed, rs, rj, ri, _, hsources, hjoins, hitems, hcriteria⟩ := clauses_of_front hs
  rcases h.sources (.empty made) hsources with ⟨made₁, hgrows₁, hsound₁, hkept₁, hctes₁, hlisted⟩
  have houter₁ := fun l hl => (houter l hl).mono hgrows₁
  rcases hsound₁.joins houter₁ hlisted hjoins with ⟨made₂, hgrows₂, hsound₂, hkept₂, hctes₂, hjoined⟩
  have hscope : Scope.Matches .none made₂ ⟨joined.columns, outer⟩ ⟨joined.columns, outer⟩ :=
    .beside hjoined.issued fun l hl => (houter₁ l hl).mono hgrows₂
  have hlater := hsound₂.placeholders.subset (List.drop_subset r.placeholders.length _)
  obtain ⟨made₃, hgrows₃, hsound₃, hkept₃, hctes₃, hcolumns⟩ := (hsound₂.withPlaceholders
    (hsound₂.placeholders.subset (List.take_subset r.placeholders.length _))).advance
    (.items setting b.items (Parallel.reads_all _) hscope) hitems
  obtain ⟨made₄, hgrows₄, hsound₄, hkept₄, hctes₄, -⟩ := (hsound₃.withPlaceholders
    (hsound₃.placeholders.append (hlater.mono hgrows₃))).advance
    (.some setting b.criteria (Parallel.reads_all _) (hscope.mono hgrows₃)) hcriteria
  refine ⟨made₄, hgrows₁.trans (hgrows₂.trans (hgrows₃.trans hgrows₄)), hsound₄,
    hkept₁.trans (hkept₂.trans (hkept₃.trans hkept₄)), ?_, ?_, ?_⟩
  · exact hctes₄.trans (hctes₃.trans (hctes₂.trans hctes₁))
  · exact (hjoined.mono hgrows₃).mono hgrows₄
  · exact hcolumns.imp fun _ _ hc => hc.mono hgrows₄

end Run.Sound

/-! ## Before two walks part -/

section Kept

variable {ρ : Renaming} {made : List TypeInfo} (hkept : ρ.kept = made.length)

include hkept

theorem TypeVar.Issued.kept {v : TypeVar} (h : v.Issued made) : ρ.var v = v :=
  Renaming.var_of_le (hkept ▸ h.le)

theorem Level.Issued.kept {l : Level} (h : l.Issued made) : ρ.level l = l :=
  Renaming.level_of_le fun c hc => hkept ▸ (h c hc).le

theorem OutputColumn.Matches.kept {c : OutputColumn} (h : OutputColumn.Matches .none made c c) :
    OutputColumn.Matches ρ made c c where
  name := rfl
  var := ⟨h.var.issued, (h.var.issued.kept hkept).symm⟩
  unionVars := by
    refine List.forall₂_same.2 fun v hv => ?_
    have hissued := (List.forall₂_same.1 h.unionVars v hv).issued
    exact ⟨hissued, (hissued.kept hkept).symm⟩
  notNull := rfl
  table := rfl
  sourceIssued := h.sourceIssued
  source := by
    cases hsource : c.source with
    | none => rfl
    | some d =>
      have hcolumn : ρ.column d = d := Renaming.column_of_le (hkept ▸ (h.sourceIssued d hsource).le)
      rw [Option.map_some, hcolumn]

theorem LevelsMatch.kept {levels : List Level} (h : ∀ l ∈ levels, Level.Issued made l) :
    LevelsMatch ρ made levels levels := by
  refine ⟨h, ?_⟩
  have hmap : (withColumns levels).map ρ.level = (withColumns levels).map id :=
    List.map_congr_left fun l hl => (h l (List.mem_of_mem_filter hl)).kept hkept
  rw [hmap, List.map_id]

theorem Scope.Matches.kept {scope : Scope} (h : Scope.Matches .none made scope scope) :
    Scope.Matches ρ made scope scope :=
  ⟨h.issued, (h.issued.kept hkept).symm, .kept hkept h.outer.issued⟩

theorem BranchResult.Matches.kept {b : BranchResult} (h : BranchResult.Matches .none made b b) :
    BranchResult.Matches ρ made b b where
  columns := List.forall₂_same.2 fun c hc => (List.forall₂_same.1 h.columns c hc).kept hkept
  issued := h.issued
  visible := (h.issued.kept hkept).symm

/-- The runs of both walks when one of them has gone on. -/
theorem Run.Sound.parted {before behind : Run} (h : before.Sound made)
    (hissued : behind.issued = made.length + ρ.shift) :
    before.Matches ⟨ρ, before.constraints, behind.constraints⟩ made behind :=
  ⟨h.issued, Nat.le_of_eq hkept, hissued, ⟨[], [], by simp, by simp, .nil⟩, h.placeholders⟩

/-- What goes by a name among the common tables is its own counterpart. -/
theorem Run.Sound.partedSeesAlike {before behind : Run} (h : before.Sound made)
    (hctes : behind.ctes = before.ctes) (name : String) :
    before.SeesAlike ρ made behind name := by
  have halike := h.seesAlike name
  unfold Run.SeesAlike Run.cte? at halike ⊢
  rw [hctes]
  revert halike
  cases (before.ctes.find? fun entry => sameName entry.1 name).map (·.2) with
  | none => exact fun _ => .none
  | some l =>
    intro halike
    cases halike with
    | some hl => exact .some ⟨hl.1, (hl.1.kept hkept).symm⟩

end Kept

end QuerySignature
