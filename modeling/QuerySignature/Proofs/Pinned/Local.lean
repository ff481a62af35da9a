import QuerySignature.Proofs.Pinned.Visible
import QuerySignature.Proofs.Placeholders.Adds
import QuerySignature.Proofs.Solver.Interleaving

namespace QuerySignature

/-! # What a walk speaks of

A step of a walk speaks of variables that it makes itself, and of those that it has been given: by the
scope, by the common tables, by the parts that have been analysed. What it hands on can be spoken of
later, and nothing else ever is. A comparison makes a condition out of its operands and hands on the
condition alone; so the constraint between a placeholder and a column of a table remains the only one
that speaks of either.

- `Pinned`: a placeholder that some constraints tie to a column of a table, and to nothing else.
- `Reaches.trans`: what one walk has pinned, another one after it leaves pinned.
- `Local.bind`, `Local.after`: steps in a row.
-/

/-! ## Pinned placeholders -/

/-- The constraint that a comparison of two variables adds, on either side. -/
inductive Ties (v w : TypeVar) : Constraint → Prop where
  | left (label : String) : Ties v w (.strict label (.var v) (.var w))
  | right (label : String) : Ties v w (.strict label (.var w) (.var v))

/-- Constraints, place by place, tie two variables in one of them, and no other speaks of either. -/
def Tied (constraints : List Constraint) (v w : TypeVar) : Prop :=
  ∃ before tie after, constraints.flatMap Constraint.split = before ++ tie :: after ∧ Ties v w tie ∧
    v.id ≠ w.id ∧ ∀ u ∈ variablesOf (before ++ after), u.id ≠ v.id ∧ u.id ≠ w.id

/-- Constraints tie a placeholder to a variable of a type, and no more is said of the two. Their numbers
are among `own`. -/
def Pinned (own : Nat → Prop) (constraints : List Constraint) (v : TypeVar) (type : SqlType) : Prop :=
  ∃ w, Tied constraints v w ∧ v.info = .unknown ∧ w.info = .exact type ∧ own v.id ∧ own w.id

theorem variablesOf_append (first second : List Constraint) :
    variablesOf (first ++ second) = variablesOf first ++ variablesOf second :=
  List.flatMap_append

theorem speaks_of_nothing (own : Nat → Prop) : ∀ u ∈ variablesOf [], ¬ own u.id :=
  fun _ hu => absurd hu List.not_mem_nil

namespace Tied

variable {constraints : List Constraint} {v w : TypeVar}

theorem ne (h : Tied constraints v w) : v.id ≠ w.id := by
  obtain ⟨_, _, _, _, _, hne, _⟩ := h
  exact hne

theorem of_tie {tie : Constraint} (h : Ties v w tie) (hne : v.id ≠ w.id) : Tied [tie] v w := by
  refine ⟨[], tie, [], ?_, h, hne, fun u hu => absurd hu List.not_mem_nil⟩
  cases h with
  | left label => rfl
  | right label => rfl

/-- Constraints around others that do not speak of the two variables. -/
theorem between (h : Tied constraints v w) {first last : List Constraint}
    (hfirst : ∀ u ∈ variablesOf first, u.id ≠ v.id ∧ u.id ≠ w.id)
    (hlast : ∀ u ∈ variablesOf last, u.id ≠ v.id ∧ u.id ≠ w.id) :
    Tied (first ++ constraints ++ last) v w := by
  obtain ⟨before, tie, after, heq, htie, hne, hrest⟩ := h
  refine ⟨first.flatMap Constraint.split ++ before, tie, after ++ last.flatMap Constraint.split, ?_,
    htie, hne, ?_⟩
  · rw [List.flatMap_append, List.flatMap_append, heq]
    simp
  · intro u hu
    simp only [variablesOf_append, List.mem_append] at hu hrest
    rcases hu with (hu | hu) | hu | hu
    · exact hfirst u (mem_variablesOf_of_split hu)
    · exact hrest u (.inl hu)
    · exact hrest u (.inr hu)
    · exact hlast u (mem_variablesOf_of_split hu)

theorem behind (h : Tied constraints v w) {first : List Constraint}
    (hfirst : ∀ u ∈ variablesOf first, u.id ≠ v.id ∧ u.id ≠ w.id) :
    Tied (first ++ constraints) v w := by
  have hboth := h.between hfirst fun u (hu : u ∈ variablesOf []) => absurd hu List.not_mem_nil
  rwa [List.append_nil] at hboth

end Tied

namespace Pinned

variable {own own' : Nat → Prop} {constraints : List Constraint} {v : TypeVar} {type : SqlType}

theorem mono (h : Pinned own constraints v type) (hown : ∀ id, own id → own' id) :
    Pinned own' constraints v type := by
  obtain ⟨w, htied, hv, hw, hownv, hownw⟩ := h
  exact ⟨w, htied, hv, hw, hown _ hownv, hown _ hownw⟩

/-- Constraints around others that do not speak of their own variables. -/
theorem between (h : Pinned own constraints v type) {first last : List Constraint}
    (hfirst : ∀ u ∈ variablesOf first, ¬ own u.id) (hlast : ∀ u ∈ variablesOf last, ¬ own u.id) :
    Pinned own (first ++ constraints ++ last) v type := by
  obtain ⟨w, htied, hv, hw, hownv, hownw⟩ := h
  have haway : ∀ u : TypeVar, ¬ own u.id → u.id ≠ v.id ∧ u.id ≠ w.id :=
    fun u hnot => ⟨fun heq => hnot (heq ▸ hownv), fun heq => hnot (heq ▸ hownw)⟩
  exact ⟨w, htied.between (fun u hu => haway u (hfirst u hu)) (fun u hu => haway u (hlast u hu)), hv,
    hw, hownv, hownw⟩

theorem before (h : Pinned own constraints v type) {last : List Constraint}
    (hlast : ∀ u ∈ variablesOf last, ¬ own u.id) : Pinned own (constraints ++ last) v type :=
  h.between (speaks_of_nothing own) hlast

theorem behind (h : Pinned own constraints v type) {first : List Constraint}
    (hfirst : ∀ u ∈ variablesOf first, ¬ own u.id) : Pinned own (first ++ constraints) v type := by
  have hboth := h.between hfirst (speaks_of_nothing own)
  rwa [List.append_nil] at hboth

end Pinned

/-! ## Runs -/

/-- The variables of the placeholders of a run. -/
def Run.vars (r : Run) : List TypeVar := r.placeholders.map (·.var)

/-- A number of a variable that has been made from one run to another. -/
def Run.Makes (r s : Run) (id : Nat) : Prop := r.issued < id ∧ id ≤ s.issued

/-- From a run in which the numbers `V` may be spoken of, a walk has come to one in which the numbers
`W` may be. It has made the placeholders that it has collected. If nothing may be spoken of that has
not been made before, those with a type are pinned, with variables that may not be spoken of any
more. -/
structure Reaches (V W : Nat → Prop) (r s : Run) (collected : List (TypeVar × Option SqlType)) :
    Prop where
  issued : r.issued ≤ s.issued
  keeps : ∀ id, V id → W id
  made : ∀ id, W id → V id ∨ r.Makes s id
  own : ∀ p ∈ collected, r.Makes s p.1.id
  constraints : ∃ added, s.constraints = r.constraints ++ added ∧
    (∀ u ∈ variablesOf added, V u.id ∨ r.Makes s u.id) ∧
    ((∀ id, V id → id ≤ r.issued) → ∀ v type, (v, some type) ∈ collected →
      Pinned (fun id => r.Makes s id ∧ ¬ W id) added v type)

namespace Run.Makes

variable {r s t : Run} {id : Nat}

theorem before (h : r.Makes s id) (hissued : s.issued ≤ t.issued) : r.Makes t id :=
  ⟨h.1, Nat.le_trans h.2 hissued⟩

theorem behind (h : s.Makes t id) (hissued : r.issued ≤ s.issued) : r.Makes t id :=
  ⟨Nat.lt_of_le_of_lt hissued h.1, h.2⟩

/-- What a walk makes, it has not been given. -/
theorem not_given {V : Nat → Prop} (h : r.Makes s id) (hV : ∀ id, V id → id ≤ r.issued) : ¬ V id :=
  fun hgiven => absurd (hV id hgiven) (Nat.not_le.2 h.1)

end Run.Makes

namespace Reaches

variable {V W X : Nat → Prop} {r s t : Run} {collected later : List (TypeVar × Option SqlType)}

theorem bounds (h : Reaches V W r s collected) (hV : ∀ id, V id → id ≤ r.issued) (id : Nat)
    (hid : W id) : id ≤ s.issued := by
  rcases h.made id hid with hid | hid
  · exact Nat.le_trans (hV id hid) h.issued
  · exact hid.2

/-- Only the placeholders themselves count, in whatever order. -/
theorem congr (h : Reaches V W r s collected) (hlater : ∀ p ∈ later, p ∈ collected) :
    Reaches V W r s later := by
  obtain ⟨added, hadded, hwithin, hpinned⟩ := h.constraints
  exact { h with
    own := fun p hp => h.own p (hlater p hp)
    constraints := ⟨added, hadded, hwithin, fun hV v type hp => hpinned hV v type (hlater _ hp)⟩ }

/-- A run with the placeholders and common tables of another is reached as that one is. -/
theorem copy (h : Reaches V W r s collected) {r' s' : Run} (hr : r'.issued = r.issued)
    (hs : s'.issued = s.issued) (hbefore : r'.constraints = r.constraints)
    (hafter : s'.constraints = s.constraints) : Reaches V W r' s' collected := by
  have hmakes : r'.Makes s' = r.Makes s := by
    funext id
    unfold Run.Makes
    rw [hr, hs]
  refine ⟨by rw [hr, hs]; exact h.issued, h.keeps, ?_, ?_, ?_⟩
  · rw [hmakes]
    exact h.made
  · rw [hmakes]
    exact h.own
  · rw [hmakes, hbefore, hafter, hr]
    exact h.constraints

/-- What a walk has pinned, the walk after it does not speak of; and what that one pins, the first one
could not speak of yet. -/
theorem trans (h : Reaches V W r s collected) (h' : Reaches W X s t later) :
    Reaches V X r t (collected ++ later) := by
  obtain ⟨added, hadded, hwithin, hpinned⟩ := h.constraints
  obtain ⟨added', hadded', hwithin', hpinned'⟩ := h'.constraints
  have hissued := h.issued
  have hissued' := h'.issued
  have hfirst : ∀ id, V id ∨ r.Makes s id → V id ∨ r.Makes t id :=
    fun _ hid => hid.imp_right fun hmade => hmade.before hissued'
  have hsecond : ∀ id, W id ∨ s.Makes t id → V id ∨ r.Makes t id := by
    rintro id (hid | hid)
    · exact hfirst id (h.made id hid)
    · exact .inr (hid.behind hissued)
  refine ⟨Nat.le_trans hissued hissued', fun id hid => h'.keeps id (h.keeps id hid),
    fun id hid => hsecond id (h'.made id hid), ?_, added ++ added', ?_, ?_, ?_⟩
  · intro p hp
    rcases List.mem_append.1 hp with hp | hp
    · exact (h.own p hp).before hissued'
    · exact (h'.own p hp).behind hissued
  · rw [hadded', hadded, List.append_assoc]
  · intro u hu
    rcases List.mem_append.1 (variablesOf_append added added' ▸ hu) with hu | hu
    · exact hfirst _ (hwithin u hu)
    · exact hsecond _ (hwithin' u hu)
  · intro hV v type hp
    rcases List.mem_append.1 hp with hp | hp
    · -- what the first walk has pinned may not be spoken of by the second
      have haway : ∀ u ∈ variablesOf added', ¬ (r.Makes s u.id ∧ ¬ W u.id) := by
        intro u hu hown
        rcases hwithin' u hu with hW | hmade
        · exact hown.2 hW
        · exact absurd hown.1.2 (Nat.not_le.2 hmade.1)
      refine ((hpinned hV v type hp).before haway).mono fun id hid => ?_
      refine ⟨hid.1.before hissued', fun hX => ?_⟩
      rcases h'.made id hX with hW | hmade
      · exact hid.2 hW
      · exact absurd hid.1.2 (Nat.not_le.2 hmade.1)
    · -- what the second walk pins has not been made when the first one is at its end
      have haway : ∀ u ∈ variablesOf added, ¬ (s.Makes t u.id ∧ ¬ X u.id) := by
        intro u hu hown
        have hbound : u.id ≤ s.issued := by
          rcases hwithin u hu with hu | hu
          · exact Nat.le_trans (hV _ hu) hissued
          · exact hu.2
        exact absurd hbound (Nat.not_le.2 hown.1.1)
      refine ((hpinned' (h.bounds hV) v type hp).behind haway).mono fun id hid => ?_
      exact ⟨hid.1.behind hissued, hid.2⟩

end Reaches

/-- A walk from one run to another has collected placeholders behind those that there were, with the
types of the columns that they are compared with. -/
def Collects (V W : Nat → Prop) (r s : Run) (pins : List (Option SqlType)) : Prop :=
  ∃ collected, Reaches V W r s collected ∧ collected.map Prod.snd = pins ∧
    s.vars = r.vars ++ collected.map Prod.fst

namespace Collects

variable {V W X : Nat → Prop} {r s t : Run} {pins pins' : List (Option SqlType)}

theorem keeps (h : Collects V W r s pins) : ∀ id, V id → W id := by
  obtain ⟨collected, hreaches, -⟩ := h
  exact hreaches.keeps

theorem bounds (h : Collects V W r s pins) (hV : ∀ id, V id → id ≤ r.issued) :
    ∀ id, W id → id ≤ s.issued := by
  obtain ⟨collected, hreaches, -⟩ := h
  exact hreaches.bounds hV

theorem trans (h : Collects V W r s pins) (h' : Collects W X s t pins') :
    Collects V X r t (pins ++ pins') := by
  obtain ⟨collected, hreaches, rfl, hvars⟩ := h
  obtain ⟨later, hreaches', rfl, hvars'⟩ := h'
  refine ⟨collected ++ later, hreaches.trans hreaches', List.map_append, ?_⟩
  rw [hvars', hvars, List.map_append, List.append_assoc]

theorem withCtes (h : Collects V W r s pins) (ctes : List (String × Level)) :
    Collects V W r { s with ctes } pins := by
  obtain ⟨collected, hreaches, hpins, hvars⟩ := h
  exact ⟨collected, hreaches.copy rfl rfl rfl rfl, hpins, hvars⟩

/-- What is collected first may be cut off, and put back behind what is collected next. -/
theorem aside (h : Collects V W r s pins)
    (h' : Collects W X { s with placeholders := s.placeholders.take r.placeholders.length } t pins') :
    Collects V X r { t with
      placeholders := t.placeholders ++ s.placeholders.drop r.placeholders.length }
      (pins' ++ pins) := by
  obtain ⟨collected, hreaches, rfl, hvars⟩ := h
  obtain ⟨later, hreaches', rfl, hvars'⟩ := h'
  obtain ⟨hkept, hcut⟩ := map_cut hvars
  have hnext : Reaches W X s t later := hreaches'.copy rfl rfl rfl rfl
  -- the order of the placeholders is another one, the constraints are the same
  have hordered : Reaches V X r t (later ++ collected) := by
    refine (hreaches.trans hnext).congr fun p hp => ?_
    rw [List.mem_append] at hp ⊢
    exact hp.symm
  refine ⟨later ++ collected, hordered.copy rfl rfl rfl rfl, List.map_append, ?_⟩
  unfold Run.vars at hvars' ⊢
  rw [List.map_append, hcut, hvars', List.map_append, ← List.append_assoc, hkept]

end Collects

/-! ## Steps -/

/-- A step that collects the placeholders of a text, with the types of the columns that they are
compared with, and speaks of nothing but what it is given. -/
def Local {α : Type} (V : Nat → Prop) (known : List (String × Level)) (step : Analyze α)
    (pins : List (Option SqlType)) (post : (Nat → Prop) → α → Prop) : Prop :=
  ∀ r a s, TablesShown V known r.ctes → step.outcome r = .ok (a, s) →
    ∃ W, Collects V W r s pins ∧ s.ctes = r.ctes ∧ post W a

/-- A step that makes no variable and collects no placeholder. -/
def Still {α : Type} (V : Nat → Prop) (step : Analyze α) : Prop :=
  ∀ r a s, step.outcome r = .ok (a, s) → s.issued = r.issued ∧ s.vars = r.vars ∧ s.ctes = r.ctes ∧
    ∃ added, s.constraints = r.constraints ++ added ∧ ∀ u ∈ variablesOf added, V u.id

namespace Local

variable {α β : Type} {V : Nat → Prop} {known : List (String × Level)} {step : Analyze α}
  {next : α → Analyze β} {pins pins' : List (Option SqlType)} {P P' : (Nat → Prop) → α → Prop}
  {Q : (Nat → Prop) → β → Prop}

theorem pure {a : α} (h : P V a) : Local V known (Pure.pure a) [] P := by
  intro r _ s _ hrun
  cases hrun
  refine ⟨V, ⟨[], ⟨Nat.le_refl _, fun _ => id, fun _ => .inl, ?_, [], ?_, ?_, ?_⟩, rfl, ?_⟩, rfl, h⟩
  · exact fun p hp => absurd hp List.not_mem_nil
  · exact (List.append_nil _).symm
  · exact fun u hu => absurd hu List.not_mem_nil
  · exact fun _ v type hp => absurd hp List.not_mem_nil
  · exact (List.append_nil _).symm

theorem throw (e : AnalysisError) : Local V known (MonadExcept.throw e : Analyze α) pins P := by
  intro r _ _ _ hrun
  cases hrun

/-- The second of two steps may speak of what the first one hands on. -/
theorem bind (h : Local V known step pins P)
    (hnext : ∀ W a, (∀ id, V id → W id) → P W a → Local W known (next a) pins' Q) :
    Local V known (step >>= next) (pins ++ pins') Q := by
  intro r b t hknown hrun
  rw [Analyze.outcome_bind] at hrun
  rcases bind_eq_ok.1 hrun with ⟨⟨a, s⟩, hfirst, hsecond⟩
  obtain ⟨W, hcollects, hctes, hP⟩ := h r a s hknown hfirst
  have hknown' : TablesShown W known s.ctes := hctes ▸ hknown.mono hcollects.keeps
  obtain ⟨X, hcollects', hctes', hQ⟩ := hnext W a hcollects.keeps hP s b t hknown' hsecond
  exact ⟨X, hcollects.trans hcollects', hctes'.trans hctes, hQ⟩

/-- Behind a step that collects nothing. -/
theorem behind (h : Local V known step [] P)
    (hnext : ∀ W a, (∀ id, V id → W id) → P W a → Local W known (next a) pins Q) :
    Local V known (step >>= next) pins Q :=
  h.bind hnext

/-- Before a step that collects nothing. -/
theorem before (h : Local V known step pins P)
    (hnext : ∀ W a, (∀ id, V id → W id) → P W a → Local W known (next a) [] Q) :
    Local V known (step >>= next) pins Q := by
  have hboth := h.bind hnext
  rwa [List.append_nil] at hboth

theorem mono (h : Local V known step pins P) (hP : ∀ W a, (∀ id, V id → W id) → P W a → P' W a) :
    Local V known step pins P' := by
  intro r a s hknown hrun
  obtain ⟨W, hcollects, hctes, hpost⟩ := h r a s hknown hrun
  exact ⟨W, hcollects, hctes, hP W a hcollects.keeps hpost⟩

/-- A step that makes nothing. -/
theorem still (h : Still V step) : Local V known step [] fun W _ => W = V := by
  intro r a s _ hrun
  obtain ⟨hissued, hvars, hctes, added, hadded, hwithin⟩ := h r a s hrun
  refine ⟨V, ⟨[], ⟨Nat.le_of_eq hissued.symm, fun _ => id, fun _ => .inl, ?_, added, hadded, ?_, ?_⟩,
    rfl, ?_⟩, hctes, rfl⟩
  · exact fun p hp => absurd hp List.not_mem_nil
  · exact fun u hu => .inl (hwithin u hu)
  · exact fun _ v type hp => absurd hp List.not_mem_nil
  · rw [hvars]
    exact (List.append_nil _).symm

/-- Behind a step that makes nothing. -/
theorem after (h : Still V step) (hnext : ∀ a, Local V known (next a) pins Q) :
    Local V known (step >>= next) pins Q :=
  (still h).behind fun _ a _ hW => hW ▸ hnext a

end Local

/-! ## Steps that make nothing -/

/-- A constraint that speaks only of some numbers. -/
def Constraint.Within (V : Nat → Prop) (c : Constraint) : Prop := ∀ u ∈ c.vars, V u.id

namespace Constraint.Within

variable {V : Nat → Prop} {v w : TypeVar}

theorem of_pair (hv : V v.id) (hw : V w.id) : ∀ u ∈ [v, w], V u.id := by
  intro u hu
  rcases List.mem_pair.1 hu with rfl | rfl
  · exact hv
  · exact hw

theorem strict (label : String) (hv : V v.id) (hw : V w.id) :
    Constraint.Within V (.strict label (.var v) (.var w)) :=
  of_pair hv hw

theorem bestEffort (label : String) (hv : V v.id) (hw : V w.id) :
    Constraint.Within V (.bestEffort label v w) :=
  of_pair hv hw

theorem widest (label : String) (coercion : Option Coercion) (hv : V v.id) (hw : V w.id) :
    Constraint.Within V (.widest label coercion v w) :=
  of_pair hv hw

/-- A variable against a row. -/
theorem row (label : String) (list : Bool) {vars : List TypeVar} (hv : V v.id)
    (hvars : ∀ w ∈ vars, V w.id) :
    Constraint.Within V { Constraint.strict label (.var v) (.ofVars vars) with list } := by
  intro u hu
  have hu : u ∈ v :: TypeTerm.varsOfAll (vars.map .var) := hu
  rw [TypeTerm.varsOfAll_map_var] at hu
  rcases List.mem_cons.1 hu with rfl | hu
  · exact hv
  · exact hvars u hu

/-- A row against a row. -/
theorem rows (label : String) {vars vars' : List TypeVar} (hvars : ∀ w ∈ vars, V w.id)
    (hvars' : ∀ w ∈ vars', V w.id) :
    Constraint.Within V (.strict label (.ofVars vars) (.ofVars vars')) := by
  intro u hu
  have hu : u ∈ TypeTerm.varsOfAll (vars.map .var) ++ TypeTerm.varsOfAll (vars'.map .var) := hu
  rw [TypeTerm.varsOfAll_map_var, TypeTerm.varsOfAll_map_var] at hu
  rcases List.mem_append.1 hu with hu | hu
  · exact hvars u hu
  · exact hvars' u hu

end Constraint.Within

namespace Still

variable {α β : Type} {V : Nat → Prop} {step : Analyze α} {next : α → Analyze β}

theorem pure (a : α) : Still V (Pure.pure a : Analyze α) := by
  intro r _ _ hrun
  cases hrun
  exact ⟨rfl, rfl, rfl, [], (List.append_nil _).symm, fun u hu => absurd hu List.not_mem_nil⟩

theorem bind (h : Still V step) (hnext : ∀ a, Still V (next a)) : Still V (step >>= next) := by
  intro r b t hrun
  rw [Analyze.outcome_bind] at hrun
  rcases bind_eq_ok.1 hrun with ⟨⟨a, s⟩, hfirst, hsecond⟩
  obtain ⟨hissued, hvars, hctes, added, hadded, hwithin⟩ := h r a s hfirst
  obtain ⟨hissued', hvars', hctes', added', hadded', hwithin'⟩ := hnext a s b t hsecond
  refine ⟨hissued'.trans hissued, hvars'.trans hvars, hctes'.trans hctes, added ++ added', ?_, ?_⟩
  · rw [hadded', hadded, List.append_assoc]
  · intro u hu
    rcases List.mem_append.1 (variablesOf_append added added' ▸ hu) with hu | hu
    · exact hwithin u hu
    · exact hwithin' u hu

theorem demand {c : Constraint} (h : c.Within V) : Still V (QuerySignature.demand c) := by
  intro r _ _ hrun
  rw [Analyze.outcome_of_runFrom (runFrom_demand c r)] at hrun
  cases hrun
  refine ⟨rfl, rfl, rfl, [c], rfl, fun u hu => ?_⟩
  unfold variablesOf at hu
  rw [List.flatMap_singleton] at hu
  exact h u hu

theorem setNotNull (index : Nat) (notNull : Bool) :
    Still V (QuerySignature.setNotNull index notNull) := by
  intro r _ _ hrun
  rw [Analyze.outcome_of_runFrom (runFrom_setNotNull index notNull r)] at hrun
  cases hrun
  refine ⟨rfl, ?_, rfl, [], (List.append_nil _).symm, fun u hu => absurd hu List.not_mem_nil⟩
  exact map_modify_notNull r.placeholders index notNull fun _ => rfl

theorem force (e : Inferred) : Still V (forceNotNull e) := by
  unfold forceNotNull
  split
  · exact setNotNull _ _
  · exact pure _

theorem matchNull (place : Option Nat) (column : SourceColumn) :
    Still V (QuerySignature.matchNull place column) := by
  unfold QuerySignature.matchNull
  split
  · exact setNotNull _ _
  · exact pure _

theorem forceAll (es : List Inferred) : Still V (forceAllNotNull es) := by
  induction es with
  | nil => exact pure _
  | cons e rest ih => exact (force e).bind fun _ => ih

/-- A variable that is asked to have the type of every argument. -/
theorem texts (label : String) {v : TypeVar} {es : List Inferred} (hv : V v.id)
    (hes : ∀ e ∈ es, V e.var.id) : Still V (demandText label v es) := by
  induction es with
  | nil => exact pure _
  | cons e rest ih =>
    refine (demand (.bestEffort _ hv (hes e List.mem_cons_self))).bind fun _ => ?_
    exact ih fun other hother => hes other (List.mem_cons_of_mem _ hother)

/-- A variable that is widened by every argument. -/
theorem widest (label : String) {v : TypeVar} {es : List Inferred} (hv : V v.id)
    (hes : ∀ e ∈ es, V e.var.id) : Still V (demandWidest label v es) := by
  induction es with
  | nil => exact pure _
  | cons e rest ih =>
    refine (demand (.widest _ _ hv (hes e List.mem_cons_self))).bind fun _ => ?_
    exact ih fun other hother => hes other (List.mem_cons_of_mem _ hother)

end Still

end QuerySignature
