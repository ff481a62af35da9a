import QuerySignature.Proofs.Alike
import QuerySignature.Proofs.Solver.Roots

namespace QuerySignature

/-! # Solving on classes

Read without its forest, a state of the solver is a partition of the variables into labelled
classes with one type each. Merging relabels the lower class and leaves every other one alone.

Solving constraints does to the classes that a forest stands for what their equations do, one after the
other. A variable tells the solver its type where it is looked up for the first time and nowhere else.

- `Represents.merge`: an equation does to a forest what it does to the classes that the forest
  stands for.
- `Represents.run_firsts`: solving equations on a forest, whatever types later occurrences of a variable
  carry.
- `solve_alike_firsts`: any constraints are solved as if every variable always carried the type with
  which it occurs first.
- `solve_alike`: solving fails exactly as it does on classes, and finds out the same types.
- `exists_solution`, `exists_classes`: the two halves of it where solving succeeds.
-/

/-! ## Classes without a forest -/

/-- Every variable's class, named by one of its members, and what is known of each class. -/
structure Classes where
  label : Nat → Nat
  info : Nat → TypeInfo

/-- One equation, with the constraint that asks for it. -/
abbrev Equation := Constraint × TypeVar × TypeVar

/-- The equations of a list of constraints, in the order in which they are solved. -/
def equationsOf (constraints : List Constraint) : List Equation :=
  constraints.flatMap fun c => c.equations.map fun pair => (c, pair)

theorem equationsOf_append (first second : List Constraint) :
    equationsOf (first ++ second) = equationsOf first ++ equationsOf second := by
  simp [equationsOf]

namespace Classes

/-- Every variable alone. -/
def start (initial : Nat → TypeInfo) : Classes := ⟨id, initial⟩

/-- What is known of the class of a variable. -/
def infoOf (s : Classes) (id : Nat) : TypeInfo := s.info (s.label id)

/-- One class out of two, under the label of the upper one. -/
def join (s : Classes) (upper lower : Nat) (info : TypeInfo) : Classes where
  label id := if s.label id = lower then upper else s.label id
  info id := if id = upper then info else s.info id

/-- Solves one equation. -/
def merge (profile : Profile) (s : Classes) (step : Equation) : Except Clash Classes :=
  let left := s.label step.2.1.id
  let right := s.label step.2.2.id
  if left = right then .ok s
  else
    match TypeInfo.merge? profile step.1.strength step.1.coercion (s.info left) (s.info right) with
    | some info => .ok (s.join left right info)
    | none =>
      match step.1.strength with
      | .strict => .error ⟨s.info left, s.info right, step.1.label⟩
      | _ => .ok s

/-- Solves equations in their order. -/
def run (profile : Profile) (s : Classes) (steps : List Equation) : Except Clash Classes :=
  steps.foldlM (merge profile) s

theorem run_append (profile : Profile) (s : Classes) (first second : List Equation) :
    s.run profile (first ++ second) =
      (s.run profile first).bind fun between => between.run profile second := by
  simp [run, List.foldlM_append, bind]

theorem run_cons (profile : Profile) (s : Classes) (step : Equation) (rest : List Equation) :
    s.run profile (step :: rest) =
      (s.merge profile step).bind fun between => between.run profile rest := by
  simp [run, bind]

end Classes

/-! ## What a forest stands for -/

theorem Forest.infoAt_eq (forest : Forest) (id : Nat) :
    forest.infoAt id = ((forest.get? id).map Node.info).getD .unknown := by
  unfold Forest.infoAt
  cases forest.get? id <;> rfl

theorem Forest.infoAt_put (forest : Forest) (id other : Nat) (node : Node) :
    (put id node forest).infoAt other = if other = id then node.info else forest.infoAt other := by
  rw [infoAt_eq, infoAt_eq, get?_put]
  by_cases h : other = id
  · simp [h]
  · simp [h]

theorem Forest.known_link {forest : Forest} {upper lower id : Nat} (info : TypeInfo)
    (hupper : forest.Known upper) (hlower : forest.Known lower) :
    (forest.link upper lower info).Known id ↔ forest.Known id := by
  unfold Forest.link
  rw [Forest.known_put, Forest.known_put]
  constructor
  · rintro (rfl | rfl | hid)
    · exact hupper
    · exact hlower
    · exact hid
  · intro hid
    exact Or.inr (Or.inr hid)

/-- A forest stands for the classes of its labels. A variable that it has not met is alone, with the
type that it was made with. -/
structure Represents (initial : Nat → TypeInfo) (forest : Forest) (s : Classes) : Prop where
  labelled : forest.Labelled s.label
  met : ∀ id, forest.Known id → forest.infoAt (s.label id) = s.info (s.label id)
  unmet : ∀ id, ¬ forest.Known id → s.info id = initial id

/-- A variable that carries the type that all its copies carry. -/
def TypeVar.Carries (initial : Nat → TypeInfo) (v : TypeVar) : Prop := v.info = initial v.id

/-- An equation between variables that carry their types. -/
def Equation.Carries (initial : Nat → TypeInfo) (step : Equation) : Prop :=
  step.2.1.Carries initial ∧ step.2.2.Carries initial

namespace Represents

variable {initial : Nat → TypeInfo} {forest : Forest} {s : Classes}

theorem nil (initial : Nat → TypeInfo) : Represents initial [] (Classes.start initial) where
  labelled :=
    { root := fun _ _ => rfl
      parent := fun _ => rfl
      known := fun _ h => by simp [Forest.Known, Forest.get?] at h
      falls := ⟨fun _ => 0, fun _ h => absurd rfl h⟩ }
  met := fun _ h => by simp [Forest.Known, Forest.get?] at h
  unmet := fun _ _ => rfl

theorem enter (h : Represents initial forest s) {v : TypeVar}
    (hv : ¬ forest.Known v.id → v.Carries initial) :
    Represents initial (forest.enter v) s ∧ (forest.enter v).Known v.id := by
  have hlabelled := h.labelled.enter v
  unfold Forest.enter at hlabelled ⊢
  cases hget : forest.get? v.id with
  | some node =>
    simp only
    exact ⟨h, Forest.known_of_get? hget⟩
  | none =>
    simp only [hget] at hlabelled ⊢
    have hnot : ¬ forest.Known v.id := by simp [Forest.Known, hget]
    refine ⟨⟨hlabelled, ?_, ?_⟩, Forest.known_put.2 (Or.inl rfl)⟩
    · intro id hid
      rw [Forest.infoAt_put]
      by_cases hlabel : s.label id = v.id
      · rw [if_pos hlabel, hlabel, h.unmet v.id hnot, hv hnot]
      · rw [if_neg hlabel]
        rcases Forest.known_put.1 hid with heq | hold
        · exact absurd (by rw [heq, h.labelled.label_of_not_known hnot]) hlabel
        · exact h.met id hold
    · intro id hid
      exact h.unmet id fun hold => hid (Forest.known_put.2 (Or.inr hold))

/-- Looking a variable up finds its label and changes nothing that the forest stands for. Only the
type of a variable that has not been met is read. -/
theorem find (h : Represents initial forest s) {v : TypeVar}
    (hv : ¬ forest.Known v.id → v.Carries initial) :
    (forest.find v).1 = s.label v.id ∧ Represents initial (forest.find v).2 s ∧
      (∀ id, (forest.find v).2.Known id ↔ forest.Known id ∨ id = v.id) := by
  rcases h.enter hv with ⟨hentered, hknown⟩
  have hroot := hentered.labelled.root_eq v.id
  unfold Forest.find
  simp only [hroot]
  rcases hentered.labelled.compress (forest.enter v).length v.id with ⟨hlabelled, hinfo⟩
  have hsame : ∀ id, (Forest.compress (s.label v.id) (forest.enter v).length v.id
      (forest.enter v)).Known id ↔ (forest.enter v).Known id := Forest.known_of_info hinfo
  refine ⟨trivial, ⟨hlabelled, ?_, ?_⟩, ?_⟩
  · intro id hid
    rw [← hentered.met id ((hsame id).1 hid), Forest.infoAt_eq, Forest.infoAt_eq, hinfo]
  · intro id hid
    exact hentered.unmet id fun hold => hid ((hsame id).2 hold)
  · intro id
    rw [hsame]
    unfold Forest.enter
    cases hget : forest.get? v.id with
    | some node =>
      have hv := Forest.known_of_get? hget
      constructor
      · exact Or.inl
      · rintro (hid | rfl)
        · exact hid
        · exact hv
    | none =>
      rw [Forest.known_put]
      exact or_comm

/-- Hanging one root below another joins the two classes. -/
theorem link (h : Represents initial forest s) {upper lower : Nat} (info : TypeInfo)
    (hupper : s.label upper = upper) (hlower : s.label lower = lower) (hne : upper ≠ lower)
    (hknownUpper : forest.Known upper) (hknownLower : forest.Known lower) :
    Represents initial (forest.link upper lower info) (s.join upper lower info) := by
  have hknown : ∀ id, (forest.link upper lower info).Known id ↔ forest.Known id :=
    fun _ => Forest.known_link info hknownUpper hknownLower
  have hinfo : ∀ id, (forest.link upper lower info).infoAt id =
      if id = upper then info else forest.infoAt id := by
    intro id
    unfold Forest.link
    rw [Forest.infoAt_put, Forest.infoAt_put]
    by_cases hid : id = lower
    · simp [hid]
    · simp [hid]
  refine ⟨h.labelled.link info hupper hlower hne, ?_, ?_⟩
  · intro id hid
    rw [hinfo]
    by_cases hlow : s.label id = lower
    · simp [Classes.join, hlow]
    · by_cases hup : s.label id = upper
      · simp [Classes.join, hup, hne]
      · simp [Classes.join, hlow, hup, h.met id ((hknown id).1 hid)]
  · intro id hid
    have hold : ¬ forest.Known id := fun hid' => hid ((hknown id).2 hid')
    have hup : id ≠ upper := fun heq => hold (heq ▸ hknownUpper)
    simp [Classes.join, hup, h.unmet id hold]

/-- Solving an equation on a forest is solving it on the classes, and its variables have been met
then. The types that its variables were made with count only for those not met before. -/
theorem merge_met (h : Represents initial forest s) (profile : Profile) {step : Equation}
    (hleft : ¬ forest.Known step.2.1.id → step.2.1.Carries initial)
    (hright : ¬ forest.Known step.2.2.id → step.2.2.id ≠ step.2.1.id → step.2.2.Carries initial) :
    Alike (fun next t => Represents initial next t ∧
        ∀ id, next.Known id ↔ forest.Known id ∨ id = step.2.1.id ∨ id = step.2.2.id)
      (forest.merge profile step.1 step.2) (s.merge profile step) := by
  rcases step with ⟨c, v, w⟩
  rcases h.find hleft with ⟨hrootLeft, hfirst, hknownFirst⟩
  have hnew : ¬ (forest.find v).2.Known w.id → w.Carries initial := by
    intro hw
    rw [hknownFirst, not_or] at hw
    exact hright hw.1 hw.2
  rcases hfirst.find hnew with ⟨hrootRight, hsecond, hknownSecond⟩
  have hknown : ∀ id, ((forest.find v).2.find w).2.Known id ↔
      forest.Known id ∨ id = v.id ∨ id = w.id := by
    intro id
    rw [hknownSecond, hknownFirst, or_assoc]
  unfold Forest.merge Classes.merge
  simp only [hrootLeft, hrootRight]
  have hknownLeft := (hknown v.id).2 (Or.inr (Or.inl rfl))
  have hknownRight := (hknown w.id).2 (Or.inr (Or.inr rfl))
  rw [hsecond.met v.id hknownLeft, hsecond.met w.id hknownRight]
  by_cases hsame : s.label v.id = s.label w.id
  · rw [if_pos hsame, if_pos hsame]
    exact ⟨hsecond, hknown⟩
  · rw [if_neg hsame, if_neg hsame]
    cases hmerge : TypeInfo.merge? profile c.strength c.coercion (s.info (s.label v.id))
        (s.info (s.label w.id)) with
    | some info =>
      have hrootLeft := hsecond.labelled.known_label hknownLeft
      have hrootRight := hsecond.labelled.known_label hknownRight
      refine ⟨hsecond.link info (h.labelled.label_label _) (h.labelled.label_label _) hsame
        hrootLeft hrootRight, fun id => ?_⟩
      rw [Forest.known_link info hrootLeft hrootRight, hknown]
    | none =>
      cases c.strength with
      | strict => exact rfl
      | bestEffort => exact ⟨hsecond, hknown⟩
      | widest => exact ⟨hsecond, hknown⟩

/-- Solving an equation on a forest is solving it on the classes. -/
theorem merge (h : Represents initial forest s) (profile : Profile) {step : Equation}
    (hstep : step.Carries initial) :
    Alike (Represents initial) (forest.merge profile step.1 step.2) (s.merge profile step) :=
  (h.merge_met profile (fun _ => hstep.1) (fun _ _ => hstep.2)).mono fun _ _ hnext => hnext.1

end Represents

/-! ## First occurrences -/

/-- The variables of equations, in the order in which they are looked up. -/
def occurrences (steps : List Equation) : List TypeVar :=
  steps.flatMap fun step => [step.2.1, step.2.2]

theorem occurrences_cons (step : Equation) (rest : List Equation) :
    occurrences (step :: rest) = step.2.1 :: step.2.2 :: occurrences rest := rfl

theorem mem_occurrences {steps : List Equation} {v : TypeVar} (h : v ∈ occurrences steps) :
    ∃ step ∈ steps, v = step.2.1 ∨ v = step.2.2 := by
  rcases List.mem_flatMap.1 h with ⟨step, hstep, hv⟩
  exact ⟨step, hstep, by simpa using hv⟩

/-- The first occurrence of a variable. -/
def firstOf (vars : List TypeVar) (id : Nat) : Option TypeVar := vars.find? fun w => w.id == id

theorem firstOf_cons (v : TypeVar) (rest : List TypeVar) (id : Nat) :
    firstOf (v :: rest) id = if v.id = id then some v else firstOf rest id := by
  by_cases h : v.id = id
  · simp [firstOf, h]
  · simp [firstOf, h]

theorem firstOf_eq_none_iff {vars : List TypeVar} {id : Nat} :
    firstOf vars id = none ↔ ¬ ∃ w ∈ vars, w.id = id := by
  simp [firstOf]

/-- Every variable carries its type where it occurs first. -/
def FirstsCarry (initial : Nat → TypeInfo) (vars : List TypeVar) : Prop :=
  ∀ id v, firstOf vars id = some v → v.Carries initial

theorem firstsCarry_of_carries {initial : Nat → TypeInfo} {steps : List Equation}
    (hsteps : ∀ step ∈ steps, step.Carries initial) : FirstsCarry initial (occurrences steps) := by
  intro id v hv
  rcases mem_occurrences (List.mem_of_find?_eq_some hv) with ⟨step, hstep, rfl | rfl⟩
  · exact (hsteps step hstep).1
  · exact (hsteps step hstep).2

/-- The type with which a variable occurs first, and another one if it does not occur. -/
def firstType (vars : List TypeVar) (other : TypeInfo) (id : Nat) : TypeInfo :=
  ((firstOf vars id).map TypeVar.info).getD other

theorem firstsCarry_firstType (vars : List TypeVar) (other : TypeInfo) :
    FirstsCarry (firstType vars other) vars := by
  intro id v hv
  have hid : v.id = id := by simpa using List.find?_some hv
  unfold TypeVar.Carries firstType
  rw [hid, hv]
  rfl

theorem carries_firstType {vars : List TypeVar} {v : TypeVar} (h : ¬ ∃ w ∈ vars, w.id = v.id) :
    v.Carries (firstType vars v.info) := by
  unfold TypeVar.Carries firstType
  rw [firstOf_eq_none_iff.2 h]
  rfl

/-! ## Runs of equations -/

/-- Solving constraints is solving their equations one after the other. -/
theorem Forest.constrainAll_eq (profile : Profile) (forest : Forest)
    (constraints : List Constraint) :
    forest.constrainAll profile constraints =
      (equationsOf constraints).foldlM (fun forest step => forest.merge profile step.1 step.2)
        forest := by
  induction constraints generalizing forest with
  | nil => rfl
  | cons c rest ih =>
    have hcons : equationsOf (c :: rest) =
        c.equations.map (fun pair => (c, pair)) ++ equationsOf rest := by
      simp [equationsOf]
    rw [hcons, List.foldlM_append, List.foldlM_map]
    unfold Forest.constrainAll
    rw [List.foldlM_cons]
    exact congrArg _ (funext fun between => ih between)

/-- Solving equations on a forest is solving them on the classes that it stands for, if variables
that have not been met carry their types where they occur first. What has been met afterwards is what
had been met before and what the equations look up. -/
theorem Represents.run_firsts {initial : Nat → TypeInfo} {forest : Forest} {s : Classes}
    (h : Represents initial forest s) (profile : Profile) {steps : List Equation}
    (hfirsts : ∀ id v, ¬ forest.Known id → firstOf (occurrences steps) id = some v →
      v.Carries initial) :
    Alike (fun next t => Represents initial next t ∧
        ∀ id, next.Known id ↔ forest.Known id ∨ ∃ w ∈ occurrences steps, w.id = id)
      (steps.foldlM (fun forest step => forest.merge profile step.1 step.2) forest)
      (s.run profile steps) := by
  induction steps generalizing forest s with
  | nil => exact ⟨h, fun id => by simp [occurrences]⟩
  | cons step rest ih =>
    rw [occurrences_cons] at hfirsts ⊢
    have hleft : ¬ forest.Known step.2.1.id → step.2.1.Carries initial :=
      fun hnew => hfirsts _ _ hnew (by rw [firstOf_cons, if_pos rfl])
    have hright : ¬ forest.Known step.2.2.id → step.2.2.id ≠ step.2.1.id →
        step.2.2.Carries initial :=
      fun hnew hne => hfirsts _ _ hnew (by
        rw [firstOf_cons, if_neg hne.symm, firstOf_cons, if_pos rfl])
    rw [List.foldlM_cons, Classes.run_cons]
    refine (h.merge_met profile hleft hright).bind fun next t hnext => ?_
    -- what has not been met behind the step occurs first in the rest if it occurs first at all
    have hrest : ∀ id v, ¬ next.Known id → firstOf (occurrences rest) id = some v →
        v.Carries initial := by
      intro id v hnew hv
      rw [hnext.2, not_or, not_or] at hnew
      refine hfirsts id v hnew.1 ?_
      rw [firstOf_cons, if_neg (Ne.symm hnew.2.1), firstOf_cons, if_neg (Ne.symm hnew.2.2), hv]
    refine (ih hnext.1 hrest).mono fun last u hlast => ⟨hlast.1, fun id => ?_⟩
    rw [hlast.2, hnext.2]
    simp [or_assoc, eq_comm]

theorem Represents.run {initial : Nat → TypeInfo} {forest : Forest} {s : Classes}
    (h : Represents initial forest s) (profile : Profile) {constraints : List Constraint}
    (hsteps : ∀ step ∈ equationsOf constraints, step.Carries initial) :
    Alike (Represents initial) (forest.constrainAll profile constraints)
      (s.run profile (equationsOf constraints)) := by
  rw [Forest.constrainAll_eq]
  exact (h.run_firsts profile fun id v _ => firstsCarry_of_carries hsteps id v).mono
    fun _ _ hnext => hnext.1

/-! ## Solutions -/

theorem find?_map_key (forest : Forest) (value : Nat → TypeInfo) (id : Nat) :
    (forest.map fun entry => (entry.1, value entry.1)).find? (fun entry => entry.1 == id) =
      if (forest.get? id).isSome then some (id, value id) else none := by
  induction forest with
  | nil => rfl
  | cons entry rest ih =>
    by_cases hid : entry.1 = id
    · simp [Forest.get?, hid]
    · simp [Forest.get?, hid, ih]

theorem Represents.infoOf_ofForest {initial : Nat → TypeInfo} {forest : Forest} {s : Classes}
    (h : Represents initial forest s) {v : TypeVar} (hv : ¬ forest.Known v.id → v.Carries initial) :
    (Solution.ofForest forest).infoOf v = s.infoOf v.id := by
  unfold Solution.infoOf Solution.ofForest Classes.infoOf
  simp only [find?_map_key forest (fun id => forest.infoAt (forest.root id))]
  by_cases hknown : forest.Known v.id
  · have hsome : (forest.get? v.id).isSome = true := hknown
    simp only [hsome, if_true, h.labelled.root_eq, h.met v.id hknown]
  · have hnone : ¬ (forest.get? v.id).isSome = true := hknown
    rw [if_neg hnone]
    simp only [h.labelled.label_of_not_known hknown, h.unmet v.id hknown]
    exact hv hknown

/-- Any constraints are solved like their equations on classes, every variable alone at first and with
the type with which it occurs first. -/
theorem solve_alike_firsts (profile : Profile) {initial : Nat → TypeInfo}
    {constraints : List Constraint}
    (hfirsts : FirstsCarry initial (occurrences (equationsOf constraints))) :
    Alike (fun solution s => ∀ v : TypeVar,
        ((¬ ∃ w ∈ occurrences (equationsOf constraints), w.id = v.id) → v.Carries initial) →
          solution.infoOf v = s.infoOf v.id)
      (solve profile constraints)
      ((Classes.start initial).run profile (equationsOf constraints)) := by
  have h := (Represents.nil initial).run_firsts profile fun id v _ => hfirsts id v
  rw [← Forest.constrainAll_eq] at h
  unfold solve
  revert h
  cases Forest.constrainAll profile [] constraints <;>
    cases (Classes.start initial).run profile (equationsOf constraints) <;> intro h
  · exact h
  · exact h
  · exact h
  · refine fun v hv => h.1.infoOf_ofForest fun hnew => hv fun hmem => ?_
    exact hnew ((h.2 v.id).2 (Or.inr hmem))

/-- Solving fails exactly as it does on classes that start alone, with the same clash; and what it
finds out of a variable is what is then known of the variable's class. -/
theorem solve_alike (profile : Profile) {initial : Nat → TypeInfo} {constraints : List Constraint}
    (hsteps : ∀ step ∈ equationsOf constraints, step.Carries initial) :
    Alike (fun solution s => ∀ v : TypeVar, v.Carries initial → solution.infoOf v = s.infoOf v.id)
      (solve profile constraints) ((Classes.start initial).run profile (equationsOf constraints)) := by
  exact (solve_alike_firsts profile (firstsCarry_of_carries hsteps)).mono
    fun _ _ h v hv => h v fun _ => hv

/-- Constraints that can be solved as classes can be solved, and agree with them. -/
theorem exists_solution {profile : Profile} {initial : Nat → TypeInfo}
    {constraints : List Constraint} (hsteps : ∀ step ∈ equationsOf constraints, step.Carries initial)
    {s : Classes} (hs : (Classes.start initial).run profile (equationsOf constraints) = .ok s) :
    ∃ solution, solve profile constraints = .ok solution ∧
      ∀ v : TypeVar, v.Carries initial → solution.infoOf v = s.infoOf v.id :=
  (solve_alike profile hsteps).to_ok hs

/-- Constraints that have been solved can be solved as classes, and agree with them. -/
theorem exists_classes {profile : Profile} {initial : Nat → TypeInfo}
    {constraints : List Constraint} (hsteps : ∀ step ∈ equationsOf constraints, step.Carries initial)
    {solution : Solution} (hsolve : solve profile constraints = .ok solution) :
    ∃ s, (Classes.start initial).run profile (equationsOf constraints) = .ok s ∧
      ∀ v : TypeVar, v.Carries initial → solution.infoOf v = s.infoOf v.id :=
  (solve_alike profile hsteps).of_ok hsolve

end QuerySignature
