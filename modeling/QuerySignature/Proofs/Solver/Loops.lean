import Mathlib.Logic.Relation
import QuerySignature.Proofs.Solver.Solving

open Relation

namespace QuerySignature

/-! # The loops over the forest

Nothing bounds the ways up in the forest of the solver, neither a rank nor a size, and the loops that
follow parents count no steps. They end because the parents never turn in a circle, and they look up
nothing that is missing because a parent is always known. Both are kept by every single insertion:
the one of a new variable, the one that hangs a root below another, and each of those that shorten a
way up while a root is found or when the classes are read off at the end.

- `Forest.Labelled.rootOf_iff`: following parents ends in the label, and nowhere else.
- `Forest.Labelled.shortens_compress`: shortening with a number of steps is the loop, run to its end.
- `Forest.Passes.sound`: whatever solving goes through is a forest on which the loops end.
-/

namespace Forest

/-! ## The loops, pass by pass -/

/-- One pass of a loop that follows parents. -/
inductive Climbs (forest : Forest) : Nat → Nat → Prop
  | up {id : Nat} {node : Node} (hnode : forest.get? id = some node) (hbelow : node.parent ≠ id) :
      Climbs forest id node.parent

/-- A node that is its own parent. -/
def IsRoot (forest : Forest) (id : Nat) : Prop :=
  ∃ node, forest.get? id = some node ∧ node.parent = id

/-- Following parents from a variable ends in a root. -/
def RootOf (forest : Forest) (id top : Nat) : Prop :=
  ReflTransGen forest.Climbs id top ∧ forest.IsRoot top

/-- One pass of the loop that shortens a way up: the node is hung below the root of the way, and the
parent that it had is next. -/
inductive Shortens (top : Nat) : Nat × Forest → Nat × Forest → Prop
  | pass {id : Nat} {forest : Forest} {node : Node} (hbelow : id ≠ top)
      (hnode : forest.get? id = some node) :
      Shortens top (id, forest) (node.parent, put id ⟨top, node.info⟩ forest)

/-- One pass of the loop that reads the classes off: a node is hung below its root. -/
inductive Freezes (forest : Forest) : Forest → Prop
  | pass {id top : Nat} {node : Node} (hroot : forest.RootOf id top)
      (hnode : forest.get? id = some node) : Freezes forest (put id ⟨top, node.info⟩ forest)

/-- The forests that finding the root of a variable goes through. -/
def Finding (forest : Forest) (v : TypeVar) (between : Forest) : Prop :=
  ∃ id, ReflTransGen (Shortens (forest.find v).1) (v.id, forest.enter v) (id, between)

/-- The forests that solving equations goes through, insertion by insertion. The order in which the
classes are read off at the end is left open. -/
inductive Passes (profile : Profile) : List Equation → Forest → Forest → Prop
  | start (steps : List Equation) (forest : Forest) : Passes profile steps forest forest
  | left {c : Constraint} {v w : TypeVar} {rest : List Equation} {forest between : Forest}
      (hfinding : forest.Finding v between) : Passes profile ((c, v, w) :: rest) forest between
  | right {c : Constraint} {v w : TypeVar} {rest : List Equation} {forest between : Forest}
      (hfinding : (forest.find v).2.Finding w between) :
      Passes profile ((c, v, w) :: rest) forest between
  /-- One root hangs below the other, and what is known of the class is not yet written. -/
  | hung {c : Constraint} {v w : TypeVar} {rest : List Equation} {forest first second : Forest}
      {upper lower : Nat} {info : TypeInfo} (hleft : forest.find v = (upper, first))
      (hright : first.find w = (lower, second)) (hne : upper ≠ lower)
      (hmerge : TypeInfo.merge? profile c.strength c.coercion (second.infoAt upper)
        (second.infoAt lower) = some info) :
      Passes profile ((c, v, w) :: rest) forest (put lower ⟨upper, second.infoAt lower⟩ second)
  | next {step : Equation} {rest : List Equation} {forest solved between : Forest}
      (hmerge : forest.merge profile step.1 step.2 = .ok solved)
      (hrest : Passes profile rest solved between) : Passes profile (step :: rest) forest between
  | frozen {forest between : Forest} (hpasses : ReflTransGen Freezes forest between) :
      Passes profile [] forest between

/-- Parents are known, and following them from a known variable meets known ones only and ends in a
root. What is known of a class stands in the node of its root, so a root that is known has a type. -/
structure IsForest (forest : Forest) : Prop where
  parent : ∀ id node, forest.get? id = some node → forest.Known node.parent
  meets : ∀ id next, forest.Known id → ReflTransGen forest.Climbs id next → forest.Known next
  rooted : ∀ id, forest.Known id → forest.RootOf id (forest.root id)
  ends : WellFounded fun next id => forest.Climbs id next

/-- How the root of a variable is found. -/
structure Finds (forest : Forest) (v : TypeVar) : Prop where
  /-- Entering the variable changes no root. -/
  entered : ∀ id top, forest.RootOf id top → (forest.enter v).RootOf id top
  /-- The first loop ends in the root that is found. -/
  climbs : (forest.enter v).RootOf v.id (forest.find v).1
  /-- The second loop ends at this root and with the forest that is left. -/
  shortens : ReflTransGen (Shortens (forest.find v).1) (v.id, forest.enter v) (forest.find v)
  ends : Acc (fun next state => Shortens (forest.find v).1 state next) (v.id, forest.enter v)
  /-- Whenever it looks up a parent there is one, and no variable has another root than before. -/
  during : ∀ state,
    ReflTransGen (Shortens (forest.find v).1) (v.id, forest.enter v) state →
      state.2.Known state.1 ∧ ∀ id top, state.2.RootOf id top ↔ (forest.enter v).RootOf id top

/-- What the solver relies on between any two insertions. -/
structure Sound (forest : Forest) : Prop where
  isForest : forest.IsForest
  finds : ∀ v, forest.Finds v
  /-- When the types of two classes are looked up, both roots are known. -/
  typed : ∀ v w, ((forest.find v).2.find w).2.Known (forest.find v).1 ∧
    ((forest.find v).2.find w).2.Known ((forest.find v).2.find w).1
  /-- Reading the classes off changes no root on the way, and what is read of a variable at any time
  is what the solution has of it. -/
  freezes : ∀ frozen, ReflTransGen Freezes forest frozen →
    (∀ id top, frozen.RootOf id top ↔ forest.RootOf id top) ∧
      ∀ v top, forest.RootOf v.id top →
        (Solution.ofForest forest).infoOf v = frozen.infoAt top

/-! ## What a labelled forest gives -/

/-- A deterministic run that has come to its end admits no endless one. -/
theorem acc_of_run {State : Type} {pass : State → State → Prop}
    (honce : ∀ state next other, pass state next → pass state other → next = other)
    {start last : State} (hrun : ReflTransGen pass start last) (hlast : ∀ next, ¬ pass last next) :
    Acc (fun next state => pass state next) start := by
  induction hrun using ReflTransGen.head_induction_on with
  | refl => exact .intro _ fun next hnext => absurd hnext (hlast next)
  | head hpass _ ih => exact .intro _ fun next hnext => honce _ _ _ hpass hnext ▸ ih

theorem Shortens.once {top : Nat} (state next other : Nat × Forest)
    (h : Shortens top state next) (h' : Shortens top state other) : next = other := by
  cases h with
  | pass _ hnode =>
    cases h' with
    | pass _ hnode' => rw [Option.some.inj (hnode.symm.trans hnode')]

namespace Labelled

variable {forest : Forest} {label : Nat → Nat}

theorem nil : Forest.Labelled [] id := (Represents.nil fun _ => .unknown).labelled

theorem known_of_climbs (h : forest.Labelled label) {id next : Nat}
    (hup : ReflTransGen forest.Climbs id next) (hid : forest.Known id) : forest.Known next := by
  induction hup with
  | refl => exact hid
  | tail _ hpass ih =>
    cases hpass with
    | up hnode _ => exact parentOf_of_get? hnode ▸ h.known _ ih

theorem label_of_climbs (h : forest.Labelled label) {id next : Nat}
    (hup : ReflTransGen forest.Climbs id next) : label next = label id := by
  induction hup with
  | refl => rfl
  | tail _ hpass ih =>
    cases hpass with
    | up hnode _ => rw [← parentOf_of_get? hnode, h.parent, ih]

theorem climbs_label (h : forest.Labelled label) (id : Nat) (hid : forest.Known id) :
    ReflTransGen forest.Climbs id (label id) := by
  induction id using h.upward with
  | step id ih =>
    by_cases hroot : forest.parentOf id = id
    · rw [h.root id hroot]
    · obtain ⟨node, hnode⟩ := Option.isSome_iff_exists.1 hid
      have hup := ih hroot (h.known id hid)
      rw [h.parent id] at hup
      rw [parentOf_of_get? hnode] at hroot hup
      exact .head (.up hnode hroot) hup

/-- Following parents from a known variable ends in its label, and nowhere else. -/
theorem rootOf_iff (h : forest.Labelled label) {id top : Nat} :
    forest.RootOf id top ↔ forest.Known id ∧ label id = top := by
  constructor
  · rintro ⟨hup, node, hnode, hself⟩
    have htop : label top = top := h.root top ((parentOf_of_get? hnode).trans hself)
    refine ⟨?_, by rw [← h.label_of_climbs hup, htop]⟩
    cases hup using ReflTransGen.head_induction_on with
    | refl => exact known_of_get? hnode
    | head hpass _ =>
      cases hpass with
      | up hfirst _ => exact known_of_get? hfirst
  · rintro ⟨hid, rfl⟩
    obtain ⟨node, hnode⟩ := Option.isSome_iff_exists.1 (h.known_label hid)
    exact ⟨h.climbs_label id hid, node, hnode, parentOf_of_get? hnode ▸ h.parentOf_label id⟩

/-- Two forests of one reading that know the same variables have the same roots. -/
theorem rootOf_congr {other : Forest} (h : forest.Labelled label) (hother : other.Labelled label)
    (hknown : ∀ id, other.Known id ↔ forest.Known id) (id top : Nat) :
    other.RootOf id top ↔ forest.RootOf id top := by
  rw [h.rootOf_iff, hother.rootOf_iff, hknown]

theorem isForest (h : forest.Labelled label) : forest.IsForest where
  parent id node hnode := parentOf_of_get? hnode ▸ h.known id (known_of_get? hnode)
  meets _ _ hid hup := h.known_of_climbs hup hid
  rooted id hid := h.rootOf_iff.2 ⟨hid, (h.root_eq id).symm⟩
  ends := by
    obtain ⟨rank, hrank⟩ := h.falls
    refine Subrelation.wf (r := fun next id => rank next < rank id) ?_ (measure rank).wf
    rintro next id ⟨hnode, hbelow⟩
    rw [← parentOf_of_get? hnode] at hbelow ⊢
    exact hrank id hbelow

/-! ## Shortening a way up -/

theorem countBelow_put {rank : Nat → Nat} {id : Nat} (node : Node) (hid : forest.Known id)
    (bound : Nat) : countBelow (put id node forest) rank bound = countBelow forest rank bound := by
  induction forest with
  | nil => cases hid
  | cons entry rest ih =>
    obtain ⟨other, old⟩ := entry
    unfold put
    split
    case isTrue heq =>
      subst heq
      unfold countBelow
      rw [List.filter_cons, List.filter_cons]
      split <;> rfl
    case isFalse hne =>
      have hrest : Forest.Known rest id := by simpa [Known, get?, hne] using hid
      have hsame := ih hrest
      unfold countBelow at hsame ⊢
      rw [List.filter_cons, List.filter_cons]
      split
      · rw [List.length_cons, List.length_cons, hsame]
      · exact hsame

/-- The parent of a node that is no root has the same root, and fewer nodes below it in rank. -/
theorem step_up (h : forest.Labelled label) {rank : Nat → Nat}
    (hrank : ∀ id, forest.parentOf id ≠ id → rank (forest.parentOf id) < rank id) {id : Nat}
    {node : Node} (hnode : forest.get? id = some node) (hne : id ≠ label id) :
    label node.parent = label id ∧ forest.Known node.parent ∧
      countBelow forest rank (rank node.parent) < countBelow forest rank (rank id) := by
  rw [← parentOf_of_get? hnode]
  have hbelow : forest.parentOf id ≠ id := fun hself => hne (h.root id hself).symm
  have hup := h.known id (known_of_get? hnode)
  exact ⟨h.parent id, hup, countBelow_lt hup (hrank id hbelow)⟩

/-- Shortening with as many steps as there are nodes below the start is the loop, run to its end. -/
theorem shortens_compress_steps (h : forest.Labelled label) {rank : Nat → Nat}
    (hrank : ∀ id, forest.parentOf id ≠ id → rank (forest.parentOf id) < rank id) {steps id : Nat}
    (hid : forest.Known id) (hsteps : countBelow forest rank (rank id) ≤ steps) :
    ReflTransGen (Shortens (label id)) (id, forest)
      (label id, Forest.compress (label id) steps id forest) := by
  induction steps generalizing id forest with
  | zero =>
    have hroot := h.climb_eq hrank 0 id hsteps
    have hself : label id = id := hroot.symm
    rw [hself]
    exact .refl
  | succ steps ih =>
    unfold Forest.compress
    split
    case isTrue hself =>
      rw [← hself]
    case isFalse hne =>
      obtain ⟨node, hnode⟩ := Option.isSome_iff_exists.1 hid
      obtain ⟨hlabel, hup, hlt⟩ := h.step_up hrank hnode hne
      have hknown : (forest.put id ⟨label id, node.info⟩).Known node.parent :=
        known_put.2 (.inr hup)
      have hrest := ih (h.put_label hnode) (h.falls_put_label hrank id node.info) hknown
        (by rw [countBelow_put _ hid]; omega)
      rw [hlabel] at hrest
      simp only [hnode]
      exact .head (.pass hne hnode) hrest

theorem shortens_compress (h : forest.Labelled label) {id : Nat} (hid : forest.Known id) :
    ReflTransGen (Shortens (label id)) (id, forest)
      (label id, Forest.compress (label id) forest.length id forest) := by
  obtain ⟨rank, hrank⟩ := h.falls
  exact h.shortens_compress_steps hrank hid (List.length_filter_le _ _)

/-- Where the loop is, the node is known and below the root of the way, and all labels are what they
were. -/
structure Shortening (forest : Forest) (label : Nat → Nat) (top : Nat) (state : Nat × Forest) :
    Prop where
  labelled : state.2.Labelled label
  known : ∀ id, state.2.Known id ↔ forest.Known id
  here : state.2.Known state.1
  top : label state.1 = top

theorem Shortening.step {top : Nat} {state next : Nat × Forest}
    (h : Shortening forest label top state) (hpass : Shortens top state next) :
    Shortening forest label top next := by
  cases hpass with
  | @pass id between node _ hnode =>
    have hparent := parentOf_of_get? hnode
    have hknown := known_of_info (map_info_put hnode top)
    refine ⟨?_, fun id => (hknown id).trans (h.known id), (hknown _).2 ?_, ?_⟩
    · have hput := h.labelled.put_label hnode
      rwa [show label id = top from h.top] at hput
    · exact hparent ▸ h.labelled.known id h.here
    · exact hparent ▸ (h.labelled.parent id).trans h.top

theorem shortening (h : forest.Labelled label) {id : Nat} (hid : forest.Known id)
    {state : Nat × Forest} (hrun : ReflTransGen (Shortens (label id)) (id, forest) state) :
    Shortening forest label (label id) state := by
  induction hrun with
  | refl => exact ⟨h, fun _ => .rfl, hid, rfl⟩
  | tail _ hpass ih => exact ih.step hpass

/-! ## Finding a root -/

theorem known_enter (forest : Forest) (v : TypeVar) {id : Nat} :
    (forest.enter v).Known id ↔ forest.Known id ∨ id = v.id := by
  unfold Forest.enter
  cases hget : forest.get? v.id with
  | none => rw [known_put, or_comm]
  | some node =>
    refine ⟨Or.inl, ?_⟩
    rintro (hid | rfl)
    · exact hid
    · exact known_of_get? hget

theorem find_eq (h : forest.Labelled label) (v : TypeVar) :
    forest.find v =
      (label v.id, Forest.compress (label v.id) (forest.enter v).length v.id (forest.enter v)) := by
  unfold Forest.find
  simp only [(h.enter v).root_eq v.id]

theorem find (h : forest.Labelled label) (v : TypeVar) : (forest.find v).2.Labelled label := by
  rw [h.find_eq]
  exact ((h.enter v).compress _ _).1

theorem known_find (h : forest.Labelled label) (v : TypeVar) {id : Nat} :
    (forest.find v).2.Known id ↔ forest.Known id ∨ id = v.id := by
  rw [h.find_eq, known_of_info ((h.enter v).compress _ _).2, known_enter]

theorem finding (h : forest.Labelled label) {v : TypeVar} {between : Forest}
    (hfinding : forest.Finding v between) : between.Labelled label := by
  obtain ⟨id, hrun⟩ := hfinding
  rw [h.find_eq] at hrun
  exact ((h.enter v).shortening ((known_enter forest v).2 (.inr rfl)) hrun).labelled

theorem finds (h : forest.Labelled label) (v : TypeVar) : forest.Finds v := by
  have hentered := h.enter v
  have hv : (forest.enter v).Known v.id := (known_enter forest v).2 (.inr rfl)
  have hrun := hentered.shortens_compress hv
  rw [← h.find_eq] at hrun
  have htop : (forest.find v).1 = label v.id := congrArg Prod.fst (h.find_eq v)
  refine ⟨?_, ?_, ?_, ?_, ?_⟩
  · intro id top htop
    obtain ⟨hid, hlabel⟩ := h.rootOf_iff.1 htop
    exact hentered.rootOf_iff.2 ⟨(known_enter forest v).2 (.inl hid), hlabel⟩
  · exact hentered.rootOf_iff.2 ⟨hv, htop.symm⟩
  · rw [htop]
    exact hrun
  · rw [htop]
    refine acc_of_run Shortens.once hrun fun next hnext => ?_
    rw [h.find_eq] at hnext
    cases hnext with
    | pass hbelow _ => exact hbelow rfl
  · intro state hstate
    rw [htop] at hstate
    have hloop := hentered.shortening hv hstate
    exact ⟨hloop.here, hentered.rootOf_congr hloop.labelled hloop.known⟩

/-! ## Solving -/

/-- The reading depends on the parents only, and on what is known. -/
theorem of_parents {other : Forest} (h : forest.Labelled label)
    (hparent : ∀ id, other.parentOf id = forest.parentOf id)
    (hknown : ∀ id, other.Known id ↔ forest.Known id) : other.Labelled label where
  root id hid := h.root id (hparent id ▸ hid)
  parent id := by rw [hparent, h.parent]
  known id hid := by
    rw [hparent, hknown]
    exact h.known id ((hknown id).1 hid)
  falls := by
    obtain ⟨rank, hrank⟩ := h.falls
    refine ⟨rank, fun id hid => ?_⟩
    rw [hparent] at hid ⊢
    exact hrank id hid

/-- Half of hanging a root below another: the parent is changed, and nothing else. -/
theorem hang (h : forest.Labelled label) {upper lower : Nat} (info : TypeInfo)
    (hupper : label upper = upper) (hlower : label lower = lower) (hne : upper ≠ lower)
    (hknown : forest.Known upper) :
    (put lower ⟨upper, info⟩ forest).Labelled
      fun id => if label id = lower then upper else label id := by
  have hroot := h.parentOf_of_label hupper
  refine (h.link info hupper hlower hne).of_parents (fun id => ?_) fun id => ?_
  · unfold Forest.link
    rw [parentOf_put, parentOf_put, parentOf_put]
    by_cases hid : id = upper
    · simp [hid, hne, hroot]
    · simp [hid]
  · unfold Forest.link
    rw [known_put, known_put, known_put]
    constructor
    · exact Or.inr
    · rintro (rfl | hid)
      · exact .inr hknown
      · exact hid

theorem merge (h : forest.Labelled label) {profile : Profile} {step : Equation} {next : Forest}
    (hmerge : forest.merge profile step.1 step.2 = .ok next) : ∃ later, next.Labelled later := by
  classical
  -- the types that unknown variables carry are chosen by the equation
  let initial : Nat → TypeInfo := fun id => if id = step.2.1.id then step.2.1.info else step.2.2.info
  have hstands : Represents initial forest
      ⟨label, fun id => if forest.Known id then forest.infoAt id else initial id⟩ :=
    { labelled := h
      met := fun id hid => (if_pos (h.known_label hid)).symm
      unmet := fun id hid => if_neg hid }
  have hleft : step.2.1.Carries initial := (if_pos rfl).symm
  have hright : step.2.2.id ≠ step.2.1.id → step.2.2.Carries initial := fun hne => (if_neg hne).symm
  obtain ⟨classes, -, hnext, -⟩ :=
    (hstands.merge_met profile (fun _ => hleft) fun _ => hright).of_ok hmerge
  exact ⟨classes.label, hnext.labelled⟩

theorem freezes (h : forest.Labelled label) {frozen : Forest}
    (hrun : ReflTransGen Freezes forest frozen) :
    frozen.Labelled label ∧
      ∀ id, (frozen.get? id).map Node.info = (forest.get? id).map Node.info := by
  induction hrun with
  | refl => exact ⟨h, fun _ => rfl⟩
  | tail _ hpass ih =>
    obtain ⟨hlabelled, hinfo⟩ := ih
    cases hpass with
    | pass hroot hnode =>
      obtain ⟨-, rfl⟩ := hlabelled.rootOf_iff.1 hroot
      exact ⟨hlabelled.put_label hnode, fun id => (map_info_put hnode _ id).trans (hinfo id)⟩

theorem sound (h : forest.Labelled label) : forest.Sound where
  isForest := h.isForest
  finds := h.finds
  typed v w := by
    have hfirst := h.find v
    have hsecond := hfirst.find w
    have hv := (hfirst.known_find w).2 (.inl ((h.known_find v).2 (.inr rfl)))
    have hw := (hfirst.known_find w).2 (.inr rfl)
    have hupper := congrArg Prod.fst (h.find_eq v)
    have hlower := congrArg Prod.fst (hfirst.find_eq w)
    simp only at hupper hlower
    rw [hupper, hlower]
    exact ⟨hsecond.known_label hv, hsecond.known_label hw⟩
  freezes frozen hrun := by
    obtain ⟨hlabelled, hinfo⟩ := h.freezes hrun
    refine ⟨h.rootOf_congr hlabelled (known_of_info hinfo), fun v top htop => ?_⟩
    obtain ⟨hv, rfl⟩ := h.rootOf_iff.1 htop
    have hsome : (forest.get? v.id).isSome = true := hv
    unfold Solution.infoOf Solution.ofForest
    simp only [find?_map_key forest fun id => forest.infoAt (forest.root id)]
    simp only [hsome, if_true, h.root_eq]
    rw [infoAt_eq, infoAt_eq, hinfo]

end Labelled

/-- Every insertion leaves a forest that is labelled somehow. -/
theorem Passes.labelled {profile : Profile} {steps : List Equation} {forest between : Forest}
    (hpasses : Passes profile steps forest between) (h : ∃ label, forest.Labelled label) :
    ∃ label, between.Labelled label := by
  induction hpasses with
  | start => exact h
  | left hfinding =>
    obtain ⟨label, hlabelled⟩ := h
    exact ⟨label, hlabelled.finding hfinding⟩
  | @right c v w rest forest between hfinding =>
    obtain ⟨label, hlabelled⟩ := h
    exact ⟨label, (hlabelled.find v).finding hfinding⟩
  | @hung c v w rest forest first second upper lower info hleft hright hne hmerge =>
    obtain ⟨label, hlabelled⟩ := h
    have hfirst := hlabelled.find v
    have hupper := congrArg Prod.fst (hlabelled.find_eq v)
    have hv := (hlabelled.known_find v).2 (.inr rfl)
    rw [hleft] at hfirst hupper hv
    have hsecond := hfirst.find w
    have hlower := congrArg Prod.fst (hfirst.find_eq w)
    have hknown := (hfirst.known_find w).2 (.inl hv)
    rw [hright] at hsecond hlower hknown
    simp only at hfirst hupper hsecond hlower hknown
    subst hupper hlower
    exact ⟨_, hsecond.hang _ (hsecond.label_label _) (hsecond.label_label _) hne
      (hsecond.known_label hknown)⟩
  | next hmerge _ ih =>
    obtain ⟨label, hlabelled⟩ := h
    exact ih (hlabelled.merge hmerge)
  | frozen hrun =>
    obtain ⟨label, hlabelled⟩ := h
    exact ⟨label, (hlabelled.freezes hrun).1⟩

/-- What is left when all equations are solved is among the forests that solving goes through. -/
theorem passes_of_foldlM {profile : Profile} {steps : List Equation} {forest solved : Forest}
    (h : steps.foldlM (fun forest step => forest.merge profile step.1 step.2) forest = .ok solved) :
    Passes profile steps forest solved := by
  induction steps generalizing forest with
  | nil =>
    cases h
    exact .start _ _
  | cons step rest ih =>
    rw [List.foldlM_cons] at h
    obtain ⟨between, hmerge, hrest⟩ := bind_eq_ok.1 h
    exact .next hmerge (ih hrest)

/-- Whatever solving goes through, beginning with no variables, is a forest on which the loops end. -/
theorem Passes.sound {profile : Profile} {steps : List Equation} {forest : Forest}
    (h : Passes profile steps [] forest) : forest.Sound := by
  obtain ⟨label, hlabelled⟩ := h.labelled ⟨id, Labelled.nil⟩
  exact hlabelled.sound

end Forest

end QuerySignature
