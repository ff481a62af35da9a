import Mathlib.Tactic.Common
import QuerySignature.Solver.Solution

namespace QuerySignature

/-! # Roots of a forest

The forest of the solver is read through the label of each variable, the root that its way up ends
in. `Forest.Labelled forest label` says that `label` is that reading: parents share their
children's label, roots are their own, and some rank falls on every way up, so that no way is
longer than the forest has nodes.

- `Labelled.root_eq`: climbing finds the label.
- `Labelled.enter`, `Labelled.compress`: entering a variable and shortening a way up change no
  label.
- `Labelled.link`: hanging one root below another relabels the lower tree and nothing else.
-/

namespace Forest

/-- The parent of a variable; a variable that has not been met is its own. -/
def parentOf (forest : Forest) (id : Nat) : Nat :=
  match forest.get? id with
  | some node => node.parent
  | none => id

/-- Whether a variable has been met. -/
def Known (forest : Forest) (id : Nat) : Prop := (forest.get? id).isSome

/-- The reading of a forest that gives every variable the root above it. -/
structure Labelled (forest : Forest) (label : Nat → Nat) : Prop where
  root : ∀ id, forest.parentOf id = id → label id = id
  parent : ∀ id, label (forest.parentOf id) = label id
  known : ∀ id, forest.Known id → forest.Known (forest.parentOf id)
  /-- No way up turns in a circle. -/
  falls : ∃ rank : Nat → Nat, ∀ id, forest.parentOf id ≠ id → rank (forest.parentOf id) < rank id

theorem parentOf_of_get? {forest : Forest} {id : Nat} {node : Node}
    (h : forest.get? id = some node) : forest.parentOf id = node.parent := by
  simp [parentOf, h]

theorem known_of_get? {forest : Forest} {id : Nat} {node : Node}
    (h : forest.get? id = some node) : forest.Known id := by
  simp [Known, h]

theorem parentOf_of_not_known {forest : Forest} {id : Nat} (h : ¬ forest.Known id) :
    forest.parentOf id = id := by
  have hnone : forest.get? id = none := by simpa [Known] using h
  simp [parentOf, hnone]

theorem known_put {forest : Forest} {id other : Nat} {node : Node} :
    (put id node forest).Known other ↔ other = id ∨ forest.Known other := by
  by_cases h : other = id
  · simp [Known, get?_put, h]
  · simp [Known, get?_put, h]

theorem parentOf_put (forest : Forest) (id other : Nat) (node : Node) :
    (put id node forest).parentOf other = if other = id then node.parent else forest.parentOf other := by
  by_cases h : other = id
  · simp [parentOf, get?_put, h]
  · simp [parentOf, get?_put, h]

/-- Giving a node another parent changes nothing that is known of a class. -/
theorem map_info_put {forest : Forest} {id : Nat} {node : Node} (hget : forest.get? id = some node)
    (parent other : Nat) :
    ((put id ⟨parent, node.info⟩ forest).get? other).map Node.info =
      (forest.get? other).map Node.info := by
  rw [get?_put]
  by_cases h : other = id
  · simp [h, hget]
  · simp [h]

theorem known_of_info {forest other : Forest}
    (h : ∀ id, (other.get? id).map Node.info = (forest.get? id).map Node.info) (id : Nat) :
    other.Known id ↔ forest.Known id := by
  have hsame := congrArg Option.isSome (h id)
  rw [Option.isSome_map, Option.isSome_map] at hsame
  unfold Known
  rw [hsame]

theorem mem_of_known {forest : Forest} {id : Nat} (h : forest.Known id) :
    ∃ entry ∈ forest, entry.1 = id := by
  induction forest with
  | nil => simp [Known, get?] at h
  | cons entry rest ih =>
    by_cases hk : entry.1 = id
    · exact ⟨entry, by simp, hk⟩
    · have hrest : Forest.Known rest id := by simpa [Known, get?, hk] using h
      rcases ih hrest with ⟨found, hmem, hid⟩
      exact ⟨found, by simp [hmem], hid⟩

namespace Labelled

variable {forest : Forest} {label : Nat → Nat}

/-- What a variable takes over from its parent, every variable has. -/
theorem upward (h : forest.Labelled label) {P : Nat → Prop}
    (step : ∀ id, (forest.parentOf id ≠ id → P (forest.parentOf id)) → P id) (id : Nat) : P id := by
  rcases h.falls with ⟨rank, hrank⟩
  induction id using (measure rank).wf.induction with
  | h id ih => exact step id fun hne => ih _ (hrank id hne)

/-- A label is a root. -/
theorem parentOf_label (h : forest.Labelled label) (id : Nat) :
    forest.parentOf (label id) = label id := by
  induction id using h.upward with
  | step id ih =>
    by_cases hroot : forest.parentOf id = id
    · rw [h.root id hroot]
      exact hroot
    · have hup := ih hroot
      rwa [h.parent id] at hup

theorem parentOf_of_label (h : forest.Labelled label) {id : Nat} (hroot : label id = id) :
    forest.parentOf id = id := by
  rw [← hroot]
  exact h.parentOf_label id

theorem label_label (h : forest.Labelled label) (id : Nat) : label (label id) = label id :=
  h.root _ (h.parentOf_label id)

theorem label_of_not_known (h : forest.Labelled label) {id : Nat} (hid : ¬ forest.Known id) :
    label id = id :=
  h.root id (parentOf_of_not_known hid)

theorem known_label (h : forest.Labelled label) {id : Nat} (hid : forest.Known id) :
    forest.Known (label id) := by
  induction id using h.upward with
  | step id ih =>
    by_cases hroot : forest.parentOf id = id
    · rw [h.root id hroot]
      exact hid
    · have hup := ih hroot (h.known id hid)
      rwa [h.parent id] at hup

/-! ## Climbing -/

/-- How many entries of a forest lie below a rank. -/
def countBelow (forest : Forest) (rank : Nat → Nat) (bound : Nat) : Nat :=
  (forest.filter fun entry => decide (rank entry.1 < bound)).length

theorem countBelow_lt {forest : Forest} {rank : Nat → Nat} {id bound : Nat}
    (hid : forest.Known id) (hlt : rank id < bound) :
    countBelow forest rank (rank id) < countBelow forest rank bound := by
  have hsub : (forest.filter fun entry => decide (rank entry.1 < rank id)) =
      (forest.filter fun entry => decide (rank entry.1 < bound)).filter
        fun entry => decide (rank entry.1 < rank id) := by
    rw [List.filter_filter]
    refine List.filter_congr fun entry _ => ?_
    by_cases he : rank entry.1 < rank id
    · simp [he, Nat.lt_trans he hlt]
    · simp [he]
  rcases mem_of_known hid with ⟨entry, hmem, hkey⟩
  unfold countBelow
  rw [hsub, List.length_filter_lt_length_iff_exists]
  refine ⟨entry, ?_, ?_⟩
  · simp [hmem, hkey, hlt]
  · simp [hkey]

/-- With as many steps as there are nodes below the start, climbing ends in the label. -/
theorem climb_eq (h : forest.Labelled label) {rank : Nat → Nat}
    (hrank : ∀ id, forest.parentOf id ≠ id → rank (forest.parentOf id) < rank id) (steps id : Nat)
    (hsteps : countBelow forest rank (rank id) ≤ steps) : forest.climb steps id = label id := by
  induction steps generalizing id with
  | zero =>
    have hroot : forest.parentOf id = id := by
      by_contra hne
      have hknown : forest.Known id := by
        by_contra hid
        exact hne (parentOf_of_not_known hid)
      have hlt := countBelow_lt (h.known id hknown) (hrank id hne)
      omega
    rw [h.root id hroot]
    rfl
  | succ steps ih =>
    unfold climb
    cases hget : forest.get? id with
    | none =>
      have hid : ¬ forest.Known id := by simp [Known, hget]
      exact (h.label_of_not_known hid).symm
    | some node =>
      have hp := parentOf_of_get? hget
      by_cases hroot : node.parent = id
      · simp only [hroot, if_true]
        exact (h.root id (hp.trans hroot)).symm
      · have hne : forest.parentOf id ≠ id := by rwa [hp]
        have hlt := countBelow_lt (h.known id (known_of_get? hget)) (hrank id hne)
        simp only [hroot, if_false]
        rw [← hp, ih _ (by omega), h.parent id]

/-- The root above a variable is its label. -/
theorem root_eq (h : forest.Labelled label) (id : Nat) : forest.root id = label id := by
  rcases h.falls with ⟨rank, hrank⟩
  exact h.climb_eq hrank forest.length id (List.length_filter_le _ _)

/-! ## What the operations do to labels -/

/-- Entering a variable changes no label. -/
theorem enter (h : forest.Labelled label) (v : TypeVar) : (forest.enter v).Labelled label := by
  unfold Forest.enter
  cases hget : forest.get? v.id with
  | some node => exact h
  | none =>
    have hparent : ∀ id, (put v.id ⟨v.id, v.info⟩ forest).parentOf id = forest.parentOf id := by
      intro id
      rw [parentOf_put]
      by_cases hid : id = v.id
      · simp [hid, parentOf, hget]
      · simp [hid]
    refine ⟨?_, ?_, ?_, ?_⟩
    · intro id hid
      exact h.root id (by rwa [hparent] at hid)
    · intro id
      rw [hparent]
      exact h.parent id
    · intro id hid
      rw [hparent, known_put]
      rcases known_put.1 hid with heq | hold
      · exact Or.inl (by rw [heq]; simp [parentOf, hget])
      · exact Or.inr (h.known id hold)
    · rcases h.falls with ⟨rank, hrank⟩
      refine ⟨rank, fun id hid => ?_⟩
      rw [hparent] at hid ⊢
      exact hrank id hid

/-- A label never has a higher rank than what it labels. -/
theorem rank_label_le (h : forest.Labelled label) {rank : Nat → Nat}
    (hrank : ∀ id, forest.parentOf id ≠ id → rank (forest.parentOf id) < rank id) (id : Nat) :
    rank (label id) ≤ rank id := by
  induction id using h.upward with
  | step id ih =>
    by_cases hroot : forest.parentOf id = id
    · exact Nat.le_of_eq (by rw [h.root id hroot])
    · have hlt := hrank id hroot
      have hup := ih hroot
      rw [h.parent id] at hup
      omega

/-- What falls on every way up still does when a variable hangs directly below its label. -/
theorem falls_put_label (h : forest.Labelled label) {rank : Nat → Nat}
    (hrank : ∀ id, forest.parentOf id ≠ id → rank (forest.parentOf id) < rank id) (id : Nat)
    (info : TypeInfo) (other : Nat)
    (hother : (put id ⟨label id, info⟩ forest).parentOf other ≠ other) :
    rank ((put id ⟨label id, info⟩ forest).parentOf other) < rank other := by
  rw [parentOf_put] at hother ⊢
  by_cases heq : other = id
  · simp only [heq, if_true] at hother ⊢
    have hroot : forest.parentOf id ≠ id := by
      intro hroot
      exact hother (h.root id hroot)
    have hup := h.rank_label_le hrank (forest.parentOf id)
    rw [h.parent id] at hup
    have := hrank id hroot
    omega
  · simp only [heq, if_false] at hother ⊢
    exact hrank other hother

/-- Hanging a variable directly below its label changes no label. -/
theorem put_label (h : forest.Labelled label) {id : Nat} {node : Node}
    (hget : forest.get? id = some node) :
    (put id ⟨label id, node.info⟩ forest).Labelled label := by
  have hid := known_of_get? hget
  refine ⟨?_, ?_, ?_, ?_⟩
  · intro other hother
    rw [parentOf_put] at hother
    by_cases heq : other = id
    · simp only [heq, if_true] at hother ⊢
      exact hother
    · simp only [heq, if_false] at hother
      exact h.root other hother
  · intro other
    rw [parentOf_put]
    by_cases heq : other = id
    · simp only [heq, if_true]
      exact h.label_label id
    · simp only [heq, if_false]
      exact h.parent other
  · intro other hother
    rw [parentOf_put, known_put]
    by_cases heq : other = id
    · simp only [heq, if_true]
      exact Or.inr (h.known_label hid)
    · simp only [heq, if_false]
      rcases known_put.1 hother with hcase | hcase
      · exact absurd hcase heq
      · exact Or.inr (h.known other hcase)
  · rcases h.falls with ⟨rank, hrank⟩
    exact ⟨rank, h.falls_put_label hrank id node.info⟩

/-- Shortening the way up from a variable changes no label, and no node but the parents. -/
theorem compress (h : forest.Labelled label) (steps id : Nat) :
    (Forest.compress (label id) steps id forest).Labelled label ∧
      ∀ other, ((Forest.compress (label id) steps id forest).get? other).map Node.info =
        (forest.get? other).map Node.info := by
  induction steps generalizing id forest with
  | zero => exact ⟨h, fun _ => rfl⟩
  | succ steps ih =>
    unfold Forest.compress
    by_cases htop : id = label id
    · rw [if_pos htop]
      exact ⟨h, fun _ => rfl⟩
    · rw [if_neg htop]
      cases hget : forest.get? id with
      | none => exact ⟨h, fun _ => rfl⟩
      | some node =>
        have hlabel : label node.parent = label id := by
          rw [← parentOf_of_get? hget]
          exact h.parent id
        have hput := h.put_label hget
        rcases ih hput node.parent with ⟨hdone, hinfo⟩
        rw [hlabel] at hdone hinfo
        exact ⟨hdone, fun other => (hinfo other).trans (map_info_put hget _ other)⟩

/-- Hanging the root `lower` below the root `upper` gives its whole tree the label `upper`. -/
theorem link (h : forest.Labelled label) {upper lower : Nat} (info : TypeInfo)
    (hupper : label upper = upper) (hlower : label lower = lower) (hne : upper ≠ lower) :
    (forest.link upper lower info).Labelled
      fun id => if label id = lower then upper else label id := by
  have hroot := h.parentOf_of_label hupper
  have hparent : ∀ id, (forest.link upper lower info).parentOf id =
      if id = lower then upper else forest.parentOf id := by
    intro id
    unfold Forest.link
    rw [parentOf_put, parentOf_put]
    by_cases hid : id = upper
    · simp [hid, hne, hroot]
    · simp [hid]
  refine ⟨?_, ?_, ?_, ?_⟩
  · intro id hid
    rw [hparent] at hid
    by_cases heq : id = lower
    · simp only [heq, if_true] at hid
      exact absurd hid hne
    · simp only [heq, if_false] at hid
      have hlabel := h.root id hid
      simp [hlabel, heq]
  · intro id
    rw [hparent]
    by_cases heq : id = lower
    · simp [heq, hupper, hlower, hne]
    · simp [heq, h.parent id]
  · intro id hid
    rw [hparent]
    unfold Forest.link at hid ⊢
    rw [known_put, known_put] at hid ⊢
    by_cases heq : id = lower
    · simp [heq]
    · simp only [heq, if_false, false_or] at hid ⊢
      rcases hid with hid | hid
      · exact Or.inl (by rw [hid, hroot])
      · exact Or.inr (Or.inr (h.known id hid))
  · rcases h.falls with ⟨rank, hrank⟩
    -- the lower tree is lifted above the rank of its new root
    refine ⟨fun id => rank id + if label id = lower then rank upper + 1 else 0, fun id hid => ?_⟩
    simp only [hparent] at hid ⊢
    by_cases heq : id = lower
    · simp [heq, hupper, hlower, hne]
      omega
    · simp only [heq, if_false] at hid ⊢
      rw [h.parent id]
      have := hrank id hid
      omega

end Labelled

end Forest

end QuerySignature
