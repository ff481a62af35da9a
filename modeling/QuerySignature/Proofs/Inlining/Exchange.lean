import QuerySignature.Proofs.Abreast.Solved
import QuerySignature.Proofs.Solver.Interleaving

namespace QuerySignature

/-! # Walks in the other order

Two walks that know nothing of each other can be taken in either order. The variables of the first are
then numbered behind those of the second, and their constraints are solved behind those of the second.
What follows both walks speaks of the same variables in both orders.

- `exchange`: the numbers of the variables in the other order.
- `run_swap`: equations without a common variable can be solved in either order.
- `solve_exchange`: so can the constraints of two walks, whatever follows them.
-/

/-- The numbers from 1 on, when a block of `n` and a block of `m` behind it change places. -/
def exchange (n m id : Nat) : Nat :=
  if id ≤ n then id + m else if id ≤ n + m then id - n else id

section Numbers

variable {n m id : Nat}

theorem exchange_first (h : id ≤ n) : exchange n m id = id + m := if_pos h

theorem exchange_second (hmade : 0 < id) (h : id ≤ m) : exchange n m (id + n) = id := by
  unfold exchange
  rw [if_neg (by omega), if_pos (by omega)]
  omega

theorem exchange_beyond (h : n + m < id) : exchange n m id = id := by
  unfold exchange
  rw [if_neg (by omega), if_neg (by omega)]

theorem separates_exchange (n m : Nat) : Separates (exchange n m) := by
  intro x y hx hy h
  unfold exchange at h
  split_ifs at h <;> omega

end Numbers

/-! ## Variables of the two walks -/

section Paired

variable {n m : Nat}

/-- A variable of the first walk, which the second walk precedes in the other order. -/
theorem TypeVar.Paired.first {v v' : TypeVar} (h : v.Paired (· + m) v') (hle : v.id ≤ n) :
    v.Paired (exchange n m) v' := by
  refine ⟨h.made, ?_⟩
  rw [exchange_first hle]
  exact h.eq

/-- A variable of the second walk, which the first walk precedes. -/
theorem TypeVar.Paired.second {v v' : TypeVar} (h : v.Paired (· + n) v') (hle : v.id ≤ m) :
    v'.Paired (exchange n m) v := by
  have hid := h.id
  have hmade := h.made
  refine ⟨?_, ?_⟩
  · omega
  · rw [h.eq]
    dsimp only
    rw [exchange_second hmade hle]

theorem Equation.Paired.first {step step' : Equation} (h : step.Paired (· + m) step')
    (hle : step.Within (· ≤ n)) : step.Paired (exchange n m) step' :=
  ⟨h.label, h.strength, h.coercion, h.left.first hle.1, h.right.first hle.2⟩

theorem Equation.Paired.second {step step' : Equation} (h : step.Paired (· + n) step')
    (hle : step.Within (· ≤ m)) : step'.Paired (exchange n m) step :=
  ⟨h.label.symm, h.strength.symm, h.coercion.symm, h.left.second hle.1, h.right.second hle.2⟩

theorem Placeholder.Paired.first {p p' : Placeholder} (h : p.Paired (· + m) n p') {bound : Nat}
    (hbound : n ≤ bound) : p.Paired (exchange n m) bound p' :=
  ⟨h.var.first h.le, Nat.le_trans h.le hbound, h.name, h.notNull⟩

theorem Placeholder.Paired.second {p p' : Placeholder} (h : p.Paired (· + n) m p') {bound : Nat}
    (hbound : n + m ≤ bound) : p'.Paired (exchange n m) bound p := by
  have hid := h.var.id
  have hle := h.le
  exact ⟨h.var.second h.le, by omega, h.name.symm, h.notNull.symm⟩

/-- A column that the second walk shows. -/
theorem SourceColumn.LooksLike.second {c c' : SourceColumn} (h : c.LooksLike (· + n) c')
    (hle : c.var.id ≤ m) : c'.LooksLike (exchange n m) c where
  name := h.name.symm
  visibleTable := h.visibleTable.symm
  notNull := h.notNull.symm
  projected := h.projected.symm
  info := h.info.symm
  tied hprojected := (h.tied (h.projected.symm.trans hprojected)).second hle

end Paired

/-! ## Solving -/

section Solving

variable {n m : Nat}

/-- Equations without a common variable can be solved in either order. -/
theorem run_swap (profile : Profile) (initial : Nat → TypeInfo) {a b : List Equation}
    (ha : ∀ step ∈ a, step.Within (· ≤ n)) (hb : ∀ step ∈ b, step.Within (n < ·)) :
    Likewise (Agree id fun _ => True) ((Classes.start initial).run profile (a ++ b))
      ((Classes.start initial).run profile (b ++ a)) := by
  have hstart : Divided (· ≤ n) (n < ·) (.start initial) (.start initial) (.start initial) :=
    .start initial fun x => Nat.not_lt.2
  have hone := hstart.run profile (.append a b) ha hb
  have hother := hstart.run profile (Interleaved.append b a).symm ha hb
  refine hone.likewise hother fun s t s₁ s₂ hs ht => ?_
  -- both orders do to either part what its own equations do to it alone
  have hleft : ∀ x y, x ≤ n → y ≤ n → (s.label x = s.label y ↔ t.label x = t.label y) :=
    fun x y hx hy => (hs.left.same x y hx hy).trans (ht.left.same x y hx hy).symm
  have hright : ∀ x y, n < x → n < y → (s.label x = s.label y ↔ t.label x = t.label y) :=
    fun x y hx hy => (hs.right.same x y hx hy).trans (ht.right.same x y hx hy).symm
  refine ⟨fun x y _ _ => ?_, fun x _ => ?_⟩
  · rcases Nat.lt_or_ge n x with hx | hx <;> rcases Nat.lt_or_ge n y with hy | hy
    · exact hright x y hx hy
    · have hsApart := hs.apart y x hy hx
      have htApart := ht.apart y x hy hx
      exact ⟨fun heq => absurd heq.symm hsApart, fun heq => absurd heq.symm htApart⟩
    · exact ⟨fun heq => absurd heq (hs.apart x y hx hy), fun heq => absurd heq (ht.apart x y hx hy)⟩
    · exact hleft x y hx hy
  · rcases Nat.lt_or_ge n x with hx | hx
    · exact (hs.right.info x hx).trans (ht.right.info x hx).symm
    · exact (hs.left.info x hx).trans (ht.left.info x hx).symm

theorem firstOf_append (xs ys : List TypeVar) (id : Nat) :
    firstOf (xs ++ ys) id = (firstOf xs id).or (firstOf ys id) := List.find?_append

theorem occurrences_append (a b : List Equation) :
    occurrences (a ++ b) = occurrences a ++ occurrences b := List.flatMap_append

/-- Variables of equations without a common one occur first at the same places in either order. -/
theorem firstOf_swap {a b k : List Equation} (ha : ∀ step ∈ a, step.Within (· ≤ n))
    (hb : ∀ step ∈ b, step.Within (n < ·)) (id : Nat) :
    firstOf (occurrences (a ++ b ++ k)) id = firstOf (occurrences (b ++ a ++ k)) id := by
  have hnone : firstOf (occurrences a) id = none ∨ firstOf (occurrences b) id = none := by
    rw [firstOf_eq_none_iff, firstOf_eq_none_iff]
    rcases Nat.lt_or_ge n id with hid | hid
    · refine Or.inl fun ⟨w, hw, heq⟩ => ?_
      rcases mem_occurrences hw with ⟨step, hstep, rfl | rfl⟩
      · exact absurd hid (Nat.not_lt.2 (heq ▸ (ha step hstep).1))
      · exact absurd hid (Nat.not_lt.2 (heq ▸ (ha step hstep).2))
    · refine Or.inr fun ⟨w, hw, heq⟩ => ?_
      rcases mem_occurrences hw with ⟨step, hstep, rfl | rfl⟩
      · exact absurd (hb step hstep).1 (Nat.not_lt.2 (heq ▸ hid))
      · exact absurd (hb step hstep).2 (Nat.not_lt.2 (heq ▸ hid))
  -- the number occurs in at most one of the parts, so that their order does not matter
  simp only [occurrences_append, firstOf_append]
  rcases hnone with hnone | hnone
  · rw [hnone, Option.none_or, Option.or_none]
  · rw [hnone, Option.none_or, Option.or_none]

/-- The constraints of two walks and of what follows them, in either order. Those of the first walk are
`a`, or `a'` behind the second; those of the second are `b`, or `b'` behind the first. -/
structure InEitherOrder (n m : Nat) (cs cs' : List Constraint) (a a' b b' k k' : List Equation) :
    Prop where
  order : equationsOf cs = a ++ b' ++ k
  other : equationsOf cs' = b ++ a' ++ k'
  first : List.Forall₂ (Equation.Paired (· + m)) a a'
  second : List.Forall₂ (Equation.Paired (· + n)) b b'
  following : List.Forall₂ (Equation.Paired (exchange n m)) k k'
  firstMade : ∀ step ∈ a, step.Within (· ≤ n)
  secondMade : ∀ step ∈ b, step.Within (· ≤ m)

namespace InEitherOrder

variable {cs cs' : List Constraint} {a a' b b' k k' : List Equation}

/-- The variables of the second walk are numbered behind those of the first. -/
theorem behind (h : InEitherOrder n m cs cs' a a' b b' k k') : ∀ step ∈ b', step.Within (n < ·) := by
  intro step' hstep'
  rcases exists_partner h.second hstep' with ⟨step, -, hpair⟩
  exact hpair.beyond

/-- With the second walk in front, all equations stand for those of the other order. -/
theorem paired (h : InEitherOrder n m cs cs' a a' b b' k k') :
    List.Forall₂ (Equation.Paired (exchange n m)) (b' ++ a ++ k) (b ++ a' ++ k') := by
  have hfirst : List.Forall₂ (Equation.Paired (exchange n m)) a a' := by
    refine ((List.forall₂_and_left _ _).2 ⟨h.firstMade, h.first⟩).imp fun _ _ hstep => ?_
    exact hstep.2.first hstep.1
  have hsecond : List.Forall₂ (Equation.Paired (exchange n m)) b' b := by
    refine (((List.forall₂_and_left _ _).2 ⟨h.secondMade, h.second⟩).imp fun _ _ hstep => ?_).flip
    exact hstep.2.second hstep.1
  exact List.rel_append (List.rel_append hsecond hfirst) h.following

/-- Classes are found in one order as in the other. -/
theorem run (h : InEitherOrder n m cs cs' a a' b b' k k') (profile : Profile)
    (initial : Nat → TypeInfo) :
    Likewise (Agree (exchange n m) (0 < ·))
      ((Classes.start fun id => initial (exchange n m id)).run profile (equationsOf cs))
      ((Classes.start initial).run profile (equationsOf cs')) := by
  have hsame : List.Forall₂ (Equation.Renumbered id) k k :=
    List.forall₂_same.2 fun _ _ => ⟨rfl, rfl, rfl, rfl, rfl⟩
  have hswap := run_swap profile (fun id => initial (exchange n m id)) h.firstMade h.behind
  have hfollowing : Likewise (Agree id fun _ => True)
      ((Classes.start fun id => initial (exchange n m id)).run profile (a ++ b' ++ k))
      ((Classes.start fun id => initial (exchange n m id)).run profile (b' ++ a ++ k)) := by
    rw [Classes.run_append _ _ (a ++ b'), Classes.run_append _ _ (b' ++ a)]
    refine hswap.bind fun s t hst => ?_
    exact (hst.run profile hsame fun _ _ => ⟨trivial, trivial⟩).likewise
  rw [h.order, h.other]
  have hpaired := run_paired (separates_exchange n m) profile initial h.paired
  refine hfollowing.trans hpaired.likewise fun s t t' hst htt' => ?_
  exact (hst.mono fun _ _ => trivial).trans htt' fun _ hx => hx

/-- What variables carry where they occur first in the other order, they carry in this one. -/
theorem firstsCarry (h : InEitherOrder n m cs cs' a a' b b' k k') {initial : Nat → TypeInfo}
    (hother : FirstsCarry initial (occurrences (equationsOf cs'))) :
    FirstsCarry (fun id => initial (exchange n m id)) (occurrences (equationsOf cs)) := by
  rw [h.other] at hother
  have hswapped := hother.of_paired (separates_exchange n m) (occurrences_paired h.paired)
  intro id v hv
  rw [h.order, firstOf_swap h.firstMade h.behind] at hv
  exact hswapped id v hv

/-- A variable that does not occur in one order does not occur in the other. -/
theorem not_mem (h : InEitherOrder n m cs cs' a a' b b' k k') {v v' : TypeVar}
    (hv : v.Paired (exchange n m) v') (hnot : ¬ ∃ w ∈ occurrences (equationsOf cs), w.id = v.id) :
    ¬ ∃ w ∈ occurrences (equationsOf cs'), w.id = v'.id := by
  rw [← firstOf_eq_none_iff, h.order, firstOf_swap h.firstMade h.behind,
    firstOf_eq_none_iff] at hnot
  rw [h.other]
  exact hv.not_mem (occurrences_paired h.paired) (separates_exchange n m) hnot

/-- What is solved in one order is solved in the other, and the same is found out of the variables. -/
theorem solve (h : InEitherOrder n m cs cs' a a' b b' k k') (profile : Profile) :
    Likewise (fun solution solution' : Solution =>
        ∀ v v', v.Paired (exchange n m) v' → solution'.infoOf v' = solution.infoOf v)
      (QuerySignature.solve profile cs) (QuerySignature.solve profile cs') := by
  -- a variable that does not occur at all has the type that it was made for
  have hmade : ∀ made : TypeInfo, Likewise (fun solution solution' : Solution =>
      ∀ v v', v.Paired (exchange n m) v' → v'.info = made →
        solution'.infoOf v' = solution.infoOf v)
      (QuerySignature.solve profile cs) (QuerySignature.solve profile cs') := by
    intro made
    let initial := firstType (occurrences (equationsOf cs')) made
    have hfirsts : FirstsCarry initial (occurrences (equationsOf cs')) :=
      firstsCarry_firstType _ made
    have hone := (solve_alike_firsts profile (h.firstsCarry hfirsts)).likewise
    have hother := (solve_alike_firsts profile hfirsts).likewise.flip
    refine (hone.trans (h.run profile initial) (T := fun solution t => ∃ s,
      Agree (exchange n m) (0 < ·) s t ∧ ∀ v : TypeVar,
        ((¬ ∃ w ∈ occurrences (equationsOf cs), w.id = v.id) →
          v.Carries fun id => initial (exchange n m id)) → solution.infoOf v = s.infoOf v.id)
      fun _ s _ hs hst => ⟨s, hst, hs⟩).trans hother ?_
    rintro solution t solution' ⟨s, hagree, hs⟩ ht v v' hv hinfo
    have hcarries : (¬ ∃ w ∈ occurrences (equationsOf cs'), w.id = v'.id) → v'.Carries initial := by
      intro hnot
      have hunmet := carries_firstType hnot
      rw [hinfo] at hunmet
      exact hunmet
    calc
      solution'.infoOf v' = t.infoOf v'.id := ht v' hcarries
      _ = t.infoOf (exchange n m v.id) := by rw [hv.id]
      _ = s.infoOf v.id := (hagree.info v.id hv.made).symm
      _ = solution.infoOf v := (hs v fun hnot => hv.carries (hcarries (h.not_mem hv hnot))).symm
  exact (Likewise.all hmade).mono fun _ _ hall v v' hv => hall v'.info v v' hv rfl

end InEitherOrder

end Solving

end QuerySignature
