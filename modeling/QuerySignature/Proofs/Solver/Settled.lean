import QuerySignature.Proofs.Solver.Components

namespace QuerySignature

/-! # Equations that stay solved

An equation that may not be passed over brings its two sides into one class, and no class is ever
split again. So however often the type of the class changes afterwards, the two sides have one type in
the end, and solving the equation once more finds nothing to do.

- `TypeTerm.Relates`: which variables two terms relate, told without the list of equations.
- `Represents.merge_settled`: an equation whose sides are in one class leaves the classes as they are.
- `equations_stay_solved`: the related variables of a solved constraint have one type, and the constraint
  can be repeated.
-/

/-- Two variables that two related terms relate: rows are related item by item, a variable with every
item of a row. -/
inductive TypeTerm.Relates : TypeTerm → TypeTerm → TypeVar → TypeVar → Prop
  | vars (v w : TypeVar) : Relates (.var v) (.var w) v w
  | items {lefts rights : List TypeTerm} {left right : TypeTerm} {v w : TypeVar} (place : Nat)
      (atLeft : lefts[place]? = some left) (atRight : rights[place]? = some right)
      (related : Relates left right v w) : Relates (.tuple lefts) (.tuple rights) v w
  | everyRight {u : TypeVar} {rights : List TypeTerm} {right : TypeTerm} {v w : TypeVar}
      (member : right ∈ rights) (related : Relates (.var u) right v w) :
      Relates (.var u) (.tuple rights) v w
  | everyLeft {lefts : List TypeTerm} {left : TypeTerm} {u v w : TypeVar} (member : left ∈ lefts)
      (related : Relates left (.var u) v w) : Relates (.tuple lefts) (.var u) v w

namespace TypeTerm

theorem mem_varsOfAll {items : List TypeTerm} {item : TypeTerm} {v : TypeVar}
    (hmem : item ∈ items) (hv : v ∈ item.vars) : v ∈ varsOfAll items := by
  induction items with
  | nil => exact absurd hmem List.not_mem_nil
  | cons first rest ih =>
    rw [varsOfAll, List.mem_append]
    rcases List.mem_cons.1 hmem with rfl | hrest
    · exact .inl hv
    · exact .inr (ih hrest)

theorem mem_equationsOfAll {lefts rights : List TypeTerm} {left right : TypeTerm} {place : Nat}
    {pair : TypeVar × TypeVar} (hleft : lefts[place]? = some left)
    (hright : rights[place]? = some right) (hpair : pair ∈ left.equations right) :
    pair ∈ equationsOfAll lefts rights := by
  induction lefts generalizing rights place with
  | nil => cases hleft
  | cons first lefts ih =>
    cases rights with
    | nil => cases hright
    | cons other rights =>
      rw [equationsOfAll, List.mem_append]
      cases place with
      | zero =>
        cases hleft
        cases hright
        exact .inl hpair
      | succ place => exact .inr (ih hleft hright)

theorem equations_var_right (left : TypeTerm) (w : TypeVar) :
    left.equations (.var w) = left.vars.map fun v => (v, w) := by
  cases left <;> rfl

/-- Related variables are the sides of an equation. -/
theorem Relates.mem_equations {left right : TypeTerm} {v w : TypeVar} (h : left.Relates right v w) :
    (v, w) ∈ left.equations right := by
  induction h with
  | vars v w => exact List.mem_singleton.2 rfl
  | items place atLeft atRight _ ih => exact mem_equationsOfAll atLeft atRight ih
  | everyRight member _ ih =>
    rw [equations, List.mem_map] at ih ⊢
    obtain ⟨x, hx, hpair⟩ := ih
    exact ⟨x, mem_varsOfAll member hx, hpair⟩
  | everyLeft member _ ih =>
    rw [equations_var_right, List.mem_map] at ih ⊢
    obtain ⟨x, hx, hpair⟩ := ih
    exact ⟨x, mem_varsOfAll member hx, hpair⟩

end TypeTerm

/-! ## The variables of a forest -/

namespace Forest

/-- The variables that have been met, in the order in which they were. -/
def keys (forest : Forest) : List Nat := forest.map (·.1)

theorem known_iff_mem_keys {forest : Forest} {id : Nat} : forest.Known id ↔ id ∈ forest.keys := by
  induction forest with
  | nil => simp [Known, get?, keys]
  | cons entry rest ih =>
    by_cases hid : entry.1 = id
    · simp [Known, get?, keys, hid]
    · simpa [Known, get?, keys, hid, Ne.symm hid] using ih

theorem keys_put {forest : Forest} {id : Nat} (hid : forest.Known id) (node : Node) :
    (put id node forest).keys = forest.keys := by
  rw [known_iff_mem_keys] at hid
  induction forest with
  | nil => exact absurd hid List.not_mem_nil
  | cons entry rest ih =>
    by_cases hentry : entry.1 = id
    · simp [put, keys, hentry]
    · have hrest : id ∈ keys rest := (List.mem_cons.1 hid).resolve_left (Ne.symm hentry)
      have hkeys := ih hrest
      simp only [keys] at hkeys
      simp [put, keys, hentry, hkeys]

theorem keys_compress (top steps : Nat) (id : Nat) (forest : Forest) :
    (compress top steps id forest).keys = forest.keys := by
  induction steps generalizing id forest with
  | zero => rfl
  | succ steps ih =>
    unfold compress
    by_cases htop : id = top
    · rw [if_pos htop]
    · rw [if_neg htop]
      cases hnode : forest.get? id with
      | none => rfl
      | some node => exact (ih _ _).trans (keys_put (known_of_get? hnode) _)

/-- Looking up a variable that has been met meets no other one. -/
theorem keys_find {forest : Forest} {v : TypeVar} (hv : forest.Known v.id) :
    (forest.find v).2.keys = forest.keys := by
  have hentered : forest.enter v = forest := by
    obtain ⟨node, hnode⟩ := Option.isSome_iff_exists.1 hv
    simp only [enter, hnode]
  unfold find
  rw [hentered]
  exact keys_compress _ _ _ _

end Forest

/-! ## Equations that hold -/

namespace Represents

variable {initial : Nat → TypeInfo} {forest : Forest} {s : Classes}

/-- A solution tells of each variable that has been met what is known of its class. -/
theorem ofForest_eq (h : Represents initial forest s) :
    Solution.ofForest forest = ⟨forest.keys.map fun id => (id, s.infoOf id)⟩ := by
  unfold Solution.ofForest Forest.keys
  rw [List.map_map]
  refine congrArg Solution.mk (List.map_congr_left fun entry hentry => ?_)
  have hknown : forest.Known entry.1 :=
    Forest.known_iff_mem_keys.2 (List.mem_map_of_mem hentry)
  show (entry.1, forest.infoAt (forest.root entry.1)) = _
  rw [h.labelled.root_eq, h.met entry.1 hknown]
  rfl

/-- An equation whose sides are in one class leaves the classes as they are. -/
theorem merge_settled (h : Represents initial forest s) (profile : Profile) (c : Constraint)
    {pair : TypeVar × TypeVar} (hleft : pair.1.id ∈ forest.keys) (hright : pair.2.id ∈ forest.keys)
    (hsame : s.label pair.1.id = s.label pair.2.id) :
    ∃ next, forest.merge profile c pair = .ok next ∧ Represents initial next s ∧
      next.keys = forest.keys := by
  have hknownLeft := Forest.known_iff_mem_keys.2 hleft
  obtain ⟨hrootLeft, hfirst, -⟩ := h.find fun hnew => absurd hknownLeft hnew
  have hkeysFirst := Forest.keys_find hknownLeft
  have hknownRight : (forest.find pair.1).2.Known pair.2.id :=
    Forest.known_iff_mem_keys.2 (hkeysFirst ▸ hright)
  obtain ⟨hrootRight, hsecond, -⟩ := hfirst.find fun hnew => absurd hknownRight hnew
  refine ⟨_, ?_, hsecond, (Forest.keys_find hknownRight).trans hkeysFirst⟩
  unfold Forest.merge
  simp only [hrootLeft, hrootRight, hsame, if_true]

/-- So do equations in a row. -/
theorem foldlM_settled (h : Represents initial forest s) (profile : Profile) (c : Constraint)
    {pairs : List (TypeVar × TypeVar)}
    (hmet : ∀ pair ∈ pairs, pair.1.id ∈ forest.keys ∧ pair.2.id ∈ forest.keys)
    (hsame : ∀ pair ∈ pairs, s.label pair.1.id = s.label pair.2.id) :
    ∃ next, pairs.foldlM (Forest.merge profile c) forest = .ok next ∧ Represents initial next s ∧
      next.keys = forest.keys := by
  induction pairs generalizing forest with
  | nil => exact ⟨forest, rfl, h, rfl⟩
  | cons pair rest ih =>
    obtain ⟨hleft, hright⟩ := hmet pair List.mem_cons_self
    obtain ⟨between, hmerge, hbetween, hkeys⟩ :=
      h.merge_settled profile c hleft hright (hsame pair List.mem_cons_self)
    obtain ⟨next, hrest, hnext, hlast⟩ := ih hbetween
      (fun other hother => hkeys ▸ hmet other (List.mem_cons_of_mem _ hother))
      fun other hother => hsame other (List.mem_cons_of_mem _ hother)
    refine ⟨next, ?_, hnext, hlast.trans hkeys⟩
    rw [List.foldlM_cons, hmerge]
    exact hrest

end Represents

/-! ## Solutions -/

theorem exists_forest {profile : Profile} {constraints : List Constraint} {solution : Solution}
    (hsolve : solve profile constraints = .ok solution) :
    ∃ forest, Forest.constrainAll profile [] constraints = .ok forest ∧
      solution = .ofForest forest := by
  unfold solve at hsolve
  cases hforest : Forest.constrainAll profile [] constraints with
  | error clash =>
    rw [hforest] at hsolve
    cases hsolve
  | ok forest =>
    rw [hforest] at hsolve
    cases hsolve
    exact ⟨forest, rfl, rfl⟩

/-- Constraints that have been solved, as a forest and as the classes that it stands for. It has met the
variables of all equations, and the two sides of each that may not be passed over are in one class. -/
theorem exists_settled {profile : Profile} {constraints : List Constraint} {solution : Solution}
    (hsolve : solve profile constraints = .ok solution) :
    ∃ initial forest s, Forest.constrainAll profile [] constraints = .ok forest ∧
      Represents initial forest s ∧ solution = .ofForest forest ∧
      (∀ step ∈ equationsOf constraints,
        step.2.1.id ∈ forest.keys ∧ step.2.2.id ∈ forest.keys) ∧
      ∀ step ∈ equationsOf constraints, step.1.strength ≠ .bestEffort →
        s.label step.2.1.id = s.label step.2.2.id := by
  obtain ⟨forest, hforest, rfl⟩ := exists_forest hsolve
  let initial := firstType (occurrences (equationsOf constraints)) .unknown
  have halike := (Represents.nil initial).run_firsts profile fun id v _ =>
    firstsCarry_firstType (occurrences (equationsOf constraints)) .unknown id v
  rw [← Forest.constrainAll_eq] at halike
  obtain ⟨s, hs, hrepresents, hknown⟩ := halike.of_ok hforest
  refine ⟨initial, forest, s, hforest, hrepresents, rfl, fun step hstep => ?_,
    fun step hstep hbinding => Classes.same_of_mem hstep hbinding hs⟩
  have hoccurs : ∀ v, v = step.2.1 ∨ v = step.2.2 → v.id ∈ forest.keys := by
    intro v hv
    refine Forest.known_iff_mem_keys.1 ((hknown v.id).2 (Or.inr ⟨v, ?_, rfl⟩))
    exact List.mem_flatMap.2 ⟨step, hstep, by simpa using hv⟩
  exact ⟨hoccurs _ (Or.inl rfl), hoccurs _ (Or.inr rfl)⟩

/-- Whatever constraints have been solved, each one that is not passed over where it cannot hold relates
variables of one type, and solving it once more at the end changes nothing. -/
theorem equations_stay_solved {profile : Profile} {constraints : List Constraint}
    {solution : Solution} (hsolve : solve profile constraints = .ok solution) {c : Constraint}
    (hc : c ∈ constraints) (hbinding : c.strength ≠ .bestEffort) :
    (∀ v w, c.left.Relates c.right v w → solution.infoOf v = solution.infoOf w) ∧
      solve profile (constraints ++ [c]) = .ok solution := by
  obtain ⟨initial, forest, s, hforest, hrepresents, rfl, hmet, hsame⟩ := exists_settled hsolve
  have hstep : ∀ pair ∈ c.equations, (c, pair) ∈ equationsOf constraints := fun pair hpair =>
    List.mem_flatMap.2 ⟨c, hc, List.mem_map_of_mem hpair⟩
  constructor
  · intro v w hrelated
    have hpair := hstep (v, w) hrelated.mem_equations
    obtain ⟨hv, hw⟩ := hmet _ hpair
    rw [hrepresents.infoOf_ofForest fun hnew => absurd (Forest.known_iff_mem_keys.2 hv) hnew,
      hrepresents.infoOf_ofForest fun hnew => absurd (Forest.known_iff_mem_keys.2 hw) hnew]
    exact congrArg s.info (hsame _ hpair hbinding)
  · obtain ⟨next, hnext, hagain, hkeys⟩ := hrepresents.foldlM_settled profile c
      (fun pair hpair => hmet _ (hstep pair hpair)) fun pair hpair => hsame _ (hstep pair hpair) hbinding
    have hall : Forest.constrainAll profile [] (constraints ++ [c]) = .ok next := by
      rw [Forest.constrainAll_append, hforest]
      show Except.bind (forest.constrain profile c) (fun last => .ok last) = _
      unfold Forest.constrain
      rw [show c.equations.foldlM (Forest.merge profile c) forest = .ok next from hnext]
      rfl
    unfold solve
    rw [hall, hrepresents.ofForest_eq, ← hkeys, ← hagain.ofForest_eq]
    rfl

/-- The row `(a, (b, c)) = (?, d)` is solved first, and then the type of its last class is widened. -/
theorem equations_stay_solved_nestedRows : ∃ c solution, c ∈ nestedRows ∧ c.strength = .strict ∧
    solve .mysql nestedRows = .ok solution ∧
    c.left.Relates c.right (.made nestedRowTypes 3) (.made nestedRowTypes 5) ∧
    solution.infoOf (.made nestedRowTypes 5) = .exact .double ∧
    solution.infoOf (.made nestedRowTypes 3) = solution.infoOf (.made nestedRowTypes 5) ∧
    solve .mysql (nestedRows ++ [c]) = .ok solution := by
  obtain ⟨hsame, hagain⟩ := equations_stay_solved solve_nestedRows (c := nestedRows.head!)
    (by simp [nestedRows]) (by decide)
  have hrelated : nestedRows.head!.left.Relates nestedRows.head!.right (.made nestedRowTypes 3)
      (.made nestedRowTypes 5) :=
    .items 1 rfl rfl (.everyLeft (by simp) (.vars _ _))
  exact ⟨_, _, by simp [nestedRows], rfl, solve_nestedRows, hrelated, rfl, hsame _ _ hrelated, hagain⟩

end QuerySignature
