import QuerySignature.Proofs.Solver.Loops

namespace QuerySignature

/-! # The solver on two maps

A forest has the parent of a variable and what is known of it in one node. Here each is kept in a map of
its own and looked up for itself: a look-up may miss, and a loop may not come to its end in the passes
that it is given. Neither happens while any constraints are solved, as long as the loops are given
enough passes, and the two maps stay those of the forest.

- `Maps.climb`, `Maps.shorten`, `Maps.ascend`: the three loops.
- `Forest.Labelled.find_maps`, `Forest.Labelled.merge_maps`: finding a root and solving an equation on
  the maps of a forest.
- `Forest.sound_of_solving`: whatever solving goes through is a forest on which the loops end, and no
  look-up misses.
-/

/-- The parents of variables and what is known of them, in a map each. -/
structure Maps where
  parent : Nat → Option Nat
  info : Nat → Option TypeInfo

namespace Maps

/-- No variable has been met. -/
def empty : Maps := ⟨fun _ => none, fun _ => none⟩

/-- Writes the parent of a variable. -/
def setParent (maps : Maps) (id parent : Nat) : Maps :=
  { maps with parent := fun other => if other = id then some parent else maps.parent other }

/-- Writes what is known of a variable. -/
def setInfo (maps : Maps) (id : Nat) (info : TypeInfo) : Maps :=
  { maps with info := fun other => if other = id then some info else maps.info other }

/-- Enters a variable in each of the maps that does not have it. -/
def enter (maps : Maps) (v : TypeVar) : Maps where
  parent id := (maps.parent id).or (if id = v.id then some v.id else none)
  info id := (maps.info id).or (if id = v.id then some v.info else none)

/-- Follows parents up to a variable that is its own parent, or that has none. -/
def climb (maps : Maps) : Nat → Nat → Option Nat
  | 0, _ => none
  | passes + 1, id =>
    match maps.parent id with
    | some next => if next = id then some id else maps.climb passes next
    | none => some id

/-- Hangs the variables on the way from `id` to `top` directly below `top`. -/
def shorten (top : Nat) : Nat → Nat → Maps → Option Maps
  | 0, _, _ => none
  | passes + 1, id, maps =>
    if id = top then some maps
    else (maps.parent id).bind fun next => shorten top passes next (maps.setParent id top)

/-- The root of a variable's class, with the variable entered and its way up shortened. -/
def find (passes : Nat) (maps : Maps) (v : TypeVar) : Option (Nat × Maps) :=
  ((maps.enter v).climb passes v.id).bind fun top =>
    (shorten top passes v.id (maps.enter v)).map fun maps => (top, maps)

/-- Solves one equation of a constraint. -/
def merge (passes : Nat) (profile : Profile) (c : Constraint) (maps : Maps)
    (pair : TypeVar × TypeVar) : Option (Except Clash Maps) := do
  let (left, maps) ← maps.find passes pair.1
  let (right, maps) ← maps.find passes pair.2
  if left = right then return .ok maps
  let leftInfo ← maps.info left
  let rightInfo ← maps.info right
  match TypeInfo.merge? profile c.strength c.coercion leftInfo rightInfo with
  | some info => return .ok ((maps.setParent right left).setInfo left info)
  | none =>
    match c.strength with
    | .strict => return .error ⟨leftInfo, rightInfo, c.label⟩
    | _ => return .ok maps

/-- Solves equations in their order, up to the first one that fails. -/
def solve (passes : Nat) (profile : Profile) : List Equation → Maps → Option (Except Clash Maps)
  | [], maps => some (.ok maps)
  | step :: rest, maps =>
    (maps.merge passes profile step.1 step.2).bind fun
      | .ok maps => solve passes profile rest maps
      | .error clash => some (.error clash)

/-- Follows parents up to a variable that is its own parent. -/
def ascend (maps : Maps) : Nat → Nat → Option Nat
  | 0, _ => none
  | passes + 1, id =>
    (maps.parent id).bind fun next => if next = id then some id else maps.ascend passes next

/-- Reads off what is known of the classes of some variables, and hangs each below its root. -/
def freeze (passes : Nat) : List Nat → Maps → Option (List (Nat × TypeInfo))
  | [], _ => some []
  | id :: ids, maps =>
    (maps.ascend passes id).bind fun top => (maps.info top).bind fun info =>
      (freeze passes ids (maps.setParent id top)).map fun rest => (id, info) :: rest

/-- Where no look-up misses, both ways to follow parents come to the same. -/
theorem climb_of_ascend {maps : Maps} {passes id top : Nat} (h : maps.ascend passes id = some top) :
    maps.climb passes id = some top := by
  induction passes generalizing id with
  | zero => cases h
  | succ passes ih =>
    unfold ascend at h
    obtain ⟨next, hnext, h⟩ := Option.bind_eq_some_iff.1 h
    unfold climb
    rw [hnext]
    dsimp only
    split at h
    case isTrue hself => rw [if_pos hself, h]
    case isFalse hself =>
      rw [if_neg hself]
      exact ih h

end Maps

namespace Forest

/-- The two maps of a forest. -/
def maps (forest : Forest) : Maps where
  parent id := (forest.get? id).map Node.parent
  info id := (forest.get? id).map Node.info

variable {forest : Forest} {label : Nat → Nat}

theorem maps_put (forest : Forest) (id : Nat) (node : Node) :
    (put id node forest).maps = (forest.maps.setParent id node.parent).setInfo id node.info := by
  unfold maps Maps.setParent Maps.setInfo
  simp only [get?_put, apply_ite (Option.map Node.parent), apply_ite (Option.map Node.info),
    Option.map_some]

/-- Giving a node another parent writes that parent only. -/
theorem maps_put_parent {id : Nat} {node : Node} (hnode : forest.get? id = some node) (top : Nat) :
    (put id ⟨top, node.info⟩ forest).maps = forest.maps.setParent id top := by
  rw [maps_put]
  unfold Maps.setInfo Maps.setParent maps
  congr 1
  funext other
  split
  case isTrue heq =>
    subst heq
    exact (congrArg (Option.map Node.info) hnode).symm
  case isFalse => rfl

theorem maps_enter (forest : Forest) (v : TypeVar) : (forest.enter v).maps = forest.maps.enter v := by
  unfold Forest.enter
  cases hget : forest.get? v.id with
  | some node =>
    unfold maps Maps.enter
    congr 1
    all_goals
      funext id
      dsimp only
      split
      case isTrue heq => rw [heq, hget]; rfl
      case isFalse => rw [Option.or_none]
  | none =>
    rw [maps_put]
    unfold maps Maps.enter Maps.setInfo Maps.setParent
    congr 1
    all_goals
      funext id
      dsimp only
      split
      case isTrue heq => rw [heq, hget]; rfl
      case isFalse => rw [Option.or_none]

theorem parent_maps {id : Nat} (hid : forest.Known id) :
    forest.maps.parent id = some (forest.parentOf id) := by
  obtain ⟨node, hnode⟩ := Option.isSome_iff_exists.1 hid
  show (forest.get? id).map Node.parent = _
  rw [hnode, parentOf_of_get? hnode]
  rfl

theorem info_maps {id : Nat} (hid : forest.Known id) :
    forest.maps.info id = some (forest.infoAt id) := by
  obtain ⟨node, hnode⟩ := Option.isSome_iff_exists.1 hid
  show (forest.get? id).map Node.info = _
  rw [infoAt_eq, hnode]
  rfl

/-- Hanging a root below another writes one entry of each map. -/
theorem maps_link {upper lower : Nat} (info : TypeInfo) (hlower : forest.Known lower)
    (hupper : forest.maps.parent upper = some upper) :
    (forest.link upper lower info).maps =
      (forest.maps.setParent lower upper).setInfo upper info := by
  obtain ⟨node, hnode⟩ := Option.isSome_iff_exists.1 hlower
  have hinfo : forest.infoAt lower = node.info := by
    rw [infoAt_eq, hnode]
    rfl
  have hself : (forest.maps.setParent lower upper).setParent upper upper =
      forest.maps.setParent lower upper := by
    unfold Maps.setParent
    congr 1
    funext other
    dsimp only
    split
    case isTrue heq =>
      subst heq
      split
      · rfl
      · exact hupper.symm
    case isFalse => rfl
  unfold Forest.link
  rw [maps_put, hinfo, maps_put_parent hnode, hself]

theorem length_put {id : Nat} (node : Node) (hid : forest.Known id) :
    (put id node forest).length = forest.length := by
  induction forest with
  | nil => cases hid
  | cons entry rest ih =>
    obtain ⟨other, old⟩ := entry
    unfold put
    split
    case isTrue => rfl
    case isFalse hne =>
      have hrest : Forest.Known rest id := by simpa [Known, get?, hne] using hid
      rw [List.length_cons, List.length_cons, ih hrest]

namespace Labelled

/-- Following the parents of a known variable takes no more passes than there are variables. -/
theorem ascend_maps_steps (h : forest.Labelled label) {rank : Nat → Nat}
    (hrank : ∀ id, forest.parentOf id ≠ id → rank (forest.parentOf id) < rank id) {passes id : Nat}
    (hid : forest.Known id) (hpasses : countBelow forest rank (rank id) < passes) :
    forest.maps.ascend passes id = some (label id) := by
  induction passes generalizing id with
  | zero => omega
  | succ passes ih =>
    unfold Maps.ascend
    rw [parent_maps hid, Option.bind_some]
    split
    case isTrue hself => rw [h.root id hself]
    case isFalse hne =>
      have hup := h.known id hid
      have hlt := countBelow_lt hup (hrank id hne)
      rw [ih hup (by omega), h.parent]

theorem ascend_maps (h : forest.Labelled label) {passes id : Nat} (hid : forest.Known id)
    (hpasses : forest.length < passes) : forest.maps.ascend passes id = some (label id) := by
  obtain ⟨rank, hrank⟩ := h.falls
  exact h.ascend_maps_steps hrank hid (Nat.lt_of_le_of_lt (List.length_filter_le _ _) hpasses)

/-- Shortening the way up of a known variable takes no more passes than there are variables. -/
theorem shorten_maps_steps (h : forest.Labelled label) {rank : Nat → Nat}
    (hrank : ∀ id, forest.parentOf id ≠ id → rank (forest.parentOf id) < rank id)
    {steps passes id : Nat} (hid : forest.Known id)
    (hsteps : countBelow forest rank (rank id) ≤ steps) (hpasses : steps < passes) :
    Maps.shorten (label id) passes id forest.maps =
      some (Forest.compress (label id) steps id forest).maps := by
  induction steps generalizing id forest passes with
  | zero =>
    obtain ⟨passes, rfl⟩ := Nat.exists_eq_add_of_lt hpasses
    have hself : label id = id := (h.climb_eq hrank 0 id hsteps).symm
    exact if_pos hself.symm
  | succ steps ih =>
    obtain ⟨passes, rfl⟩ := Nat.exists_eq_add_one_of_ne_zero (Nat.ne_zero_of_lt hpasses)
    unfold Forest.compress Maps.shorten
    split
    case isTrue => rfl
    case isFalse hne =>
      obtain ⟨node, hnode⟩ := Option.isSome_iff_exists.1 hid
      have hparent := parentOf_of_get? hnode
      obtain ⟨hlabel, hup, hlt⟩ := h.step_up hrank hnode hne
      have hknown : (forest.put id ⟨label id, node.info⟩).Known node.parent :=
        known_put.2 (.inr hup)
      have hrest := ih (h.put_label hnode) (h.falls_put_label hrank id node.info) hknown
        (by rw [countBelow_put _ hid]; omega) (Nat.lt_of_succ_lt_succ hpasses)
      rw [hlabel, maps_put_parent hnode] at hrest
      rw [parent_maps hid, hparent, Option.bind_some, hrest, hnode]

/-- Finding a root on the maps of a forest. -/
theorem find_maps (h : forest.Labelled label) (v : TypeVar) {passes : Nat}
    (hpasses : (forest.enter v).length < passes) :
    forest.maps.find passes v = some ((forest.find v).1, (forest.find v).2.maps) := by
  have hentered := h.enter v
  have hv : (forest.enter v).Known v.id := (known_enter forest v).2 (.inr rfl)
  have hclimb := Maps.climb_of_ascend (hentered.ascend_maps hv hpasses)
  obtain ⟨rank, hrank⟩ := hentered.falls
  have hshorten := hentered.shorten_maps_steps hrank hv (List.length_filter_le _ _) hpasses
  unfold Maps.find
  rw [← maps_enter, hclimb, Option.bind_some, hshorten, h.find_eq]
  rfl

/-- Solving an equation on the maps of a forest. -/
theorem merge_maps (h : forest.Labelled label) (profile : Profile) (c : Constraint)
    (pair : TypeVar × TypeVar) {passes : Nat} (hfirst : (forest.enter pair.1).length < passes)
    (hsecond : ((forest.find pair.1).2.enter pair.2).length < passes) :
    forest.maps.merge passes profile c pair =
      some ((forest.merge profile c pair).map Forest.maps) := by
  have hleft := h.find_maps pair.1 hfirst
  have hright := (h.find pair.1).find_maps pair.2 hsecond
  have hlabelled := (h.find pair.1).find pair.2
  have hupper := congrArg Prod.fst (h.find_eq pair.1)
  have hlower := congrArg Prod.fst ((h.find pair.1).find_eq pair.2)
  have hknown := hlabelled.known_label (((h.find pair.1).known_find pair.2).2
    (.inl ((h.known_find pair.1).2 (.inr rfl))))
  have hknown' := hlabelled.known_label (((h.find pair.1).known_find pair.2).2 (.inr rfl))
  have hroot := hlabelled.parentOf_label pair.1.id
  rw [← show (forest.find pair.1).1 = label pair.1.id from hupper] at hknown hroot
  rw [← show ((forest.find pair.1).2.find pair.2).1 = label pair.2.id from hlower] at hknown'
  unfold Maps.merge Forest.merge
  rw [hleft, Option.bind_eq_bind, Option.bind_some]
  dsimp only
  rw [hright, Option.bind_eq_bind, Option.bind_some]
  generalize (forest.find pair.1).2.find pair.2 = found at *
  obtain ⟨lower, solved⟩ := found
  dsimp only at hknown hroot hknown' ⊢
  split
  case isTrue => rfl
  case isFalse =>
    rw [info_maps hknown, info_maps hknown']
    dsimp only [Option.bind_eq_bind, Option.bind_some]
    cases TypeInfo.merge? profile c.strength c.coercion
        (solved.infoAt (forest.find pair.1).1) (solved.infoAt lower) with
    | some info =>
      have hself := (parent_maps hknown).trans (congrArg some hroot)
      exact congrArg (fun maps => some (Except.ok maps : Except Clash Maps))
        (maps_link info hknown' hself).symm
    | none => cases c.strength <;> rfl

/-- Solving equations on the maps of a forest. -/
theorem solve_maps (h : forest.Labelled label) (profile : Profile) (steps : List Equation) :
    ∃ bound, ∀ passes, bound < passes → forest.maps.solve passes profile steps =
      some ((steps.foldlM (fun (forest : Forest) step => forest.merge profile step.1 step.2)
        forest).map Forest.maps) := by
  induction steps generalizing forest label with
  | nil => exact ⟨0, fun _ _ => rfl⟩
  | cons step rest ih =>
    have hstep (passes : Nat) (hfirst : (forest.enter step.2.1).length < passes)
        (hsecond : ((forest.find step.2.1).2.enter step.2.2).length < passes) :=
      h.merge_maps profile step.1 step.2 hfirst hsecond
    cases hmerge : forest.merge profile step.1 step.2 with
    | error clash =>
      refine ⟨max (forest.enter step.2.1).length ((forest.find step.2.1).2.enter step.2.2).length,
        fun passes hpasses => ?_⟩
      obtain ⟨hfirst, hsecond⟩ := Nat.max_lt.1 hpasses
      unfold Maps.solve
      rw [hstep passes hfirst hsecond, hmerge, List.foldlM_cons, hmerge]
      rfl
    | ok solved =>
      obtain ⟨later, hlater⟩ := h.merge hmerge
      obtain ⟨bound, hrest⟩ := ih hlater
      refine ⟨max (max (forest.enter step.2.1).length
        ((forest.find step.2.1).2.enter step.2.2).length) bound, fun passes hpasses => ?_⟩
      obtain ⟨hpasses, hbound⟩ := Nat.max_lt.1 hpasses
      obtain ⟨hfirst, hsecond⟩ := Nat.max_lt.1 hpasses
      unfold Maps.solve
      rw [hstep passes hfirst hsecond, hmerge, List.foldlM_cons, hmerge]
      exact hrest passes hbound

/-- Reading the classes off on the maps of a forest, in whatever order. -/
theorem freeze_maps (h : forest.Labelled label) {passes : Nat} (hpasses : forest.length < passes)
    (ids : List Nat) (hids : ∀ id ∈ ids, forest.Known id) :
    forest.maps.freeze passes ids = some (ids.map fun id => (id, forest.infoAt (label id))) := by
  induction ids generalizing forest with
  | nil => rfl
  | cons id ids ih =>
    obtain ⟨hid, hrest⟩ := List.forall_mem_cons.1 hids
    obtain ⟨node, hnode⟩ := Option.isSome_iff_exists.1 hid
    have hinfo := map_info_put hnode (label id)
    have hfrozen := ih (h.put_label hnode) (by rwa [length_put _ hid]) fun other hother =>
      (known_of_info hinfo other).2 (hrest other hother)
    rw [maps_put_parent hnode] at hfrozen
    unfold Maps.freeze
    rw [h.ascend_maps hid hpasses, Option.bind_some, info_maps (h.known_label hid),
      Option.bind_some, hfrozen]
    simp only [infoAt_eq, hinfo, List.map_cons, Option.map_some]

end Labelled

/-! ## Solving -/

/-- Solving any constraints goes through forests only, on which every loop of the solver ends and
finds all that it looks up; the forest that it leaves is one of them. With parents and types in a map
each, no look-up misses and the loops come to their ends in a number of passes, both while the
constraints are solved and when the classes are read off. -/
theorem sound_of_solving (profile : Profile) (constraints : List Constraint) :
    (∀ solved, constrainAll profile [] constraints = .ok solved →
        Passes profile (equationsOf constraints) [] solved) ∧
      (∀ forest, Passes profile (equationsOf constraints) [] forest → forest.Sound) ∧
      ∃ bound, ∀ passes, bound < passes →
        Maps.empty.solve passes profile (equationsOf constraints) =
            some ((constrainAll profile [] constraints).map maps) ∧
          ∀ solved, constrainAll profile [] constraints = .ok solved →
            ∀ ids, (∀ id ∈ ids, solved.Known id) →
              solved.maps.freeze passes ids =
                some (ids.map fun id => (id, solved.infoAt (solved.root id))) := by
  obtain ⟨bound, hsolve⟩ := Labelled.nil.solve_maps profile (equationsOf constraints)
  rw [← constrainAll_eq] at hsolve
  refine ⟨fun solved hsolved => ?_, fun forest hpasses => hpasses.sound, ?_⟩
  · rw [constrainAll_eq] at hsolved
    exact passes_of_foldlM hsolved
  · cases hconstrain : constrainAll profile [] constraints with
    | error clash =>
      refine ⟨bound, fun passes hpasses => ⟨hconstrain ▸ hsolve passes hpasses, ?_⟩⟩
      exact fun solved hsolved => nomatch hsolved
    | ok forest =>
      refine ⟨max bound forest.length, fun passes hpasses => ?_⟩
      obtain ⟨hbound, hlength⟩ := Nat.max_lt.1 hpasses
      refine ⟨hconstrain ▸ hsolve passes hbound, fun solved hsolved ids hids => ?_⟩
      obtain rfl := Except.ok.inj hsolved
      obtain ⟨label, hlabelled⟩ := (passes_of_foldlM
        ((constrainAll_eq _ _ _).symm.trans hconstrain)).labelled ⟨id, Labelled.nil⟩
      rw [hlabelled.freeze_maps hlength ids hids]
      simp only [hlabelled.root_eq]

/-- Four variables in a chain: the last constraint finds the second one two steps below its root. -/
def chained : List Constraint :=
  [(1, 2), (3, 1), (2, 4)].map fun pair =>
    .strict "" (.var ⟨pair.1, "", .unknown, false, false⟩)
      (.var ⟨pair.2, "", .unknown, false, false⟩)

/-- All hang directly below the root in the end. -/
def flattened : Forest :=
  [1, 2, 3, 4].map fun id => (id, ⟨3, .unknown⟩)

theorem sound_of_solving_chained :
    constrainAll .mysql [] chained = .ok flattened ∧
      Passes .mysql (equationsOf chained) [] flattened ∧ flattened.Sound ∧
      ∃ passes, Maps.empty.solve passes .mysql (equationsOf chained) = some (.ok flattened.maps) ∧
        flattened.maps.freeze passes [4, 1] = some [(4, .unknown), (1, .unknown)] := by
  have hsolved : constrainAll .mysql [] chained = .ok flattened := rfl
  obtain ⟨hpasses, hsound, bound, hmaps⟩ := sound_of_solving .mysql chained
  obtain ⟨hsolve, hfreeze⟩ := hmaps (bound + 1) bound.lt_succ_self
  have hknown : ∀ id ∈ [4, 1], flattened.Known id := by
    unfold Known
    decide
  refine ⟨hsolved, hpasses flattened hsolved, hsound flattened (hpasses flattened hsolved),
    bound + 1, ?_, ?_⟩
  · rw [hsolve, hsolved]
    rfl
  · rw [hfreeze flattened hsolved [4, 1] hknown]
    rfl

end Forest

end QuerySignature
