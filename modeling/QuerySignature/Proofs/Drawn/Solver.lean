import QuerySignature.Proofs.Alike
import QuerySignature.Solver.Solution

namespace QuerySignature

/-! # Where solved types come from

The solver makes no types. What it comes to know of a class is what was known of one of its
variables, or a type that the profile puts in its place; and what nothing determines, the profile
decides. So whatever types the variables and the profile are drawn from, the solution is, too.

- `TypeInfo.DrawnFrom.merge?`: two classes that become one.
- `Forest.DrawnFrom.constrainAll`: a list of constraints.
- `Solution.DrawnFrom.typeOf`: the type that is reported for a variable.
-/

/-- What is known of a type is one of some types, if it is a type. -/
def TypeInfo.DrawnFrom (T : SqlType → Prop) (info : TypeInfo) : Prop := ∀ t, info = .exact t → T t

/-- The types that a profile may give to an expression. -/
def Profile.types (profile : Profile) : List SqlType :=
  [profile.textType, profile.floatType, profile.integerLiteralType, profile.floatLiteralType,
    profile.predicateType, profile.countType, profile.avgType, profile.sumIntegerType,
    profile.floorType, profile.dateType, profile.limitType]

/-- The variables of a constraint, as far as it relates them, have been made in some types. -/
def Constraint.DrawnFrom (T : SqlType → Prop) (c : Constraint) : Prop :=
  ∀ pair ∈ c.equations, pair.1.info.DrawnFrom T ∧ pair.2.info.DrawnFrom T

/-- The types that are known of classes. -/
def Forest.DrawnFrom (T : SqlType → Prop) (forest : Forest) : Prop :=
  ∀ entry ∈ forest, entry.2.info.DrawnFrom T

/-- The types that have been found out. -/
def Solution.DrawnFrom (T : SqlType → Prop) (solution : Solution) : Prop :=
  ∀ entry ∈ solution.infos, entry.2.DrawnFrom T

section

variable {T : SqlType → Prop} {profile : Profile}

/-! ## Merging -/

namespace TypeInfo.DrawnFrom

variable {info left right : TypeInfo}

theorem exact {t : SqlType} (h : T t) : (TypeInfo.exact t).DrawnFrom T := by
  intro u hu
  cases hu
  exact h

theorem number : TypeInfo.number.DrawnFrom T := nofun

theorem unknown : TypeInfo.unknown.DrawnFrom T := nofun

/-- A sum keeps its type, or has one of the profile's. -/
theorem sumType (hprofile : ∀ t ∈ profile.types, T t) {t : SqlType} (h : T t) :
    T (TypeInfo.sumType profile t) := by
  have hinteger : T profile.sumIntegerType := hprofile _ (by simp [Profile.types])
  have hfloat : T profile.floatType := hprofile _ (by simp [Profile.types])
  cases t <;> first | exact hinteger | exact hfloat | exact h

theorem coerce (hprofile : ∀ t ∈ profile.types, T t) (coercion : Option Coercion)
    (h : info.DrawnFrom T) : (TypeInfo.coerce profile coercion info).DrawnFrom T := by
  fun_cases TypeInfo.coerce profile coercion info with
  | case1 t hnumeric => exact h
  | case2 t hother => exact exact (hprofile _ (by simp [Profile.types]))
  | case3 t => exact exact (sumType hprofile (h t rfl))
  | case4 => exact h

/-- Whatever is made of two sides is one of them, perhaps after a coercion. -/
theorem merge? (hprofile : ∀ t ∈ profile.types, T t) {strength : Strength}
    {coercion : Option Coercion} (hleft : left.DrawnFrom T) (hright : right.DrawnFrom T)
    (h : TypeInfo.merge? profile strength coercion left right = some info) : info.DrawnFrom T := by
  have hequate : equate left right = some info → info.DrawnFrom T := by
    intro hinfo
    rcases equate_eq_or hinfo with rfl | rfl
    · exact hleft
    · exact hright
  cases strength with
  | strict => exact hequate h
  | bestEffort => exact hequate h
  | widest =>
    cases h
    rcases widest_eq_or profile (TypeInfo.coerce profile coercion left)
        (TypeInfo.coerce profile coercion right) with hwider | hwider
    · rw [hwider]
      exact hleft.coerce hprofile coercion
    · rw [hwider]
      exact hright.coerce hprofile coercion

end TypeInfo.DrawnFrom

/-! ## Forests -/

namespace Forest.DrawnFrom

variable {forest : Forest}

theorem put (h : forest.DrawnFrom T) (id : Nat) {node : Node} (hnode : node.info.DrawnFrom T) :
    (Forest.put id node forest).DrawnFrom T := by
  induction forest with
  | nil =>
    intro entry hentry
    rw [List.mem_singleton.1 hentry]
    exact hnode
  | cons first rest ih =>
    obtain ⟨other, old⟩ := first
    have hrest : Forest.DrawnFrom T rest := fun entry hentry => h entry (.tail _ hentry)
    unfold Forest.put
    split
    · intro entry hentry
      rcases List.mem_cons.1 hentry with rfl | hentry
      · exact hnode
      · exact hrest entry hentry
    · intro entry hentry
      rcases List.mem_cons.1 hentry with rfl | hentry
      · exact h _ (.head _)
      · exact ih hrest entry hentry

theorem get? (h : forest.DrawnFrom T) {id : Nat} {node : Node}
    (hnode : forest.get? id = some node) : node.info.DrawnFrom T := by
  induction forest with
  | nil => cases hnode
  | cons first rest ih =>
    obtain ⟨other, old⟩ := first
    unfold Forest.get? at hnode
    split at hnode
    · cases hnode
      exact h _ (.head _)
    · exact ih (fun entry hentry => h entry (.tail _ hentry)) hnode

theorem infoAt (h : forest.DrawnFrom T) (id : Nat) : (forest.infoAt id).DrawnFrom T := by
  unfold Forest.infoAt
  split
  · next node hnode => exact h.get? hnode
  · exact .unknown

theorem compress (h : forest.DrawnFrom T) (top steps id : Nat) :
    (Forest.compress top steps id forest).DrawnFrom T := by
  induction steps generalizing id forest with
  | zero => exact h
  | succ steps ih =>
    unfold Forest.compress
    split
    · exact h
    · split
      · next node hnode =>
        have hinfo : node.info.DrawnFrom T := h.get? hnode
        have hput : (Forest.put id ⟨top, node.info⟩ forest).DrawnFrom T := h.put id hinfo
        exact ih hput node.parent
      · exact h

/-- A variable that is met for the first time brings the type that it was made with. -/
theorem find (h : forest.DrawnFrom T) {v : TypeVar} (hv : v.info.DrawnFrom T) :
    (forest.find v).2.DrawnFrom T := by
  have hentered : (forest.enter v).DrawnFrom T := by
    unfold Forest.enter
    split
    · exact h
    · exact h.put v.id hv
  exact hentered.compress _ _ _

theorem link (h : forest.DrawnFrom T) (upper lower : Nat) {info : TypeInfo}
    (hinfo : info.DrawnFrom T) : (forest.link upper lower info).DrawnFrom T :=
  (h.put lower (h.infoAt lower)).put upper hinfo

/-- An equation between two variables. -/
theorem merge (hprofile : ∀ t ∈ profile.types, T t) (h : forest.DrawnFrom T) {c : Constraint}
    {pair : TypeVar × TypeVar} (hleft : pair.1.info.DrawnFrom T) (hright : pair.2.info.DrawnFrom T)
    {after : Forest} (hmerge : forest.merge profile c pair = .ok after) : after.DrawnFrom T := by
  have hfound : ((forest.find pair.1).2.find pair.2).2.DrawnFrom T := (h.find hleft).find hright
  unfold Forest.merge at hmerge
  dsimp only at hmerge
  split at hmerge
  · cases hmerge
    exact hfound
  · split at hmerge
    · next info hinfo =>
      cases hmerge
      exact hfound.link _ _ (.merge? hprofile (hfound.infoAt _) (hfound.infoAt _) hinfo)
    · split at hmerge
      · cases hmerge
      · cases hmerge
        exact hfound

theorem constrain (hprofile : ∀ t ∈ profile.types, T t) (h : forest.DrawnFrom T) {c : Constraint}
    (hc : c.DrawnFrom T) {after : Forest} (hafter : forest.constrain profile c = .ok after) :
    after.DrawnFrom T := by
  unfold Forest.constrain at hafter
  unfold Constraint.DrawnFrom at hc
  generalize c.equations = pairs at hc hafter
  induction pairs generalizing forest with
  | nil =>
    cases hafter
    exact h
  | cons pair rest ih =>
    rw [List.foldlM_cons] at hafter
    obtain ⟨between, hmerge, hafter⟩ := bind_eq_ok.1 hafter
    obtain ⟨hleft, hright⟩ := hc pair (.head _)
    exact ih (h.merge hprofile hleft hright hmerge) (fun p hp => hc p (.tail _ hp)) hafter

theorem constrainAll (hprofile : ∀ t ∈ profile.types, T t) (h : forest.DrawnFrom T)
    {constraints : List Constraint} (hconstraints : ∀ c ∈ constraints, c.DrawnFrom T)
    {after : Forest} (hafter : forest.constrainAll profile constraints = .ok after) :
    after.DrawnFrom T := by
  unfold Forest.constrainAll at hafter
  induction constraints generalizing forest with
  | nil =>
    cases hafter
    exact h
  | cons c rest ih =>
    rw [List.foldlM_cons] at hafter
    obtain ⟨between, hfirst, hafter⟩ := bind_eq_ok.1 hafter
    have hbetween := h.constrain hprofile (hconstraints c (.head _)) hfirst
    exact ih hbetween (fun d hd => hconstraints d (.tail _ hd)) hafter

end Forest.DrawnFrom

/-! ## Solutions -/

/-- Solving draws on the types of the variables, and on those of the profile. -/
theorem Solution.drawnFrom_of_solve (hprofile : ∀ t ∈ profile.types, T t)
    {constraints : List Constraint} (hconstraints : ∀ c ∈ constraints, c.DrawnFrom T)
    {solution : Solution} (h : solve profile constraints = .ok solution) :
    solution.DrawnFrom T := by
  unfold solve at h
  cases hforest : Forest.constrainAll profile [] constraints with
  | error clash => simp [hforest, Except.map] at h
  | ok forest =>
    simp only [hforest, Except.map, Except.ok.injEq] at h
    subst h
    have hdrawn : Forest.DrawnFrom T forest :=
      Forest.DrawnFrom.constrainAll hprofile (fun _ hentry => absurd hentry List.not_mem_nil)
        hconstraints hforest
    intro entry hentry
    obtain ⟨⟨id, node⟩, -, rfl⟩ := List.mem_map.1 hentry
    exact hdrawn.infoAt _

/-- What is reported for a variable is what has been found out of it, or stands in the profile. -/
theorem Solution.DrawnFrom.typeOf (hprofile : ∀ t ∈ profile.types, T t) {solution : Solution}
    (h : solution.DrawnFrom T) {v : TypeVar} (hv : v.info.DrawnFrom T) :
    T (solution.typeOf profile v) := by
  have hinfo : (solution.infoOf v).DrawnFrom T := by
    unfold Solution.infoOf
    split
    · next entry hentry => exact h entry (List.mem_of_find?_eq_some hentry)
    · exact hv
  unfold Solution.typeOf
  split
  · next t ht => exact hinfo t ht
  · exact hprofile _ (by simp [Profile.types])
  · exact hprofile _ (by simp [Profile.types])

end

end QuerySignature
