import QuerySignature.Proofs.Solver.Partition
import QuerySignature.Proofs.Solver.Sparing

namespace QuerySignature

/-! # Constraints that do not interfere

Two lists of constraints without a common variable do not interfere. In any interleaving that keeps the
order of both, each is solved as if the other were not there.

- `Divided.merge_left`, `Divided.merge_right`: an equation of one list does what it does without the
  other.
- `Divided.run`: so do interleaved equations.
- `solve_interleaved`: an interleaving is solved when both lists are, and gives every variable the type
  that its own list gives it.
- `solve_split`: a constraint between two rows may be taken apart into the constraints at each place, and
  each of these be solved for itself.
- `infoOf_of_not_mentioned`: of a variable that no constraint mentions nothing is found out.
-/

/-! ## Interleaving two lists -/

/-- A list that holds two others, each in its own order. -/
inductive Interleaved {α : Type} : List α → List α → List α → Prop
  | nil : Interleaved [] [] []
  | left {x : α} {xs ys zs : List α} : Interleaved xs ys zs → Interleaved (x :: xs) ys (x :: zs)
  | right {y : α} {xs ys zs : List α} : Interleaved xs ys zs → Interleaved xs (y :: ys) (y :: zs)

namespace Interleaved

variable {α β : Type} {xs ys zs : List α}

theorem symm (h : Interleaved xs ys zs) : Interleaved ys xs zs := by
  induction h with
  | nil => exact .nil
  | left _ ih => exact .right ih
  | right _ ih => exact .left ih

theorem append_left (h : Interleaved xs ys zs) (as : List α) :
    Interleaved (as ++ xs) ys (as ++ zs) := by
  induction as with
  | nil => exact h
  | cons a as ih => exact .left ih

/-- One list behind the other is an interleaving. -/
theorem append (xs ys : List α) : Interleaved xs ys (xs ++ ys) := by
  have hright : ∀ zs : List α, Interleaved [] zs zs := by
    intro zs
    induction zs with
    | nil => exact .nil
    | cons z zs ih => exact .right ih
  simpa using (hright ys).append_left xs

/-- Lists made of the members of interleaved lists are interleaved. -/
theorem flatMap (h : Interleaved xs ys zs) (f : α → List β) :
    Interleaved (xs.flatMap f) (ys.flatMap f) (zs.flatMap f) := by
  induction h with
  | nil => exact .nil
  | left _ ih => exact ih.append_left _
  | right _ ih => exact (ih.symm.append_left _).symm

theorem mem_iff (h : Interleaved xs ys zs) {z : α} : z ∈ zs ↔ z ∈ xs ∨ z ∈ ys := by
  induction h with
  | nil => simp
  | left _ ih => rw [List.mem_cons, ih, List.mem_cons, or_assoc]
  | right _ ih => rw [List.mem_cons, ih, List.mem_cons, or_left_comm]

/-- What no member of the second list is, an interleaving has first where the first list has it. -/
theorem find?_eq (h : Interleaved xs ys zs) {p : α → Bool} (hys : ∀ y ∈ ys, p y = false) :
    zs.find? p = xs.find? p := by
  induction h with
  | nil => rfl
  | @left x _ _ _ _ ih =>
    cases hx : p x with
    | true => rw [List.find?_cons_of_pos hx, List.find?_cons_of_pos hx]
    | false => simp [hx, ih hys]
  | @right y _ _ _ _ ih =>
    have hy := hys y List.mem_cons_self
    simp [hy, ih fun other hother => hys other (List.mem_cons_of_mem _ hother)]

end Interleaved

theorem Interleaved.equationsOf {first second mixed : List Constraint}
    (h : Interleaved first second mixed) :
    Interleaved (equationsOf first) (equationsOf second) (equationsOf mixed) :=
  h.flatMap _

theorem Interleaved.occurrences {first second mixed : List Equation}
    (h : Interleaved first second mixed) :
    Interleaved (occurrences first) (occurrences second) (occurrences mixed) :=
  h.flatMap _

/-- Where two lists have no variable in common, types that first occurrences in an interleaving carry,
they carry in the first list. -/
theorem FirstsCarry.of_interleaved {initial : Nat → TypeInfo} {first second mixed : List TypeVar}
    (h : FirstsCarry initial mixed) (hmixed : Interleaved first second mixed)
    (hdisjoint : ∀ v ∈ first, ∀ w ∈ second, v.id ≠ w.id) : FirstsCarry initial first := by
  intro id v hv
  refine h id v ?_
  have hid : v.id = id := by simpa using List.find?_some hv
  have hmem := List.mem_of_find?_eq_some hv
  have hsecond : ∀ w ∈ second, (w.id == id) = false := by
    intro w hw
    rw [beq_eq_false_iff_ne, ← hid]
    exact (hdisjoint v hmem w hw).symm
  exact (hmixed.find?_eq hsecond).trans hv

/-! ## One computation for two -/

/-- A computation succeeds when two others do, with a value that is related to theirs. -/
def Together {ε α β γ : Type} (R : α → β → γ → Prop) (x : Except ε α) (y : Except ε β)
    (z : Except ε γ) : Prop :=
  (x.isOk = true ↔ y.isOk = true ∧ z.isOk = true) ∧
    ∀ a b c, x = .ok a → y = .ok b → z = .ok c → R a b c

namespace Together

variable {ε α β γ α' β' : Type} {R : α → β → γ → Prop} {x : Except ε α} {y : Except ε β}
  {z : Except ε γ}

theorem symm (h : Together R x y z) : Together (fun a c b => R a b c) x z y :=
  ⟨h.1.trans and_comm, fun a c b ha hc hb => h.2 a b c ha hb hc⟩

/-- Two computations that each succeed when the same two others do. -/
theorem likewise {δ : Type} {S : δ → β → γ → Prop} {T : α → δ → Prop} {w : Except ε δ}
    (h : Together R x y z) (h' : Together S w y z)
    (hT : ∀ a d b c, R a b c → S d b c → T a d) : Likewise T x w := by
  have hok := h.1.trans h'.1.symm
  cases hx : x with
  | error e =>
    cases hw : w with
    | error e' => exact .error e e'
    | ok d =>
      rw [hx, hw] at hok
      exact absurd (hok.2 rfl) Bool.false_ne_true
  | ok a =>
    rcases exists_of_isOk (hok.1 (by rw [hx]; rfl)) with ⟨d, hd⟩
    have hboth := h.1.1 (by rw [hx]; rfl)
    rcases exists_of_isOk hboth.1 with ⟨b, hb⟩
    rcases exists_of_isOk hboth.2 with ⟨c, hc⟩
    rw [hd]
    exact .ok (hT a d b c (h.2 a b c hx hb hc) (h'.2 d b c hd hb hc))

/-- A step of the one computation that is alike to a step of the first of the two. -/
theorem of_alike {S : α' → β' → Prop} {x : Except ε α'} {y : Except ε β'} (h : Alike S x y)
    {f : α' → Except ε α} {g : β' → Except ε β} (hnext : ∀ a b, S a b → Together R (f a) (g b) z) :
    Together R (x.bind f) (y.bind g) z := by
  cases x with
  | error e =>
    rw [h.of_error rfl]
    exact ⟨⟨fun hok => (nomatch hok), fun hok => (nomatch hok.1)⟩, fun _ _ _ ha => (nomatch ha)⟩
  | ok a =>
    rcases h.of_ok rfl with ⟨b, rfl, hab⟩
    exact hnext a b hab

end Together

/-! ## Two parts of a state -/

/-- A state that agrees with another one on some variables and with a third one on others, and keeps the
classes of both apart. -/
structure Divided (A B : Nat → Prop) (s s₁ s₂ : Classes) : Prop where
  left : Agree id A s s₁
  right : Agree id B s s₂
  apart : ∀ x y, A x → B y → s.label x ≠ s.label y

namespace Divided

variable {A B : Nat → Prop} {s s₁ s₂ : Classes} {profile : Profile} {step : Equation}

theorem symm (h : Divided A B s s₁ s₂) : Divided B A s s₂ s₁ :=
  ⟨h.right, h.left, fun x y hx hy heq => h.apart y x hy hx heq.symm⟩

theorem start (initial : Nat → TypeInfo) (hAB : ∀ x, A x → ¬ B x) :
    Divided A B (.start initial) (.start initial) (.start initial) := by
  refine ⟨.refl A _, .refl B _, fun x y hx hy heq => ?_⟩
  have hxy : x = y := heq
  exact hAB x hx (hxy ▸ hy)

/-- An equation among the first variables does what it does to the first part alone. -/
theorem merge_left (h : Divided A B s s₁ s₂) (hstep : step.Within A) :
    Alike (fun t t₁ => Divided A B t t₁ s₂) (s.merge profile step) (s₁.merge profile step) := by
  have halike := h.left.merge profile ⟨rfl, rfl, rfl, rfl, rfl⟩ hstep
  cases ht : s.merge profile step with
  | error e =>
    rw [halike.of_error ht]
    exact rfl
  | ok t =>
    rcases halike.of_ok ht with ⟨t₁, ht₁, hleft⟩
    rw [ht₁]
    have haway : s.Apart B step := fun x hx =>
      ⟨fun heq => h.apart _ x hstep.1 hx heq.symm, fun heq => h.apart _ x hstep.2 hx heq.symm⟩
    have hkept : Agree id B s t := haway.harmless.agree ht
    refine ⟨hleft, ⟨fun x y hx hy => ?_, fun x hx => ?_⟩, fun x y hx hy => ?_⟩
    · exact (hkept.same x y hx hy).symm.trans (h.right.same x y hx hy)
    · exact (hkept.info x hx).symm.trans (h.right.info x hx)
    · rcases Classes.merge_cases profile s step ht with ⟨rfl, -⟩ | ⟨info, -, -, rfl⟩
      · exact h.apart x y hx hy
      · rw [Ne, Classes.join_same, not_or]
        refine ⟨h.apart x y hx hy, ?_⟩
        rintro ⟨-, hy' | hy'⟩
        · exact (haway y hy).1 hy'
        · exact (haway y hy).2 hy'

/-- An equation among the second variables does what it does to the second part alone. -/
theorem merge_right (h : Divided A B s s₁ s₂) (hstep : step.Within B) :
    Alike (fun t t₂ => Divided A B t s₁ t₂) (s.merge profile step) (s₂.merge profile step) :=
  (h.symm.merge_left hstep).mono fun _ _ h => h.symm

/-- Interleaved equations do to each part what its own equations do to it alone. -/
theorem run (h : Divided A B s s₁ s₂) (profile : Profile) {first second mixed : List Equation}
    (hmixed : Interleaved first second mixed) (hfirst : ∀ step ∈ first, step.Within A)
    (hsecond : ∀ step ∈ second, step.Within B) :
    Together (Divided A B) (s.run profile mixed) (s₁.run profile first)
      (s₂.run profile second) := by
  induction hmixed generalizing s s₁ s₂ with
  | nil =>
    refine ⟨⟨fun _ => ⟨rfl, rfl⟩, fun _ => rfl⟩, fun t t₁ t₂ ht ht₁ ht₂ => ?_⟩
    cases ht
    cases ht₁
    cases ht₂
    exact h
  | @left step first _ _ _ ih =>
    have hrest : ∀ other ∈ first, other.Within A :=
      fun other hother => hfirst other (List.mem_cons_of_mem _ hother)
    rw [Classes.run_cons, Classes.run_cons]
    refine Together.of_alike (h.merge_left (hfirst step List.mem_cons_self)) fun t t₁ ht => ?_
    exact ih ht hrest hsecond
  | @right step _ second _ _ ih =>
    have hrest : ∀ other ∈ second, other.Within B :=
      fun other hother => hsecond other (List.mem_cons_of_mem _ hother)
    rw [Classes.run_cons, Classes.run_cons]
    refine (Together.of_alike (h.merge_right (hsecond step List.mem_cons_self))
      fun t t₂ ht => ?_).symm
    exact (ih ht hfirst hrest).symm

end Divided

/-! ## Solving -/

/-- The variables that a list of constraints mentions. -/
def Mentions (constraints : List Constraint) (id : Nat) : Prop :=
  ∃ v ∈ variablesOf constraints, v.id = id

instance (constraints : List Constraint) (id : Nat) : Decidable (Mentions constraints id) :=
  inferInstanceAs (Decidable (∃ v ∈ variablesOf constraints, v.id = id))

/-- Two lists of constraints that mention no variable in common. -/
def Unrelated (first second : List Constraint) : Prop :=
  ∀ v ∈ variablesOf first, ∀ w ∈ variablesOf second, v.id ≠ w.id

instance (first second : List Constraint) : Decidable (Unrelated first second) :=
  inferInstanceAs (Decidable (∀ v ∈ variablesOf first, ∀ w ∈ variablesOf second, v.id ≠ w.id))

theorem Unrelated.symm {first second : List Constraint} (h : Unrelated first second) :
    Unrelated second first :=
  fun v hv w hw heq => h w hw v hv heq.symm

section

variable {profile : Profile} {first second mixed : List Constraint}

theorem mem_variablesOf_of_mem_occurrences {constraints : List Constraint} {v : TypeVar}
    (h : v ∈ occurrences (equationsOf constraints)) : v ∈ variablesOf constraints := by
  rcases mem_occurrences h with ⟨step, hstep, rfl | rfl⟩
  · exact (mem_variablesOf_of_mem_equationsOf hstep).2.1
  · exact (mem_variablesOf_of_mem_equationsOf hstep).2.2

/-- Solving an interleaving on classes is solving both lists on classes: they succeed together, and
the state has the parts of both. -/
theorem together_of_interleaved (profile : Profile) (initial : Nat → TypeInfo)
    (hmixed : Interleaved first second mixed) (hapart : Unrelated first second) :
    Together (Divided (fun id => ¬ Mentions second id) (Mentions second))
      ((Classes.start initial).run profile (equationsOf mixed))
      ((Classes.start initial).run profile (equationsOf first))
      ((Classes.start initial).run profile (equationsOf second)) := by
  refine (Divided.start initial fun _ => id).run profile hmixed.equationsOf ?_ ?_
  · intro step hstep
    rcases mem_variablesOf_of_mem_equationsOf hstep with ⟨-, hleft, hright⟩
    have haway : ∀ v ∈ variablesOf first, ¬ Mentions second v.id := by
      rintro v hv ⟨w, hw, heq⟩
      exact hapart v hv w hw heq.symm
    exact ⟨haway _ hleft, haway _ hright⟩
  · intro step hstep
    rcases mem_variablesOf_of_mem_equationsOf hstep with ⟨-, hleft, hright⟩
    exact ⟨⟨_, hleft, rfl⟩, ⟨_, hright, rfl⟩⟩

/-- First occurrences in an interleaving are first occurrences in its lists. -/
theorem firstsCarry_of_interleaved {initial : Nat → TypeInfo}
    (hmixed : Interleaved first second mixed) (hapart : Unrelated first second)
    (h : FirstsCarry initial (occurrences (equationsOf mixed))) :
    FirstsCarry initial (occurrences (equationsOf first)) :=
  h.of_interleaved hmixed.equationsOf.occurrences fun v hv w hw =>
    hapart v (mem_variablesOf_of_mem_occurrences hv) w (mem_variablesOf_of_mem_occurrences hw)

/-- An interleaving can be solved when both lists can. -/
theorem solve_interleaved_isOk_iff (profile : Profile) (hmixed : Interleaved first second mixed)
    (hapart : Unrelated first second) :
    (solve profile mixed).isOk = true ↔
      (solve profile first).isOk = true ∧ (solve profile second).isOk = true := by
  have hfirsts := firstsCarry_firstType (occurrences (equationsOf mixed)) .unknown
  rw [(solve_alike_firsts profile hfirsts).isOk_eq,
    (solve_alike_firsts profile (firstsCarry_of_interleaved hmixed hapart hfirsts)).isOk_eq,
    (solve_alike_firsts profile
      (firstsCarry_of_interleaved hmixed.symm hapart.symm hfirsts)).isOk_eq]
  exact (together_of_interleaved profile _ hmixed hapart).1

/-- A variable that the second list does not mention has the type that the first list alone gives
it. -/
theorem infoOf_interleaved (hmixed : Interleaved first second mixed)
    (hapart : Unrelated first second) {solution solution₁ : Solution}
    (hsolved : solve profile mixed = .ok solution) (hsolved₁ : solve profile first = .ok solution₁)
    {v : TypeVar} (hv : ¬ Mentions second v.id) : solution.infoOf v = solution₁.infoOf v := by
  -- all three start with the types with which the interleaving meets its variables
  have hfirsts := firstsCarry_firstType (occurrences (equationsOf mixed)) v.info
  have hfirsts₁ := firstsCarry_of_interleaved hmixed hapart hfirsts
  have hfirsts₂ := firstsCarry_of_interleaved hmixed.symm hapart.symm hfirsts
  have hok := (solve_interleaved_isOk_iff profile hmixed hapart).1 (by rw [hsolved]; rfl)
  rcases exists_of_isOk hok.2 with ⟨solution₂, hsolved₂⟩
  rcases (solve_alike_firsts profile hfirsts).of_ok hsolved with ⟨t, ht, hinfo⟩
  rcases (solve_alike_firsts profile hfirsts₁).of_ok hsolved₁ with ⟨t₁, ht₁, hinfo₁⟩
  rcases (solve_alike_firsts profile hfirsts₂).of_ok hsolved₂ with ⟨t₂, ht₂, -⟩
  have hdivided := (together_of_interleaved profile _ hmixed hapart).2 t t₁ t₂ ht ht₁ ht₂
  -- a variable that the first list does not look up either, nobody does
  have hunmet : (¬ ∃ w ∈ occurrences (equationsOf first), w.id = v.id) →
      v.Carries (firstType (occurrences (equationsOf mixed)) v.info) := by
    intro hnot
    refine carries_firstType ?_
    rintro ⟨w, hw, heq⟩
    rcases hmixed.equationsOf.occurrences.mem_iff.1 hw with hw | hw
    · exact hnot ⟨w, hw, heq⟩
    · exact hv ⟨w, mem_variablesOf_of_mem_occurrences hw, heq⟩
  calc
    solution.infoOf v = t.infoOf v.id := hinfo v carries_firstType
    _ = t₁.infoOf v.id := hdivided.left.info v.id hv
    _ = solution₁.infoOf v := (hinfo₁ v hunmet).symm

/-- Two lists of constraints without a common variable, interleaved in any way that keeps the order of
both, can be solved exactly when each list can be solved alone; and then every variable has the type
that its own list alone gives it. A variable of neither list has the type that both give it. -/
theorem solve_interleaved (profile : Profile) {first second mixed : List Constraint}
    (hmixed : Interleaved first second mixed) (hapart : Unrelated first second) :
    ((solve profile mixed).isOk = true ↔
        (solve profile first).isOk = true ∧ (solve profile second).isOk = true) ∧
      ∀ solution solution₁ solution₂, solve profile mixed = .ok solution →
        solve profile first = .ok solution₁ → solve profile second = .ok solution₂ →
        ∀ v : TypeVar,
          (¬ Mentions second v.id → solution.infoOf v = solution₁.infoOf v) ∧
          (¬ Mentions first v.id → solution.infoOf v = solution₂.infoOf v) := by
  refine ⟨solve_interleaved_isOk_iff profile hmixed hapart, ?_⟩
  intro solution solution₁ solution₂ hsolved hsolved₁ hsolved₂ v
  exact ⟨infoOf_interleaved hmixed hapart hsolved hsolved₁,
    infoOf_interleaved hmixed.symm hapart.symm hsolved hsolved₂⟩

/-- The types of a column and a placeholder, and of a sum and its operand. -/
def apartTypes : Nat → TypeInfo
  | 1 => .exact .int
  | 3 => .number
  | 4 => .exact .decimal
  | _ => .unknown

/-- `a = ?`, then `? = a`, where `a` is taken for a text. -/
def columnRows : List Constraint :=
  let a := TypeVar.made apartTypes 1
  let p := TypeVar.made apartTypes 2
  [.strict "a = ?" (.var a) (.var p),
    .strict "? = a" (.var p) (.var { a with info := .exact .varchar })]

/-- `x + y`. -/
def sumRows : List Constraint :=
  [.widest "x + y" (some .sum) (.made apartTypes 3) (.made apartTypes 4)]

/-- `a = ?`, `x + y` and `? = a`. -/
def mixedRows : List Constraint := columnRows.take 1 ++ sumRows ++ columnRows.drop 1

theorem solve_interleaved_mixedRows :
    Interleaved columnRows sumRows mixedRows ∧ Unrelated columnRows sumRows ∧
      ∃ solution, solve .mysql mixedRows = .ok solution ∧
        solution.infoOf (.made apartTypes 2) = .exact .int ∧
        solution.infoOf (.made apartTypes 3) = .exact .decimal := by
  have hmixed : Interleaved columnRows sumRows mixedRows := .left (.right (.left .nil))
  have hapart : Unrelated columnRows sumRows := by decide
  have hcolumn : solve .mysql columnRows = .ok ⟨[(1, .exact .int), (2, .exact .int)]⟩ := by decide
  have hsum : solve .mysql sumRows = .ok ⟨[(3, .exact .decimal), (4, .exact .decimal)]⟩ := by
    decide
  rcases solve_interleaved .mysql hmixed hapart with ⟨hok, hinfo⟩
  rcases exists_of_isOk (hok.2 ⟨by rw [hcolumn]; rfl, by rw [hsum]; rfl⟩) with ⟨solution, hsolved⟩
  have htypes := hinfo solution _ _ hsolved hcolumn hsum
  refine ⟨hmixed, hapart, solution, hsolved, ?_, ?_⟩
  · exact (htypes (.made apartTypes 2)).1 (by decide)
  · exact (htypes (.made apartTypes 3)).2 (by decide)

end

/-! ## Constraints place by place -/

/-- A constraint as constraints between two variables, one for each of its equations. -/
def Constraint.split (c : Constraint) : List Constraint :=
  c.equations.map fun pair => { c with left := .var pair.1, right := .var pair.2 }

namespace Constraint

/-- Two rows are constrained place by place. -/
theorem split_rows (label : String) (lefts rights : List TypeVar) :
    (strict label (.ofVars lefts) (.ofVars rights)).split =
      (lefts.zip rights).map fun pair => strict label (.var pair.1) (.var pair.2) :=
  congrArg (List.map _) (TypeTerm.equations_ofVars_ofVars lefts rights)

theorem mem_vars_of_split {c part : Constraint} (h : part ∈ c.split) {v : TypeVar}
    (hv : v ∈ part.vars) : v ∈ c.vars := by
  obtain ⟨pair, hpair, rfl⟩ := List.mem_map.1 h
  obtain ⟨hleft, hright⟩ := TypeTerm.mem_vars_of_mem_equations hpair
  rcases List.mem_pair.1 hv with rfl | rfl
  · exact List.mem_append_left _ hleft
  · exact List.mem_append_right _ hright

end Constraint

theorem mem_variablesOf_of_split {constraints : List Constraint} {v : TypeVar}
    (hv : v ∈ variablesOf (constraints.flatMap Constraint.split)) : v ∈ variablesOf constraints := by
  obtain ⟨part, hpart, hv⟩ := List.mem_flatMap.1 hv
  obtain ⟨c, hc, hpart⟩ := List.mem_flatMap.1 hpart
  exact List.mem_flatMap.2 ⟨c, hc, Constraint.mem_vars_of_split hpart hv⟩

namespace Forest

/-- The equations of a constraint are merged in their order, whether they are one constraint or
many. -/
theorem constrainAll_split (profile : Profile) (forest : Forest) (c : Constraint) :
    forest.constrainAll profile c.split = forest.constrain profile c := by
  unfold constrainAll constrain Constraint.split
  rw [List.foldlM_map]
  -- a constraint of one equation is merged in one step
  congr 1
  funext forest pair
  show Except.bind (forest.merge profile c pair) (fun merged => .ok merged) = _
  cases forest.merge profile c pair <;> rfl

theorem constrainAll_flatMap_split (profile : Profile) (forest : Forest)
    (constraints : List Constraint) :
    forest.constrainAll profile (constraints.flatMap Constraint.split) =
      forest.constrainAll profile constraints := by
  induction constraints generalizing forest with
  | nil => rfl
  | cons c rest ih =>
    rw [List.flatMap_cons, constrainAll_append, constrainAll_split]
    show Except.bind (forest.constrain profile c) _ = Except.bind (forest.constrain profile c) _
    congr 1
    funext between
    exact ih between

end Forest

/-- Constraints have the solution of their equations, one constraint for each. -/
theorem solve_split (profile : Profile) (constraints : List Constraint) :
    solve profile (constraints.flatMap Constraint.split) = solve profile constraints := by
  unfold solve
  rw [Forest.constrainAll_flatMap_split]

/-- Of a variable that no constraint mentions nothing is found out. -/
theorem infoOf_of_not_mentioned {profile : Profile} {constraints : List Constraint}
    {solution : Solution} (h : solve profile constraints = .ok solution) {v : TypeVar}
    (hv : ¬ Mentions constraints v.id) : solution.infoOf v = v.info := by
  have hmixed : Interleaved [] constraints constraints := .append [] constraints
  have hapart : Unrelated [] constraints := fun u hu => absurd hu List.not_mem_nil
  rw [infoOf_interleaved hmixed hapart h (rfl : solve profile [] = .ok ⟨[]⟩) hv]
  rfl

end QuerySignature
