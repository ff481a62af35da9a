import Mathlib.Data.List.Forall2

namespace QuerySignature

/-! # Results that are alike

Two computations that can fail are alike when both fail for the same reason or both succeed with
related values. Comparing two runs, or a run with what it stands for, ends in this relation.

- `bind_eq_ok`: what it takes for two computations in a row to give a value.
- `Alike.bind`: alike computations followed by alike computations are alike.
- `Alike.foldlM`: so are two loops over related lists.
- `Likewise`: the same where the reasons for a failure do not count.
-/

variable {ε α β γ δ : Type}

/-- A computation after another gives a value when both do. -/
theorem bind_eq_ok {x : Except ε α} {f : α → Except ε β} {b : β} :
    x.bind f = .ok b ↔ ∃ a, x = .ok a ∧ f a = .ok b := by
  cases x with
  | error e => simp [Except.bind]
  | ok a => simp [Except.bind]

theorem ok_bind (a : α) (f : α → Except ε β) : (Except.ok a).bind f = f a := rfl

theorem bind_bind (x : Except ε α) (f : α → Except ε β) (g : β → Except ε γ) :
    (x.bind f).bind g = x.bind fun a => (f a).bind g := by
  cases x <;> rfl

theorem exists_of_isOk {x : Except ε α} (h : x.isOk = true) : ∃ a, x = .ok a := by
  cases x with
  | error e => cases h
  | ok a => exact ⟨a, rfl⟩

theorem split_at {α : Type} {xs : List α} {k : Nat} {x : α} (h : xs[k]? = some x) :
    xs = xs.take k ++ x :: xs.drop (k + 1) := by
  rcases List.getElem?_eq_some_iff.1 h with ⟨hk, rfl⟩
  rw [← List.drop_eq_getElem_cons hk, List.take_append_drop]

/-- Every member of the second of two related lists has a partner in the first. -/
theorem exists_partner {R : α → β → Prop} {xs : List α} {ys : List β} (h : List.Forall₂ R xs ys)
    {y : β} (hy : y ∈ ys) : ∃ x ∈ xs, R x y := by
  induction h with
  | nil => exact absurd hy List.not_mem_nil
  | cons hxy _ ih =>
    rcases List.mem_cons.1 hy with rfl | hy
    · exact ⟨_, List.mem_cons_self, hxy⟩
    · rcases ih hy with ⟨x, hx, hR⟩
      exact ⟨x, List.mem_cons_of_mem _ hx, hR⟩

/-- So does the member at a place, at the same place. -/
theorem exists_partner_at {R : α → β → Prop} {xs : List α} {ys : List β}
    (h : List.Forall₂ R xs ys) {j : Nat} {y : β} (hy : ys[j]? = some y) :
    ∃ x, xs[j]? = some x ∧ R x y := by
  induction h generalizing j with
  | nil => cases hy
  | @cons x _ _ _ hxy _ ih =>
    cases j with
    | zero =>
      cases hy
      exact ⟨x, rfl, hxy⟩
    | succ j => exact ih hy

/-- Of related lists, the first members of a property are related. -/
theorem rel_find? {α β : Type} {R : α → β → Prop} {p : α → Bool} {q : β → Bool}
    (hpq : ∀ a b, R a b → p a = q b) {xs : List α} {ys : List β} (h : List.Forall₂ R xs ys) :
    Option.Rel R (xs.find? p) (ys.find? q) := by
  induction h with
  | nil => exact .none
  | @cons x y _ _ hxy _ ih =>
    rw [List.find?_cons, List.find?_cons, hpq x y hxy]
    cases q y with
    | true => exact .some hxy
    | false => exact ih

theorem rel_head? {α β : Type} {R : α → β → Prop} {xs : List α} {ys : List β}
    (h : List.Forall₂ R xs ys) : Option.Rel R xs.head? ys.head? := by
  cases h with
  | nil => exact .none
  | cons hxy _ => exact .some hxy

theorem rel_or {α β : Type} {R : α → β → Prop} {x x' : Option α} {y y' : Option β}
    (h : Option.Rel R x y) (h' : Option.Rel R x' y') : Option.Rel R (x.or x') (y.or y') := by
  cases h with
  | none => exact h'
  | some hxy => exact .some hxy

theorem rel_option_map {α β γ δ : Type} {R : α → β → Prop} {S : γ → δ → Prop} {f : α → γ} {g : β → δ}
    (hfg : ∀ a b, R a b → S (f a) (g b)) {x : Option α} {y : Option β} (h : Option.Rel R x y) :
    Option.Rel S (x.map f) (y.map g) := by
  cases h with
  | none => exact .none
  | some hxy => exact .some (hfg _ _ hxy)

theorem rel_getD {α β : Type} {R : α → β → Prop} {x : Option α} {y : Option β} {a : α} {b : β}
    (h : Option.Rel R x y) (hab : R a b) : R (x.getD a) (y.getD b) := by
  cases h with
  | none => exact hab
  | some hxy => exact hxy

theorem any_eq_of_rel {R : α → β → Prop} {xs : List α} {ys : List β} {p : α → Bool}
    {q : β → Bool} (h : List.Forall₂ R xs ys) (hpq : ∀ x y, R x y → q y = p x) :
    ys.any q = xs.any p := by
  induction h with
  | nil => rfl
  | cons hxy _ ih => rw [List.any_cons, List.any_cons, hpq _ _ hxy, ih]

theorem all_eq_of_rel {R : α → β → Prop} {xs : List α} {ys : List β} {p : α → Bool}
    {q : β → Bool} (h : List.Forall₂ R xs ys) (hpq : ∀ x y, R x y → q y = p x) :
    ys.all q = xs.all p := by
  rw [List.all_eq_not_any_not, List.all_eq_not_any_not,
    any_eq_of_rel h fun x y hxy => by rw [hpq x y hxy]]

theorem map_eq_of_rel {R : α → β → Prop} {xs : List α} {ys : List β} {f : α → γ}
    {g : β → γ} (h : List.Forall₂ R xs ys) (hfg : ∀ x y, R x y → g y = f x) :
    ys.map g = xs.map f := by
  induction h with
  | nil => rfl
  | cons hxy _ ih => rw [List.map_cons, List.map_cons, hfg _ _ hxy, ih]

theorem rel_trans {R : α → β → Prop} {S : β → γ → Prop} {T : α → γ → Prop}
    (hRS : ∀ a b c, R a b → S b c → T a c) {xs : List α} {ys : List β} {zs : List γ}
    (h : List.Forall₂ R xs ys) (h' : List.Forall₂ S ys zs) : List.Forall₂ T xs zs := by
  induction h generalizing zs with
  | nil =>
    cases h'
    exact .nil
  | cons hxy _ ih =>
    obtain _ | ⟨hyz, hrest⟩ := h'
    exact .cons (hRS _ _ _ hxy hyz) (ih hrest)

/-- What numbering the second of two related lists makes of its members. -/
theorem rel_zipIdx {R : α → β → Prop} {S : α → γ → Prop} {f : β × Nat → γ}
    (hf : ∀ a b i, R a b → S a (f (b, i))) {xs : List α} {ys : List β} (h : List.Forall₂ R xs ys)
    (first : Nat) : List.Forall₂ S xs ((ys.zipIdx first).map f) := by
  induction h generalizing first with
  | nil => exact .nil
  | cons hxy _ ih => exact .cons (hf _ _ first hxy) (ih (first + 1))

/-- Related lists that are numbered and mapped. -/
theorem map_zipIdx_eq_of_rel {R : α → β → Prop} {f : α × Nat → γ} {g : β × Nat → γ}
    (hfg : ∀ a b i, R a b → g (b, i) = f (a, i)) {xs : List α} {ys : List β}
    (h : List.Forall₂ R xs ys) (first : Nat) :
    (ys.zipIdx first).map g = (xs.zipIdx first).map f := by
  induction h generalizing first with
  | nil => rfl
  | cons hxy _ ih =>
    rw [List.zipIdx_cons, List.zipIdx_cons, List.map_cons, List.map_cons, hfg _ _ first hxy, ih]

/-- Both fail for one reason, or both give related values. -/
def Alike (R : α → β → Prop) : Except ε α → Except ε β → Prop
  | .ok a, .ok b => R a b
  | .error e, .error e' => e = e'
  | _, _ => False

namespace Alike

variable {R : α → β → Prop} {S : γ → δ → Prop} {x : Except ε α} {y : Except ε β}

theorem mono {R' : α → β → Prop} (h : Alike R x y) (hR : ∀ a b, R a b → R' a b) : Alike R' x y := by
  cases x <;> cases y
  · exact h
  · exact h
  · exact h
  · exact hR _ _ h

/-- If the first gives a value, the second gives a related one. -/
theorem of_ok (h : Alike R x y) {a : α} (ha : x = .ok a) : ∃ b, y = .ok b ∧ R a b := by
  subst ha
  cases y with
  | error e => exact absurd h not_false
  | ok b => exact ⟨b, rfl, h⟩

/-- If the second gives a value, the first gives a related one. -/
theorem to_ok (h : Alike R x y) {b : β} (hb : y = .ok b) : ∃ a, x = .ok a ∧ R a b := by
  subst hb
  cases x with
  | error e => exact absurd h not_false
  | ok a => exact ⟨a, rfl, h⟩

/-- If the first fails, the second fails for the same reason. -/
theorem of_error (h : Alike R x y) {e : ε} (he : x = .error e) : y = .error e := by
  subst he
  cases y with
  | error e' => exact congrArg Except.error h.symm
  | ok b => exact absurd h not_false

/-- If the second fails, the first fails for the same reason. -/
theorem to_error (h : Alike R x y) {e : ε} (he : y = .error e) : x = .error e := by
  subst he
  cases x with
  | error e' => exact congrArg Except.error h
  | ok a => exact absurd h not_false

theorem isOk_eq (h : Alike R x y) : x.isOk = y.isOk := by
  cases x with
  | error e =>
    rw [h.of_error rfl]
    rfl
  | ok a =>
    rcases h.of_ok rfl with ⟨b, rfl, -⟩
    rfl

theorem bind {f : α → Except ε γ} {g : β → Except ε δ} (h : Alike R x y)
    (hnext : ∀ a b, R a b → Alike S (f a) (g b)) : Alike S (x.bind f) (y.bind g) := by
  cases x with
  | error e =>
    rw [h.of_error rfl]
    rfl
  | ok a =>
    rcases h.of_ok rfl with ⟨b, rfl, hab⟩
    exact hnext a b hab

end Alike

/-- The values in the relation are those that the computations give. -/
theorem Alike.with_values {R : α → β → Prop} {x : Except ε α} {y : Except ε β} (h : Alike R x y) :
    Alike (fun a b => R a b ∧ x = .ok a ∧ y = .ok b) x y := by
  cases x <;> cases y
  · exact h
  · exact h
  · exact h
  · exact ⟨h, rfl, rfl⟩

/-- Both fail, for whatever reasons, or both give related values. -/
inductive Likewise (R : α → β → Prop) : Except ε α → Except ε β → Prop
  | ok {a : α} {b : β} : R a b → Likewise R (.ok a) (.ok b)
  | error (e e' : ε) : Likewise R (.error e) (.error e')

namespace Likewise

variable {R : α → β → Prop} {S : γ → δ → Prop} {x : Except ε α} {y : Except ε β}

/-- If both give a value, the values are related. -/
theorem of_ok (h : Likewise R x y) {a : α} {b : β} (ha : x = .ok a) (hb : y = .ok b) : R a b := by
  subst ha
  subst hb
  cases h with
  | ok hab => exact hab

theorem flip (h : Likewise R x y) : Likewise (fun b a => R a b) y x := by
  cases h with
  | ok hab => exact .ok hab
  | error e e' => exact .error e' e

theorem mono {R' : α → β → Prop} (h : Likewise R x y) (hR : ∀ a b, R a b → R' a b) :
    Likewise R' x y := by
  cases h with
  | ok hab => exact .ok (hR _ _ hab)
  | error e e' => exact .error e e'

/-- What is related in each of several ways is related in all of them. -/
theorem all {ι : Type} [Nonempty ι] {R : ι → α → β → Prop} (h : ∀ i, Likewise (R i) x y) :
    Likewise (fun a b => ∀ i, R i a b) x y := by
  cases h (Classical.arbitrary ι) with
  | ok _ => exact .ok fun i => (h i).of_ok rfl rfl
  | error e e' => exact .error e e'

theorem bind {f : α → Except ε γ} {g : β → Except ε δ} (h : Likewise R x y)
    (hnext : ∀ a b, R a b → Likewise S (f a) (g b)) : Likewise S (x.bind f) (y.bind g) := by
  cases h with
  | ok hab => exact hnext _ _ hab
  | error e e' => exact .error e e'

theorem foldlM {f : α → γ → Except ε α} {g : β → δ → Except ε β} {xs : List γ} {ys : List δ}
    (hxs : List.Forall₂ S xs ys)
    (hstep : ∀ a b c d, R a b → S c d → Likewise R (f a c) (g b d)) {a : α} {b : β} (hab : R a b) :
    Likewise R (xs.foldlM f a) (ys.foldlM g b) := by
  induction hxs generalizing a b with
  | nil => exact .ok hab
  | cons hcd _ ih =>
    rw [List.foldlM_cons, List.foldlM_cons]
    exact (hstep _ _ _ _ hab hcd).bind fun _ _ hnext => ih hnext

theorem map {f : α → γ} {g : β → δ} (h : Likewise R x y) (hS : ∀ a b, R a b → S (f a) (g b)) :
    Likewise S (x.map f) (y.map g) := by
  cases h with
  | ok hab => exact .ok (hS _ _ hab)
  | error e e' => exact .error e e'

theorem mapError {ε' : Type} (f : ε → ε') (h : Likewise R x y) :
    Likewise R (x.mapError f) (y.mapError f) := by
  cases h with
  | ok hab => exact .ok hab
  | error e e' => exact .error (f e) (f e')

theorem trans {T : α → γ → Prop} {U : β → γ → Prop} {z : Except ε γ} (h : Likewise R x y)
    (h' : Likewise U y z) (hT : ∀ a b c, R a b → U b c → T a c) : Likewise T x z := by
  cases h with
  | ok hab =>
    cases h' with
    | ok hbc => exact .ok (hT _ _ _ hab hbc)
  | error e _ =>
    cases h' with
    | error _ e' => exact .error e e'

end Likewise

theorem Alike.likewise {R : α → β → Prop} {x : Except ε α} {y : Except ε β} (h : Alike R x y) :
    Likewise R x y := by
  cases hx : x with
  | error e =>
    rw [h.of_error hx]
    exact .error e e
  | ok a =>
    obtain ⟨b, hy, hab⟩ := h.of_ok hx
    rw [hy]
    exact .ok hab

end QuerySignature
