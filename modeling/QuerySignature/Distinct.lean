namespace QuerySignature

/-! # Lists without repetitions

- `mem_distinct`: removing repetitions loses no item.
- `nodup_distinct`: no item is left twice.
-/

/-- Adds an item at the end, unless it is there. -/
def addDistinct {α : Type} [DecidableEq α] (done : List α) (item : α) : List α :=
  if item ∈ done then done else done ++ [item]

/-- A list without repetitions, each item at its first place. -/
def distinct {α : Type} [DecidableEq α] (items : List α) : List α :=
  items.foldl addDistinct []

theorem mem_addDistinct {α : Type} [DecidableEq α] {done : List α} {item x : α} :
    x ∈ addDistinct done item ↔ x ∈ done ∨ x = item := by
  by_cases h : item ∈ done
  · simp only [addDistinct, h, if_true]
    exact ⟨Or.inl, fun hx => hx.elim id fun he => he ▸ h⟩
  · simp [addDistinct, h]

theorem mem_foldl_addDistinct {α : Type} [DecidableEq α] {items done : List α} {x : α} :
    x ∈ items.foldl addDistinct done ↔ x ∈ done ∨ x ∈ items := by
  induction items generalizing done with
  | nil => simp
  | cons item rest ih => simp [ih, mem_addDistinct, or_assoc]

theorem mem_distinct {α : Type} [DecidableEq α] {items : List α} {x : α} :
    x ∈ distinct items ↔ x ∈ items := by
  simp [distinct, mem_foldl_addDistinct]

theorem nodup_foldl_addDistinct {α : Type} [DecidableEq α] {items done : List α} (h : done.Nodup) :
    (items.foldl addDistinct done).Nodup := by
  induction items generalizing done with
  | nil => exact h
  | cons item rest ih =>
    refine ih ?_
    by_cases hm : item ∈ done
    · simpa [addDistinct, hm] using h
    · simp only [addDistinct, hm, if_false]
      refine List.nodup_append.2 ⟨h, by simp, ?_⟩
      intro a ha b hb hab
      simp only [List.mem_singleton] at hb
      exact hm (hb ▸ hab ▸ ha)

theorem nodup_distinct {α : Type} [DecidableEq α] (items : List α) : (distinct items).Nodup :=
  nodup_foldl_addDistinct List.nodup_nil

end QuerySignature
