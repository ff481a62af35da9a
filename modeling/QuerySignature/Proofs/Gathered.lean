import Mathlib.Data.List.Induction
import QuerySignature.Distinct

namespace QuerySignature

/-! # Items gathered by their keys

Items are gathered one after the other, each at the end of the group of its key. What comes out is told
without that: the keys in the order of their first items, and the items of each key in their order.

- `foldl_gather`: the groups are the items of each key.
- `flatMap_gather_perm`: gathering an item adds it to the items of all groups.
-/

theorem distinct_concat {α : Type} [DecidableEq α] (items : List α) (item : α) :
    distinct (items ++ [item]) = addDistinct (distinct items) item := by
  unfold distinct
  rw [List.foldl_append]
  rfl

/-- Adds an item to the group of its key, or starts a new last group. -/
def gather {α : Type} (key : String) (item : α) : List (String × List α) → List (String × List α)
  | [] => [(key, [item])]
  | (other, items) :: rest =>
    if other = key then (other, items ++ [item]) :: rest
    else (other, items) :: gather key item rest

section

variable {α : Type} {key : String} {keys : List String}

/-- An item of a key that there is goes to the end of its group. -/
theorem gather_of_mem (hnodup : keys.Nodup) (hkey : key ∈ keys) (item : α)
    (group : String → List α) :
    gather key item (keys.map fun k => (k, group k)) =
      keys.map fun k => (k, if k = key then group k ++ [item] else group k) := by
  induction keys with
  | nil => exact absurd hkey List.not_mem_nil
  | cons first rest ih =>
    obtain ⟨hfirst, hrest⟩ := List.nodup_cons.1 hnodup
    rw [List.map_cons, List.map_cons, gather]
    by_cases hsame : first = key
    · subst hsame
      rw [if_pos rfl, if_pos rfl, List.cons.injEq]
      refine ⟨rfl, List.map_congr_left fun other hother => ?_⟩
      rw [if_neg (ne_of_mem_of_not_mem hother hfirst)]
    · have hlater : key ∈ rest := (List.mem_cons.1 hkey).resolve_left (Ne.symm hsame)
      rw [if_neg hsame, if_neg hsame, ih hrest hlater]

/-- An item of a new key makes a last group. -/
theorem gather_of_not_mem (hkey : key ∉ keys) (item : α) (group : String → List α) :
    gather key item (keys.map fun k => (k, group k)) =
      (keys.map fun k => (k, group k)) ++ [(key, [item])] := by
  induction keys with
  | nil => rfl
  | cons first rest ih =>
    have hfirst : first ≠ key := fun h => hkey (h ▸ List.mem_cons_self)
    rw [List.map_cons, gather, if_neg hfirst,
      ih fun h => hkey (List.mem_cons_of_mem _ h), List.cons_append]

/-- The groups are the items of each key, in the order of the keys; an item without a key is in
none. -/
theorem foldl_gather (key? : α → Option String) (items : List α) :
    items.foldl (fun done item =>
        match key? item with
        | some key => gather key item done
        | none => done) [] =
      (distinct (items.filterMap key?)).map fun key =>
        (key, items.filter fun item => key? item == some key) := by
  induction items using List.reverseRecOn with
  | nil => rfl
  | append_singleton items item ih =>
    rw [List.foldl_append, List.foldl_cons, List.foldl_nil, ih]
    -- the last item is in no group, in the group of its key, or in a new one
    cases hitem : key? item with
    | none =>
      have hkeys : (items ++ [item]).filterMap key? = items.filterMap key? := by
        simp [List.filterMap_append, hitem]
      rw [hkeys]
      refine List.map_congr_left fun key _ => ?_
      simp [List.filter_append, hitem]
    | some key =>
      have hown : ((items ++ [item]).filter fun other => key? other == some key) =
          (items.filter fun other => key? other == some key) ++ [item] := by
        simp [List.filter_append, hitem]
      have hother : ∀ k, k ≠ key → ((items ++ [item]).filter fun other => key? other == some k) =
          items.filter fun other => key? other == some k := by
        intro k hne
        simp [List.filter_append, hitem, hne.symm]
      have hkeys : (items ++ [item]).filterMap key? = items.filterMap key? ++ [key] := by
        simp [List.filterMap_append, hitem]
      rw [hkeys, distinct_concat]
      unfold addDistinct
      dsimp only
      split
      case isTrue hkey =>
        rw [gather_of_mem (nodup_distinct _) hkey]
        refine List.map_congr_left fun k _ => ?_
        split
        case isTrue hsame => rw [hsame, hown]
        case isFalse hne => rw [hother k hne]
      case isFalse hkey =>
        have hnone : (items.filter fun other => key? other == some key) = [] := by
          rw [List.filter_eq_nil_iff]
          intro other hmem hsame
          exact hkey (mem_distinct.2 (List.mem_filterMap.2 ⟨other, hmem, beq_iff_eq.1 hsame⟩))
        rw [gather_of_not_mem hkey, List.map_append, List.map_singleton, hown, hnone,
          List.nil_append]
        congr 1
        refine List.map_congr_left fun k hmem => ?_
        rw [hother k (ne_of_mem_of_not_mem hmem hkey)]

/-- Gathering an item adds it to the items of all groups. -/
theorem flatMap_gather_perm (key : String) (item : α) (groups : List (String × List α)) :
    ((gather key item groups).flatMap (·.2)).Perm (groups.flatMap (·.2) ++ [item]) := by
  induction groups with
  | nil => exact .refl _
  | cons group rest ih =>
    obtain ⟨other, items⟩ := group
    unfold gather
    split
    · simp only [List.flatMap_cons, List.append_assoc]
      exact List.perm_append_comm.append_left items
    · simp only [List.flatMap_cons, List.append_assoc]
      exact ih.append_left items

end

end QuerySignature
