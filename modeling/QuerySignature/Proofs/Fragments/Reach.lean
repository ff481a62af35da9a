import Mathlib.Data.List.Nodup
import Mathlib.Data.List.Perm.Subperm
import QuerySignature.Dynamic.Needs

namespace QuerySignature

/-! # What hangs off a source

A source reaches the sources that are joined through it, directly or through others. The model
collects them in a list that it extends while it goes through it. Here what is collected is
compared with the links themselves, read downwards:

- `Reach.mem_relations_ofSource`: the relations collected are those that hang off the source;
- `Reach.mem_fields_ofSource`: the columns collected are those that the sources of these relations
  bring.

Nothing is asked of the links: they may form cycles, and may name relations that do not exist.
-/

/-- The relations that hang off a relation by links read downwards, itself included. -/
inductive HangsOff (sources : List Fragment) (root : String) : String → Prop
  | root : HangsOff sources root root
  | step {source : Fragment} {parent relation : String} (above : HangsOff sources root parent)
      (mem : source ∈ sources) (link : source.parent = some parent)
      (named : source.relation = some relation) : HangsOff sources root relation

/-- What hangs off a relation below the root hangs off the root. -/
theorem HangsOff.trans {sources : List Fragment} {root middle relation : String}
    (upper : HangsOff sources root middle) (lower : HangsOff sources middle relation) :
    HangsOff sources root relation := by
  induction lower with
  | root => exact upper
  | step _ mem link named ih => exact .step ih mem link named

/-- A set of relations that holds the root and is closed under links holds all that hangs off it. -/
theorem HangsOff.mem_of_closed {sources : List Fragment} {root relation : String}
    (h : HangsOff sources root relation) {relations : List String} (start : root ∈ relations)
    (closed : ∀ source ∈ sources, ∀ parent ∈ relations, source.parent = some parent →
      ∀ child, source.relation = some child → child ∈ relations) :
    relation ∈ relations := by
  induction h with
  | root => exact start
  | step _ mem link named ih => exact closed _ mem _ ih link _ named

/-- Sources that bring relations of different names. -/
structure SourcesNamed (sources : List Fragment) : Prop where
  isSome : ∀ source ∈ sources, source.relation.isSome = true
  nodup : (sources.map (·.relation)).Nodup

instance (sources : List Fragment) : Decidable (SourcesNamed sources) :=
  decidable_of_iff ((∀ source ∈ sources, source.relation.isSome = true) ∧
      (sources.map (·.relation)).Nodup)
    ⟨fun ⟨isSome, nodup⟩ => ⟨isSome, nodup⟩, fun ⟨isSome, nodup⟩ => ⟨isSome, nodup⟩⟩

/-- A relation is brought by one source. -/
theorem SourcesNamed.eq_of_relation {sources : List Fragment} (named : SourcesNamed sources)
    {a b : Fragment} (ha : a ∈ sources) (hb : b ∈ sources) (same : a.relation = b.relation) :
    a = b :=
  List.inj_on_of_nodup_map named.nodup ha hb same

namespace Reach

variable {sources : List Fragment} {reach : Reach} {source : Fragment}
  {root parent relation : String}

/-- What the one has is what the other starts with. -/
structure Grows (a b : Reach) : Prop where
  relations : a.relations <+: b.relations
  fields : a.fields <+: b.fields

theorem Grows.refl (reach : Reach) : reach.Grows reach :=
  ⟨List.prefix_rfl, List.prefix_rfl⟩

theorem Grows.trans {a b c : Reach} (h : a.Grows b) (h' : b.Grows c) : a.Grows c :=
  ⟨h.relations.trans h'.relations, h.fields.trans h'.fields⟩

/-- The columns that the sources of the relations bring are the columns collected. -/
def BringsFields (sources : List Fragment) (reach : Reach) : Prop :=
  ∀ field, field ∈ reach.fields ↔
    ∃ source ∈ sources, ∃ relation ∈ reach.relations,
      source.relation = some relation ∧ field ∈ source.fields

/-- What has been collected: each relation once, and only what hangs off the root. -/
structure Grown (sources : List Fragment) (root : String) (reach : Reach) : Prop where
  nodup : reach.relations.Nodup
  root_mem : root ∈ reach.relations
  hangsOff : ∀ relation ∈ reach.relations, HangsOff sources root relation
  brings : reach.BringsFields sources

/-- There are no more relations than the root and one for each source. -/
theorem Grown.length_le (grown : Grown sources root reach) :
    reach.relations.length ≤ sources.length + 1 := by
  have hsub : reach.relations ⊆ root :: sources.filterMap (·.relation) := by
    intro relation hmem
    cases grown.hangsOff relation hmem with
    | root => exact List.mem_cons_self
    | step _ mem _ named =>
      exact List.mem_cons_of_mem _ (List.mem_filterMap.2 ⟨_, mem, named⟩)
  have hle := (grown.nodup.subperm hsub).length_le
  have hfilter := List.length_filterMap_le (·.relation) sources
  simp only [List.length_cons] at hle
  omega

/-! ## One source -/

theorem mem_relations_add :
    relation ∈ (reach.add source).relations ↔
      relation ∈ reach.relations ∨ source.relation = some relation := by
  unfold add
  split
  case h_1 own hown =>
    split
    case isTrue hin =>
      constructor
      · exact Or.inl
      · rintro (h | h)
        · exact h
        · rw [hown, Option.some.injEq] at h
          exact h ▸ hin
    case isFalse => simp [hown, eq_comm]
  case h_2 hnone => simp [hnone]

theorem grows_add : reach.Grows (reach.add source) := by
  unfold add
  split
  case h_1 =>
    split
    · exact .refl reach
    · exact ⟨List.prefix_append _ _, List.prefix_append _ _⟩
  case h_2 => exact .refl reach

/-- A source that hangs off a relation collected is one more. -/
theorem Grown.add (named : SourcesNamed sources) (grown : Grown sources root reach)
    (mem : source ∈ sources) (hparent : parent ∈ reach.relations)
    (link : source.parent = some parent) : Grown sources root (reach.add source) := by
  obtain ⟨own, hown⟩ := Option.isSome_iff_exists.1 (named.isSome source mem)
  by_cases hin : own ∈ reach.relations
  · have hsame : reach.add source = reach := by simp [Reach.add, hown, hin]
    rw [hsame]
    exact grown
  · have hadd : reach.add source = ⟨reach.relations ++ [own], reach.fields ++ source.fields⟩ := by
      simp [Reach.add, hown, hin]
    rw [hadd]
    constructor
    · exact List.nodup_append.2 ⟨grown.nodup, List.nodup_singleton own, by
        intro a ha b hb hab
        rw [List.mem_singleton.1 hb] at hab
        exact hin (hab ▸ ha)⟩
    · exact List.mem_append_left _ grown.root_mem
    · intro relation hmem
      rcases List.mem_append.1 hmem with hold | hnew
      · exact grown.hangsOff relation hold
      · rw [List.mem_singleton.1 hnew]
        exact .step (grown.hangsOff parent hparent) mem link hown
    · intro field
      -- the only source of the new relation is the one that is added
      have honly : ∀ other ∈ sources, other.relation = some own → other = source :=
        fun other hother h => named.eq_of_relation hother mem (h.trans hown.symm)
      constructor
      · intro hfield
        rcases List.mem_append.1 hfield with hold | hnew
        · obtain ⟨other, hother, relation, hrel, hname, hbring⟩ := (grown.brings field).1 hold
          exact ⟨other, hother, relation, List.mem_append_left _ hrel, hname, hbring⟩
        · exact ⟨source, mem, own, by simp, hown, hnew⟩
      · rintro ⟨other, hother, relation, hrel, hname, hbring⟩
        rcases List.mem_append.1 hrel with hold | hnew
        · exact List.mem_append_left _
            ((grown.brings field).2 ⟨other, hother, relation, hold, hname, hbring⟩)
        · have heq := honly other hother (List.mem_singleton.1 hnew ▸ hname)
          exact List.mem_append_right _ (heq ▸ hbring)

/-! ## The sources below a relation -/

theorem grows_foldl_add (children : List Fragment) (reach : Reach) :
    reach.Grows (children.foldl Reach.add reach) := by
  induction children generalizing reach with
  | nil => exact .refl reach
  | cons child rest ih => exact grows_add.trans (ih (reach.add child))

theorem mem_relations_foldl_add {children : List Fragment} (h : source ∈ children)
    (hown : source.relation = some relation) :
    relation ∈ (children.foldl Reach.add reach).relations := by
  induction children generalizing reach with
  | nil => nomatch h
  | cons child rest ih =>
    rcases List.mem_cons.1 h with rfl | hrest
    · have hnow : relation ∈ (reach.add source).relations := mem_relations_add.2 (.inr hown)
      exact (grows_foldl_add rest (reach.add source)).relations.subset hnow
    · exact ih hrest

theorem Grown.foldl_add (named : SourcesNamed sources) {children : List Fragment}
    (grown : Grown sources root reach) (hparent : parent ∈ reach.relations)
    (below : ∀ child ∈ children, child ∈ sources ∧ child.parent = some parent) :
    Grown sources root (children.foldl Reach.add reach) := by
  induction children generalizing reach with
  | nil => exact grown
  | cons child rest ih =>
    obtain ⟨mem, link⟩ := below child List.mem_cons_self
    refine ih (grown.add named mem hparent link) ?_ fun other hother =>
      below other (List.mem_cons_of_mem _ hother)
    exact grows_add.relations.subset hparent

theorem grows_addChildren : reach.Grows (reach.addChildren sources parent) :=
  grows_foldl_add _ reach

theorem Grown.addChildren (named : SourcesNamed sources) (grown : Grown sources root reach)
    (hparent : parent ∈ reach.relations) :
    Grown sources root (reach.addChildren sources parent) := by
  refine grown.foldl_add named hparent ?_
  intro child hchild
  simpa using hchild

/-- All that hangs off a relation directly is collected. -/
theorem mem_relations_addChildren (mem : source ∈ sources) (link : source.parent = some parent)
    (hown : source.relation = some relation) :
    relation ∈ (reach.addChildren sources parent).relations := by
  have hbelow : source ∈ sources.filter fun source => source.parent == some parent :=
    List.mem_filter.2 ⟨mem, by simp [link]⟩
  exact mem_relations_foldl_add hbelow hown

/-! ## All that is below -/

/-- Whatever hangs off one of the first relations directly is there. -/
def ClosedBefore (sources : List Fragment) (place : Nat) (reach : Reach) : Prop :=
  ∀ before < place, ∀ parent, reach.relations[before]? = some parent →
    ∀ source ∈ sources, source.parent = some parent →
      ∀ child, source.relation = some child → child ∈ reach.relations

theorem ClosedBefore.addChildren {place : Nat} (closed : ClosedBefore sources place reach)
    (hplace : reach.relations[place]? = some parent) :
    ClosedBefore sources (place + 1) (reach.addChildren sources parent) := by
  obtain ⟨hlt, -⟩ := List.getElem?_eq_some_iff.1 hplace
  have hprefix : reach.relations <+: (reach.addChildren sources parent).relations :=
    grows_addChildren.relations
  intro before hbefore above habove source mem link child hown
  -- the places so far hold what they held
  have hkept : reach.relations[before]? = some above := by
    have hle : before < reach.relations.length := by omega
    have hsame := List.prefix_iff_getElem?.1 hprefix before hle
    rw [List.getElem?_eq_getElem hle, ← hsame]
    exact habove
  rcases Nat.lt_succ_iff_lt_or_eq.1 hbefore with hless | rfl
  · exact hprefix.subset (closed before hless above hkept source mem link child hown)
  · obtain rfl : parent = above := by simpa [hplace] using hkept
    exact mem_relations_addChildren mem link hown

/-- Going on from a place on leaves nothing out, if there are steps for all relations there can
be. -/
theorem Grown.extend (named : SourcesNamed sources) {steps place : Nat}
    (grown : Grown sources root reach) (closed : ClosedBefore sources place reach)
    (enough : sources.length + 1 ≤ steps + place) :
    Grown sources root (Reach.extend sources steps place reach) ∧
      ∀ source ∈ sources, ∀ parent ∈ (Reach.extend sources steps place reach).relations,
        source.parent = some parent → ∀ child, source.relation = some child →
          child ∈ (Reach.extend sources steps place reach).relations := by
  -- with all relations behind the place, closed so far is closed
  have hend : reach.relations.length ≤ place → ∀ source ∈ sources, ∀ parent ∈ reach.relations,
      source.parent = some parent → ∀ child, source.relation = some child →
        child ∈ reach.relations := by
    intro hle source mem parent hparent link child hown
    obtain ⟨before, hlt, hat⟩ := List.mem_iff_getElem.1 hparent
    have hsome : reach.relations[before]? = some parent := List.getElem?_eq_some_iff.2 ⟨hlt, hat⟩
    exact closed before (by omega) parent hsome source mem link child hown
  induction steps generalizing place reach with
  | zero =>
    -- the place has gone past as many relations as there can be
    have hle := grown.length_le
    exact ⟨grown, hend (by omega)⟩
  | succ steps ih =>
    unfold Reach.extend
    cases hplace : reach.relations[place]? with
    | none => exact ⟨grown, hend (List.getElem?_eq_none_iff.1 hplace)⟩
    | some parent =>
      have hgrown := grown.addChildren named (List.mem_of_getElem? hplace)
      have hclosed := closed.addChildren hplace
      refine ih hgrown hclosed (by omega) ?_
      intro hle source mem above habove link child hown
      obtain ⟨before, hlt, hat⟩ := List.mem_iff_getElem.1 habove
      exact hclosed before (by omega) above (List.getElem?_eq_some_iff.2 ⟨hlt, hat⟩)
        source mem link child hown

/-! ## What a source reaches -/

theorem grows_extend (sources : List Fragment) (steps place : Nat) (reach : Reach) :
    reach.Grows (Reach.extend sources steps place reach) := by
  induction steps generalizing place reach with
  | zero => exact .refl reach
  | succ steps ih =>
    unfold Reach.extend
    cases reach.relations[place]? with
    | none => exact .refl reach
    | some parent => exact grows_addChildren.trans (ih (place + 1) _)

/-- A source reaches itself. -/
theorem relation_mem_ofSource (sources : List Fragment) (own : source.relation = some relation) :
    relation ∈ (ofSource sources source).relations := by
  have hgrows := grows_extend sources (sources.length + 1) 0 ⟨source.relation.toList, source.fields⟩
  exact hgrows.relations.subset (by simp [own])

theorem fields_subset_ofSource (sources : List Fragment) (source : Fragment) :
    source.fields ⊆ (ofSource sources source).fields := by
  have hgrows := grows_extend sources (sources.length + 1) 0 ⟨source.relation.toList, source.fields⟩
  exact hgrows.fields.subset

variable (named : SourcesNamed sources) (mem : source ∈ sources) (own : source.relation = some root)

include named mem own

/-- A source alone is collected from the start. -/
theorem Grown.start : Grown sources root ⟨[root], source.fields⟩ := by
  constructor
  · exact List.nodup_singleton root
  · exact List.mem_singleton_self root
  · intro relation hmem
    rw [List.mem_singleton.1 hmem]
    exact .root
  · intro field
    constructor
    · intro hfield
      exact ⟨source, mem, root, List.mem_singleton_self root, own, hfield⟩
    · rintro ⟨other, hother, relation, hrel, hname, hbring⟩
      rw [List.mem_singleton.1 hrel] at hname
      have heq : other = source := named.eq_of_relation hother mem (hname.trans own.symm)
      exact heq ▸ hbring

theorem grown_ofSource :
    Grown sources root (ofSource sources source) ∧
      ∀ source' ∈ sources, ∀ parent ∈ (ofSource sources source).relations,
        source'.parent = some parent → ∀ child, source'.relation = some child →
          child ∈ (ofSource sources source).relations := by
  unfold ofSource
  rw [own]
  refine (Grown.start named mem own).extend named ?_ (by omega)
  intro before hbefore
  omega

/-- The relations that a source reaches are those that hang off its own. -/
theorem mem_relations_ofSource :
    relation ∈ (ofSource sources source).relations ↔ HangsOff sources root relation := by
  obtain ⟨grown, closed⟩ := grown_ofSource named mem own
  constructor
  · exact grown.hangsOff relation
  · intro h
    exact h.mem_of_closed grown.root_mem closed

/-- The columns that a source reaches are those of the sources that hang off it. -/
theorem mem_fields_ofSource {field : TableField} :
    field ∈ (ofSource sources source).fields ↔
      ∃ below ∈ sources, ∃ relation, HangsOff sources root relation ∧
        below.relation = some relation ∧ field ∈ below.fields := by
  obtain ⟨grown, -⟩ := grown_ofSource named mem own
  rw [grown.brings field]
  constructor
  · rintro ⟨below, hbelow, relation, hrel, hname, hfield⟩
    exact ⟨below, hbelow, relation, grown.hangsOff relation hrel, hname, hfield⟩
  · rintro ⟨below, hbelow, relation, hangs, hname, hfield⟩
    exact ⟨below, hbelow, relation, (mem_relations_ofSource named mem own).2 hangs, hname, hfield⟩

end Reach

end QuerySignature
