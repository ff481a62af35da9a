import QuerySignature.Proofs.Fragments.Labels

namespace QuerySignature

/-! # The two graphs of a FROM clause

The sources of a clause are made into a graph twice: the walk makes a relation of each, with the
parent that its join links it to, and the cutting into fragments takes for the parent whatever its
ON condition mentions first, or the source before. The two differ where a join equates the joined
table with another one than it mentions first, and where a USING list shares columns with another
source than the one before.

- `hangsAs_of_join`: what one join makes of its two parents;
- `LinkedAlike`: the graphs of a whole clause, grown by one source after the other;
- `SameGraph.add`, `SameGraph.join`: one more source keeps what both have gathered alike.
-/

/-- Whether a fragment and a relation hang off one table, or both off none. -/
def Fragment.hangsAs (fragment : Fragment) (relation : Relation) : Bool :=
  match fragment.parent with
  | none => relation.isRoot
  | some parent => !relation.isRoot && sameName parent relation.parent

/-- Whether the condition of a join links the joined table to what stands first: an ON condition to
the table that it mentions first, a USING list to the source before. -/
def JoinCondition.linksFirst (condition : JoinCondition) (joined : String)
    (earlier own : List TableField) (previous : Option String) : Bool :=
  match condition with
  | .predicate e =>
    (equatedTable? (earlier ++ own) joined e).all fun table =>
      (joinParent? condition joined earlier).any fun first => sameName first table
  | .shared names =>
    (earlier.find? fun field => names.any fun name => sameName name field.field).all fun field =>
      previous.any fun table => sameName table field.table
  | .unconditional => true

/-! ## One join -/

/-- The source before a join, and its visible name, which is empty if there is none. -/
structure PreviousAs (label : Option String) (previous : String) : Prop where
  name : label.getD "" = previous
  named : label ≠ some ""

section

variable {fragment : Fragment} {relation : Relation} {previous : String} {label : Option String}

theorem hangsAs_of_previous (hprevious : PreviousAs label previous)
    (hfragment : fragment.parent = label) (hrelation : relation.parent = previous) :
    fragment.hangsAs relation = true := by
  have hname := hprevious.name
  unfold Fragment.hangsAs Relation.isRoot
  rw [hfragment, hrelation, ← hname]
  cases label with
  | none => rfl
  | some table =>
    have hnamed : table.isEmpty = false := by simpa using hprevious.named
    simp [hnamed]

theorem hangsAs_of_named {table : String} (hfragment : fragment.parent = some table)
    (hnamed : relation.parent.isEmpty = false) :
    fragment.hangsAs relation = sameName table relation.parent := by
  unfold Fragment.hangsAs Relation.isRoot
  rw [hfragment, hnamed]
  rfl

/-- A join links its table to the same one for the cutting and for the walk, exactly if it links it
to what stands first. -/
theorem hangsAs_of_join {columns level : Level} {known own : List TableField} {joined : String}
    {condition : JoinCondition} (hseen : SeenAlike columns known)
    (hboth : SeenAlike (columns ++ level) (known ++ own)) (hown : ∀ f ∈ own, f.table = joined)
    (hresolved : ∀ e, condition = .predicate e → ∀ c ∈ e.columns,
      ∃ column, Scope.lookup? ⟨columns ++ level, []⟩ c = some column)
    (hprevious : PreviousAs label previous)
    (hfragment : fragment.parent = (joinParent? condition joined known).or label)
    (hrelation : relation.parent =
      ((condition.link [] joined columns level).parent).getD previous) :
    fragment.hangsAs relation = condition.linksFirst joined known own label := by
  cases condition with
  | unconditional => exact hangsAs_of_previous hprevious hfragment hrelation
  | shared names =>
    have hshared := hseen _ (caseless_any_sameName names)
    have hlink : (JoinCondition.link (.shared names) [] joined columns level).parent =
        (columns.find? fun c => names.any fun name => sameName name c.name).map
          SourceColumn.visibleTable := rfl
    rw [hlink] at hrelation
    show fragment.hangsAs relation =
      (known.find? fun field => names.any fun name => sameName name field.field).all fun field =>
        label.any fun table => sameName table field.table
    generalize columns.find? _ = column at hshared hrelation
    generalize known.find? _ = field at hshared ⊢
    cases hshared with
    | none => exact hangsAs_of_previous hprevious hfragment hrelation
    | @some column field hone =>
      -- the walk goes by the first column that is shared, the cutting by the source before
      have hparent : relation.parent = column.visibleTable := hrelation
      have hempty : relation.parent.isEmpty = false := hparent ▸ hone.isEmpty
      cases label with
      | none =>
        unfold Fragment.hangsAs Relation.isRoot
        rw [hfragment, hempty]
        rfl
      | some table =>
        rw [hangsAs_of_named hfragment hempty, hparent]
        exact sameName_congr_right hone.1 table
  | predicate e =>
    have hequated := hboth.equatedTable? (hresolved e rfl) joined
    have hmentioned := hboth.joinParent? (hresolved e rfl) joined
    have hfirst := @joinParent?_isSome (known ++ own) joined e
    rw [joinParent?_own hown] at hfragment
    have hlink : (JoinCondition.link (.predicate e) [] joined columns level).parent =
        ((((e.equalities.filterMap (Scope.joinedPair? ⟨columns ++ level, []⟩ joined)).head?).map
          (·.2)).or ((e.columns.filterMap (Scope.lookup? ⟨columns ++ level, []⟩)).find? fun c =>
            !c.isOf joined)).map SourceColumn.visibleTable := rfl
    rw [hlink] at hrelation
    show fragment.hangsAs relation = (equatedTable? (known ++ own) joined e).all fun table =>
      (joinParent? (.predicate e) joined known).any fun first => sameName first table
    rw [joinParent?_own hown]
    generalize Option.map Prod.snd _ = equatedColumn at hequated hrelation
    generalize List.find? _ (e.columns.filterMap _) = mentionedColumn at hmentioned hrelation
    generalize equatedTable? (known ++ own) joined e = equated at hequated hfirst ⊢
    generalize joinParent? _ joined (known ++ own) = mentioned at hmentioned hfirst hfragment ⊢
    cases hequated with
    | none =>
      cases hmentioned with
      | none => exact hangsAs_of_previous hprevious hfragment hrelation
      | @some column table hone =>
        have hparent : relation.parent = column.visibleTable := hrelation
        rw [hangsAs_of_named hfragment (hparent ▸ hone.isEmpty), hparent]
        exact sameName_symm hone.1
    | @some column table hone =>
      have hsome := hfirst rfl
      cases hmentioned with
      | none => cases hsome
      | @some _ first _ =>
        -- the walk goes by the first equation, the cutting by what is mentioned first
        have hparent : relation.parent = column.visibleTable := hrelation
        rw [hangsAs_of_named hfragment (hparent ▸ hone.isEmpty), hparent]
        exact sameName_congr_right hone.1 first

end

/-! ## Graphs that grow -/

/-- A source as a fragment and as a relation, behind the fragments before it. -/
structure SameLink (before : List Fragment) (step : Source × JoinCondition) (fragment : Fragment)
    (relation : Relation) : Prop where
  key : fragment.relation = some relation.key
  named : relation.key ≠ ""
  parent : fragment.hangsAs relation = step.2.linksFirst step.1.label (knownFields before)
    fragment.fields (before.getLast?.bind (·.relation))

/-- The sources of a clause as relations and as fragments. -/
inductive LinkedAlike :
    List (Source × JoinCondition) → List Relation → List Fragment → Prop
  | nil : LinkedAlike [] [] []
  | snoc {steps relations fragments step relation fragment}
      (before : LinkedAlike steps relations fragments)
      (link : SameLink fragments step fragment relation) :
      LinkedAlike (steps ++ [step]) (relations ++ [relation]) (fragments ++ [fragment])

namespace LinkedAlike

variable {steps : List (Source × JoinCondition)} {relations : List Relation}
  {fragments : List Fragment}

theorem lengths (h : LinkedAlike steps relations fragments) :
    steps.length = fragments.length ∧ relations.length = fragments.length := by
  induction h with
  | nil => exact ⟨rfl, rfl⟩
  | snoc _ _ ih => simp [ih]

/-- The first relation has the key of the first fragment. -/
theorem root (h : LinkedAlike steps relations fragments) :
    (relations.head? = none ∧ fragments = []) ∨
      ∃ relation, relations.head? = some relation ∧ relation.key ≠ "" ∧
        fragments.head?.bind (·.relation) = some relation.key := by
  induction h with
  | nil => exact .inl ⟨rfl, rfl⟩
  | @snoc _ relations fragments _ relation fragment before link ih =>
    right
    rcases ih with ⟨hnone, rfl⟩ | ⟨first, hfirst, hnamed, hlabel⟩
    · obtain rfl : relations = [] := List.head?_eq_none_iff.1 hnone
      exact ⟨relation, rfl, link.named, link.key⟩
    · refine ⟨first, by simp [hfirst], hnamed, ?_⟩
      cases fragments with
      | nil => cases hlabel
      | cons fragment rest => exact hlabel

/-- Each source is linked as its own condition tells. -/
theorem link (h : LinkedAlike steps relations fragments) {place : Nat}
    {step : Source × JoinCondition} {relation : Relation} {fragment : Fragment}
    (hstep : steps[place]? = some step) (hrelation : relations[place]? = some relation)
    (hfragment : fragments[place]? = some fragment) :
    SameLink (fragments.take place) step fragment relation := by
  induction h with
  | nil => cases hstep
  | @snoc steps relations fragments _ _ _ before link ih =>
    obtain ⟨hsteps, hrelations⟩ := before.lengths
    -- an earlier source, or the one that is added
    rcases Nat.lt_or_ge place fragments.length with hlt | hge
    · rw [List.getElem?_append_left (by omega)] at hstep hrelation hfragment
      rw [List.take_append_of_le_length (by omega)]
      exact ih hstep hrelation hfragment
    · have hlast : place = fragments.length := by
        have hlt := (List.getElem?_eq_some_iff.1 hfragment).1
        simp only [List.length_append, List.length_singleton] at hlt
        omega
      subst hlast
      rw [← hsteps, List.getElem?_concat_length, Option.some.injEq] at hstep
      rw [← hrelations, List.getElem?_concat_length, Option.some.injEq] at hrelation
      rw [List.getElem?_concat_length, Option.some.injEq] at hfragment
      subst hstep hrelation hfragment
      rw [List.take_left]
      exact link

end LinkedAlike

/-- What the walk and the cutting have gathered of a clause. -/
structure SameGraph (steps : List (Source × JoinCondition)) (sources : Sources)
    (fragments : List Fragment) : Prop where
  seen : SeenAlike sources.columns (knownFields fragments)
  linked : LinkedAlike steps sources.relations fragments

theorem knownFields_concat (fragments : List Fragment) (fragment : Fragment) :
    knownFields (fragments ++ [fragment]) = knownFields fragments ++ fragment.fields := by
  simp [knownFields]

/-- A relation keeps its name wherever it hangs. -/
theorem Relation.key_hung (relation : Relation) (parent : String) (cardinality : Cardinality) :
    Relation.key { relation with parent, cardinality } = relation.key := rfl

namespace SameGraph

variable {steps : List (Source × JoinCondition)} {sources : Sources} {fragments : List Fragment}
  {source : Source} {level : Level} {fragment : Fragment}

theorem nil : SameGraph [] .empty [] := ⟨.nil, .nil⟩

/-- One more source of the list after FROM. -/
theorem add (h : SameGraph steps sources fragments) (hlabelled : source.isLabelled = true)
    (hbrought : List.Forall₂ (BroughtAlike source.label) level fragment.fields)
    (hrelation : fragment.relation = some source.label)
    (hparent : fragment.parent = fragments.head?.bind (·.relation)) :
    SameGraph (steps ++ [(source, .unconditional)]) (sources.add source level)
      (fragments ++ [fragment]) := by
  obtain ⟨relation, hof, hkey, hroot⟩ := source.exists_relation hlabelled level
  have hnamed := Source.label_ne_empty hlabelled
  constructor
  · rw [knownFields_concat]
    exact h.seen.appendAll hbrought hnamed
  · unfold Sources.add
    rw [hof]
    rcases h.linked.root with ⟨hnone, rfl⟩ | ⟨root, hsome, hrootNamed, hlabel⟩
    · -- the first source of all
      refine h.linked.snoc ⟨?_, ?_, ?_⟩
      · simpa [hnone, hkey] using hrelation
      · simpa [hnone, hkey] using hnamed
      · unfold Fragment.hangsAs Relation.isRoot
        rw [hparent]
        simp [hnone, hroot, JoinCondition.linksFirst]
    · refine h.linked.snoc ⟨?_, ?_, ?_⟩
      · simpa [hsome, Relation.key_hung, hkey] using hrelation
      · simpa [hsome, Relation.key_hung, hkey] using hnamed
      · -- a later source hangs off the first
        have hempty : root.key.isEmpty = false := by simpa using hrootNamed
        unfold Fragment.hangsAs Relation.isRoot
        rw [hparent, hlabel]
        simp [hsome, hempty, JoinCondition.linksFirst]

/-- One more join. -/
theorem join (h : SameGraph steps sources fragments) (hlabelled : source.isLabelled = true)
    (hbrought : List.Forall₂ (BroughtAlike source.label) level fragment.fields)
    (hrelation : fragment.relation = some source.label) (kind : JoinKind)
    {condition : JoinCondition}
    (hshared : ∀ names, condition = .shared names → ∀ name ∈ names,
      ∃ field ∈ knownFields fragments, sameName name field.field = true)
    (hresolved : ∀ e, condition = .predicate e → ∀ c ∈ e.columns,
      ∃ column, Scope.lookup? ⟨sources.columns ++ level, []⟩ c = some column)
    {previous : String} (hprevious : PreviousAs (fragments.getLast?.bind (·.relation)) previous)
    (hparent : fragment.parent =
      (joinParent? condition source.label (knownFields fragments)).or
        (fragments.getLast?.bind (·.relation))) :
    SameGraph (steps ++ [(source, condition)])
      (sources.join [] previous kind source condition level) (fragments ++ [fragment]) := by
  obtain ⟨relation, hof, hkey, -⟩ := source.exists_relation hlabelled level
  have hnamed := Source.label_ne_empty hlabelled
  have hown : ∀ f ∈ fragment.fields, f.table = source.label := by
    intro f hf
    obtain ⟨c, -, hone⟩ := exists_partner hbrought hf
    exact hone.table
  have hboth := h.seen.appendAll hbrought hnamed
  constructor
  · -- columns are left out only if they are shared, and nullable ones are seen as before
    have hadded : SeenAlike (sources.columns ++ condition.added level)
        (knownFields fragments ++ fragment.fields) := by
      cases condition with
      | predicate _ | unconditional => exact hboth
      | shared names =>
        refine h.seen.append hbrought hnamed fun c _ hleft => ?_
        have hin : c.isShared names = true := by simpa using hleft
        obtain ⟨name, hname, hsame⟩ := List.any_eq_true.1 hin
        obtain ⟨field, hfield, hknown⟩ := hshared names rfl name hname
        exact ⟨field, hfield, sameName_trans (sameName_symm hknown) hsame⟩
    have hnullable : ∀ l : Level, List.Forall₂ (fun c c' : SourceColumn =>
        c'.visibleTable = c.visibleTable ∧ c'.name = c.name) l (l.map SourceColumn.nullable) :=
      fun l => List.forall₂_map_right_iff.2 (List.forall₂_same.2 fun _ _ => ⟨rfl, rfl⟩)
    have hsame : ∀ l : Level, List.Forall₂ (fun c c' : SourceColumn =>
        c'.visibleTable = c.visibleTable ∧ c'.name = c.name) l l :=
      fun l => List.forall₂_same.2 fun _ _ => ⟨rfl, rfl⟩
    rw [knownFields_concat]
    refine hadded.congr (List.rel_append ?_ ?_)
    · cases kind with
      | right | full => exact hnullable _
      | inner | left | cross => exact hsame _
    · cases kind with
      | left | full => exact hnullable _
      | inner | right | cross => exact hsame _
  · unfold Sources.join
    rw [hof]
    refine h.linked.snoc ⟨?_, ?_, ?_⟩
    · rw [Relation.key_hung, hkey]
      exact hrelation
    · rw [Relation.key_hung, hkey]
      exact hnamed
    · refine hangsAs_of_join h.seen hboth hown hresolved hprevious hparent ?_
      rw [Source.visibleName_eq_label hlabelled]

end SameGraph

end QuerySignature
