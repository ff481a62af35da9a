import Mathlib.Data.List.Forall2
import QuerySignature.Dynamic.Split
import QuerySignature.Proofs.Alike

namespace QuerySignature

/-! # What a query is cut into

The fragments of a query stand in the order of its text, one for each source, item and condition. A
WHERE is cut at its ANDs. Where it is printed as a whole, an operand of AND that binds looser stands in
parentheses; on its own it has none, and put back behind an AND it is read otherwise.

- `Fragments.ofQuery_eq_ok`: what the fragments of a query are;
- `exists_sameAs_fieldsOf`, `mem_fieldsOf`: the columns that an expression reads are those of its
  references, up to the case of their names;
- `knownFields_find?`: a column without a table is the first source's that brings one of its name;
- `operandText_eq_intercalate`: a criterion as an operand of AND is its conditions as such operands;
- `Fragments.conditions_rejoin_iff`: the conditions of a query put together are its WHERE exactly if
  there is only one of them, or none of them is an OR.
-/

namespace TableField

theorem sameAs_refl (field : TableField) : field.sameAs field = true := by
  simp [sameAs]

theorem sameAs_symm {a b : TableField} (h : a.sameAs b = true) : b.sameAs a = true := by
  simp only [sameAs, Bool.and_eq_true] at h ⊢
  exact ⟨sameName_symm h.1, sameName_symm h.2⟩

theorem sameAs_trans {a b c : TableField} (h : a.sameAs b = true) (h' : b.sameAs c = true) :
    a.sameAs c = true := by
  simp only [sameAs, Bool.and_eq_true] at h h' ⊢
  exact ⟨sameName_trans h.1 h'.1, sameName_trans h.2 h'.2⟩

end TableField

/-! ## The columns that an expression reads -/

/-- The column that a reference is taken for. -/
def fieldOf? (known : List TableField) (c : ColumnRef) : Option TableField :=
  if c.qualifier.isEmpty then known.find? fun field => sameName field.field c.name
  else some ⟨c.qualifier, c.name⟩

/-- Adds the column of one more reference, unless it is there. -/
def addField (known : List TableField) (done : List TableField) (c : ColumnRef) :
    List TableField :=
  match fieldOf? known c with
  | some field => if done.any (·.sameAs field) then done else done ++ [field]
  | none => done

theorem fieldsOf_eq (known : List TableField) (e : Expr) :
    fieldsOf known e = e.columns.foldl (addField known) [] := rfl

section

variable {known done : List TableField} {field : TableField} {c : ColumnRef} {e : Expr}

theorem subset_addField : done ⊆ addField known done c := by
  unfold addField
  split
  · split
    · exact List.Subset.refl done
    · exact List.subset_append_left _ _
  · exact List.Subset.refl done

theorem subset_foldl_addField (cs : List ColumnRef) (done : List TableField) :
    done ⊆ cs.foldl (addField known) done := by
  induction cs generalizing done with
  | nil => exact List.Subset.refl done
  | cons c rest ih => exact List.Subset.trans subset_addField (ih (addField known done c))

theorem exists_sameAs_addField (done : List TableField) (h : fieldOf? known c = some field) :
    ∃ found ∈ addField known done c, found.sameAs field = true := by
  unfold addField
  simp only [h]
  split
  case isTrue hany => exact List.any_eq_true.1 hany
  case isFalse => exact ⟨field, by simp, field.sameAs_refl⟩

theorem exists_sameAs_foldl {cs : List ColumnRef} (hc : c ∈ cs)
    (h : fieldOf? known c = some field) :
    ∃ found ∈ cs.foldl (addField known) done, found.sameAs field = true := by
  induction cs generalizing done with
  | nil => nomatch hc
  | cons first rest ih =>
    rcases List.mem_cons.1 hc with rfl | hrest
    · obtain ⟨found, hfound, hsame⟩ := exists_sameAs_addField done h
      exact ⟨found, subset_foldl_addField rest _ hfound, hsame⟩
    · exact ih hrest

theorem mem_foldl_addField {cs : List ColumnRef} (h : field ∈ cs.foldl (addField known) done) :
    field ∈ done ∨ ∃ c ∈ cs, fieldOf? known c = some field := by
  induction cs generalizing done with
  | nil => exact .inl h
  | cons first rest ih =>
    rcases ih h with hadded | ⟨c, hc, hfield⟩
    · unfold addField at hadded
      split at hadded
      case h_1 own hown =>
        split at hadded
        case isTrue => exact .inl hadded
        case isFalse =>
          rcases List.mem_append.1 hadded with hold | hnew
          · exact .inl hold
          · obtain rfl := List.mem_singleton.1 hnew
            exact .inr ⟨first, List.mem_cons_self, hown⟩
      case h_2 => exact .inl hadded
    · exact .inr ⟨c, List.mem_cons_of_mem _ hc, hfield⟩

/-- The column of a reference is read, maybe under names in another case. -/
theorem exists_sameAs_fieldsOf (hc : c ∈ e.columns) (h : fieldOf? known c = some field) :
    ∃ found ∈ fieldsOf known e, found.sameAs field = true := by
  rw [fieldsOf_eq]
  exact exists_sameAs_foldl hc h

/-- Nothing is read but what a reference is taken for. -/
theorem mem_fieldsOf (h : field ∈ fieldsOf known e) :
    ∃ c ∈ e.columns, fieldOf? known c = some field := by
  rw [fieldsOf_eq] at h
  exact (mem_foldl_addField h).resolve_left List.not_mem_nil

end

/-- The first known column with a property belongs to the first source that brings one. -/
theorem knownFields_find? {sources : List Fragment} {p : TableField → Bool} {k : Nat}
    {fragment : Fragment} (hat : sources[k]? = some fragment) {own : TableField}
    (hown : own ∈ fragment.fields) (hp : p own = true)
    (hbefore : ∀ j < k, ∀ earlier, sources[j]? = some earlier →
      ∀ field ∈ earlier.fields, p field = false) :
    ∃ field ∈ fragment.fields, (knownFields sources).find? p = some field := by
  induction sources generalizing k with
  | nil => nomatch hat
  | cons first rest ih =>
    unfold knownFields
    rw [List.flatMap_cons, List.find?_append]
    cases k with
    | zero =>
      obtain rfl : first = fragment := by simpa using hat
      obtain ⟨field, hfield⟩ := Option.isSome_iff_exists.1 (List.find?_isSome.2 ⟨own, hown, hp⟩)
      exact ⟨field, List.mem_of_find?_eq_some hfield, by simp [hfield]⟩
    | succ k =>
      have hnone : first.fields.find? p = none := by
        refine List.find?_eq_none.2 fun field hfield => ?_
        simp [hbefore 0 (by omega) first rfl field hfield]
      rw [hnone, Option.none_or]
      exact ih hat fun j hj earlier hearlier => hbefore (j + 1) (by omega) earlier hearlier

/-! ## Sources -/

/-- A fragment brings a source: under its label, with the columns that are read off it. -/
structure BringsSource (schema : Schema) (ctes : List Cte) (source : Source)
    (fragment : Fragment) : Prop where
  relation : fragment.relation = some source.label
  fields : sourceFields schema ctes source = .ok fragment.fields

theorem bringsSource_of_sources {schema : Schema} {names : List String} {ctes : List Cte}
    {before xs : List Source} {done made : List Fragment}
    (hdone : List.Forall₂ (BringsSource schema ctes) before done)
    (h : sourceFragments schema names ctes done xs = .ok made) :
    List.Forall₂ (BringsSource schema ctes) (before ++ xs) made := by
  induction xs generalizing before done with
  | nil =>
    cases h
    simpa using hdone
  | cons x rest ih =>
    unfold sourceFragments at h
    obtain ⟨fields, hfields, h⟩ := bind_eq_ok.1 h
    have hnext := ih (List.rel_append hdone (.cons ⟨rfl, hfields⟩ .nil)) h
    simpa using hnext

theorem bringsSource_of_joins {schema : Schema} {names : List String} {ctes : List Cte}
    {before : List Source} {js : List Join} {done made : List Fragment}
    (hdone : List.Forall₂ (BringsSource schema ctes) before done)
    (h : joinFragments schema names ctes done js = .ok made) :
    List.Forall₂ (BringsSource schema ctes) (before ++ js.map (·.source)) made := by
  induction js generalizing before done with
  | nil =>
    cases h
    simpa using hdone
  | cons j rest ih =>
    unfold joinFragments at h
    obtain ⟨fields, hfields, h⟩ := bind_eq_ok.1 h
    have hnext := ih (List.rel_append hdone (.cons ⟨rfl, hfields⟩ .nil)) h
    simpa using hnext

/-! ## Queries -/

/-- The conditions that the WHERE of a branch joins with AND. -/
def Branch.conditions (branch : Branch) : List Expr :=
  (branch.criteria.map Expr.conjuncts).getD []

/-- The sources of a branch, listed and joined. -/
def Branch.allSources (branch : Branch) : List Source :=
  branch.sources ++ branch.joins.map (·.source)

/-- A query is cut at the sources of its first branch, and everything else is cut by these. -/
theorem Fragments.sources_of_ofQuery {schema : Schema} {names : List String} {q : Select}
    {branch : Branch} {rest : List Branch} (hbranch : q.branches = branch :: rest)
    {fragments : Fragments} (h : Fragments.ofQuery schema names q = .ok fragments) :
    ∃ listed, sourceFragments schema names q.ctes [] branch.sources = .ok listed ∧
      joinFragments schema names q.ctes listed branch.joins = .ok fragments.sources ∧
      fragments.ctes = q.ctes.map (cteFragment names branch.allSources) ∧
      fragments.items = branch.items.map (itemFragment names fragments.sources) ∧
      fragments.conditions =
        branch.conditions.map (conditionFragment names (knownFields fragments.sources)) := by
  unfold Fragments.ofQuery at h
  simp only [hbranch] at h
  obtain ⟨listed, hlisted, h⟩ := bind_eq_ok.1 h
  obtain ⟨sources, hjoined, h⟩ := bind_eq_ok.1 h
  cases h
  exact ⟨listed, hlisted, hjoined, rfl, rfl, rfl⟩

/-- A query is cut into a fragment for each source, and one for each item and condition of its first
branch, which reads these. -/
theorem Fragments.ofQuery_eq_ok {schema : Schema} {names : List String} {q : Select}
    {branch : Branch} {rest : List Branch} (hbranch : q.branches = branch :: rest)
    {fragments : Fragments}
    (h : Fragments.ofQuery schema names q = .ok fragments) :
    List.Forall₂ (BringsSource schema q.ctes) branch.allSources fragments.sources ∧
      fragments.items = branch.items.map (itemFragment names fragments.sources) ∧
      fragments.conditions =
        branch.conditions.map (conditionFragment names (knownFields fragments.sources)) := by
  obtain ⟨listed, hlisted, hjoined, -, hitems, hconditions⟩ := sources_of_ofQuery hbranch h
  exact ⟨bringsSource_of_joins (bringsSource_of_sources .nil hlisted) hjoined, hitems, hconditions⟩

/-! ## Conditions put together again -/

namespace Expr

/-- An expression as text, where it stands as an operand of AND. -/
def andOperand (e : Expr) : String := operandText 2 e.precedence e.text

theorem andOperand_of_le {e : Expr} (h : 2 ≤ e.precedence) : e.andOperand = e.text :=
  if_neg (Nat.not_lt.2 h)

theorem length_andOperand (e : Expr) :
    e.andOperand.length = e.text.length + if e.precedence < 2 then 2 else 0 := by
  unfold andOperand operandText
  split
  · simp only [parens, String.length_append]
    show 1 + e.text.length + 1 = _
    omega
  · rfl

theorem conjuncts_ne_nil (e : Expr) : e.conjuncts ≠ [] := by
  fun_induction conjuncts e with
  | case1 left right ihl ihr => simp [ihl]
  | case2 e => simp

/-- Only an AND has several operands at its top. -/
theorem conjuncts_eq_singleton {e : Expr} (h : ∀ left right, e ≠ .and left right) :
    e.conjuncts = [e] := by
  cases e with
  | and left right => exact absurd rfl (h left right)
  | _ => rfl

/-- A criterion as an operand of AND is its conditions as operands of AND. -/
theorem andOperand_eq_intercalate (e : Expr) :
    e.andOperand = " AND ".intercalate (e.conjuncts.map andOperand) := by
  fun_induction conjuncts e with
  | case1 left right ihl ihr =>
    have htext : (Expr.and left right).andOperand =
        left.andOperand ++ " AND " ++ right.andOperand := rfl
    rw [htext, ihl, ihr, List.map_append, String.intercalate_append_of_ne_nil]
    · simp [conjuncts_ne_nil]
    · simp [conjuncts_ne_nil]
  | case2 e => simp

/-- Parentheses are what the operands of AND have more than the conditions on their own. -/
theorem length_intercalate_andOperand (separator : String) (cs : List Expr) :
    (separator.intercalate (cs.map andOperand)).length =
      (separator.intercalate (cs.map text)).length +
        2 * (cs.filter fun c => decide (c.precedence < 2)).length := by
  induction cs with
  | nil => rfl
  | cons c rest ih =>
    have hhead := length_andOperand c
    -- a separator stands before every condition but the first
    cases rest with
    | nil =>
      simp only [List.map_cons, List.map_nil, String.intercalate_singleton]
      rw [List.filter_cons, hhead]
      by_cases hloose : c.precedence < 2
      · simp [hloose]
      · simp [hloose]
    | cons d rest =>
      simp only [List.map_cons, String.intercalate_cons_cons, String.length_append] at ih ⊢
      rw [List.filter_cons, ih, hhead]
      by_cases hloose : c.precedence < 2
      · simp [hloose]
        omega
      · simp [hloose]
        omega

/-- The conditions of a criterion, put together, are its text exactly if there is only one, or each
stands without parentheses as an operand of AND. -/
theorem intercalate_conjuncts_eq_text_iff (e : Expr) :
    " AND ".intercalate (e.conjuncts.map text) = e.text ↔
      e.conjuncts.length = 1 ∨ ∀ c ∈ e.conjuncts, 2 ≤ c.precedence := by
  by_cases hand : ∃ left right, e = .and left right
  · obtain ⟨left, right, rfl⟩ := hand
    have htext : (Expr.and left right).text =
        " AND ".intercalate ((Expr.and left right).conjuncts.map andOperand) :=
      andOperand_eq_intercalate (.and left right)
    have hmany : (Expr.and left right).conjuncts.length ≠ 1 := by
      have hl := List.length_pos_iff.2 left.conjuncts_ne_nil
      have hr := List.length_pos_iff.2 right.conjuncts_ne_nil
      simp only [conjuncts, List.length_append]
      omega
    rw [htext]
    constructor
    · intro heq
      refine .inr fun c hc => ?_
      -- a pair of parentheses that is missing would make the text shorter
      have hlength := length_intercalate_andOperand " AND " (Expr.and left right).conjuncts
      rw [← heq] at hlength
      have hnone : ((Expr.and left right).conjuncts.filter
          fun c => decide (c.precedence < 2)) = [] := List.length_eq_zero_iff.1 (by omega)
      have hnot := List.filter_eq_nil_iff.1 hnone c hc
      exact Nat.not_lt.1 fun hloose => hnot (decide_eq_true hloose)
    · rintro (hone | htight)
      · exact absurd hone hmany
      · exact congrArg _ (List.map_congr_left fun c hc => (andOperand_of_le (htight c hc)).symm)
  · have hsingle : e.conjuncts = [e] :=
      conjuncts_eq_singleton fun left right heq => hand ⟨left, right, heq⟩
    simp [hsingle]

end Expr

/-- The text of a condition without the AND in front of it. -/
def withoutAnd (text : String) : String :=
  if "AND ".toList.isPrefixOf text.toList then String.ofList (text.toList.drop 4) else text

theorem withoutAnd_append (text : String) : withoutAnd ("AND " ++ text) = text := by
  have hfront : ("AND " ++ text).toList = 'A' :: 'N' :: 'D' :: ' ' :: text.toList := by
    rw [String.toList_append]
    rfl
  have hprefix : "AND ".toList.isPrefixOf ("AND " ++ text).toList = true := by
    rw [List.isPrefixOf_iff_prefix, String.toList_append]
    exact List.prefix_append _ _
  unfold withoutAnd
  rw [if_pos hprefix, hfront]
  exact String.ofList_toList

/-- The conditions of a query, each without the AND in front of it and put together by AND, are its
WHERE exactly if there is only one of them, or none binds looser than AND. -/
theorem Fragments.conditions_rejoin_iff {schema : Schema} {names : List String} {q : Select}
    {branch : Branch} {rest : List Branch} (hbranch : q.branches = branch :: rest) {e : Expr}
    (hcriteria : branch.criteria = some e) {fragments : Fragments}
    (hcut : Fragments.ofQuery schema names q = .ok fragments) :
    " AND ".intercalate (fragments.conditions.map fun c => withoutAnd c.text) = e.text ↔
      e.conjuncts.length = 1 ∨ ∀ c ∈ e.conjuncts, 2 ≤ c.precedence := by
  have hconditions : branch.conditions = e.conjuncts := by simp [Branch.conditions, hcriteria]
  have htexts : (fragments.conditions.map fun c => withoutAnd c.text) =
      e.conjuncts.map Expr.text := by
    rw [(ofQuery_eq_ok hbranch hcut).2.2, hconditions, List.map_map]
    exact List.map_congr_left fun c _ => withoutAnd_append c.text
  rw [htexts, e.intercalate_conjuncts_eq_text_iff]

/-- A schema of one table with two columns. -/
def valuesById : Schema :=
  ⟨[("mytable1", [⟨"mytable1", "id", .int, .primary, true⟩,
    ⟨"mytable1", "value", .int, .plain, false⟩])]⟩

/-- `SELECT id FROM mytable1` with a WHERE. -/
def idsWhere (criteria : Expr) : Select :=
  ⟨[], [⟨false, [.expr (.column ⟨none, "id"⟩) none], [.table "mytable1" none], [], some criteria,
    [], none⟩], [], none⟩

/-- `id = 1 OR value = 2`. -/
def firstOrTwo : Expr :=
  .or (.compare .eq (.column ⟨none, "id"⟩) (.literal (.int 1)))
    (.compare .eq (.column ⟨none, "value"⟩) (.literal (.int 2)))

/-- `value < 3`. -/
def belowThree : Expr := .compare .lt (.column ⟨none, "value"⟩) (.literal (.int 3))

/-- Behind `NOT` and in its own parentheses, an OR is put together again. -/
theorem conditions_rejoin_iff_notBelowThree : ∃ fragments,
    Fragments.ofQuery valuesById [] (idsWhere (.and (.paren firstOrTwo) (.not belowThree))) =
      .ok fragments ∧
    " AND ".intercalate (fragments.conditions.map fun c => withoutAnd c.text) =
      "(id = 1 OR value = 2) AND NOT value < 3" := by
  obtain ⟨fragments, hcut⟩ := exists_of_isOk (x := Fragments.ofQuery valuesById []
    (idsWhere (.and (.paren firstOrTwo) (.not belowThree)))) (by decide +kernel)
  refine ⟨fragments, hcut, ?_⟩
  have htext : (Expr.and (.paren firstOrTwo) (.not belowThree)).text =
      "(id = 1 OR value = 2) AND NOT value < 3" := by decide +kernel
  rw [← htext]
  refine (Fragments.conditions_rejoin_iff rfl rfl hcut).2 (.inr ?_)
  intro c hc
  rcases List.mem_cons.1 hc with rfl | hc
  · decide
  · rw [List.mem_singleton.1 hc]
    decide

/-- Without parentheses of its own, an OR loses those that the AND gives it: the conditions of
`(id = 1 OR value = 2) AND value < 3`, put together, are another criterion. -/
theorem or_condition_loses_parentheses : ∃ fragments,
    Fragments.ofQuery valuesById [] (idsWhere (.and firstOrTwo belowThree)) = .ok fragments ∧
    (Expr.and firstOrTwo belowThree).text = "(id = 1 OR value = 2) AND value < 3" ∧
    " AND ".intercalate (fragments.conditions.map fun c => withoutAnd c.text) =
      "id = 1 OR value = 2 AND value < 3" :=
  ⟨_, rfl, by decide +kernel, by decide +kernel⟩

end QuerySignature
