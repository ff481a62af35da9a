import QuerySignature.Proofs.Fragments.Cut
import QuerySignature.Proofs.Fragments.Reduced
import QuerySignature.Proofs.Printed.Scanned

namespace QuerySignature

/-! # Places of parameters in fragments

The fragments of a query hold the places of their parameters in a list of names. When that list
comes from the text of the query, a fragment has a place for each named placeholder in the part of
the tree that it prints, and no other.

- `Fragment.Prints`: a fragment with the places of the parameters of some pieces;
- `Fragments.texts_of_ofQuery`: the fragments of a query are the texts of its parts;
- `Select.named_parameters_found`: scanning the text and reading the tree find the same parameters.
-/

/-! ## Places -/

/-- Names that are all in a list can be read back from their places. -/
theorem namesAt_places {names found : List String} (h : found ⊆ names) :
    namesAt names (found.filterMap fun name => names.findIdx? (· == name)) = found := by
  have hread : ∀ name ∈ found, (names.findIdx? (· == name)).bind (names[·]?) = some name := by
    intro name hname
    have hany : names.any (· == name) = true :=
      List.any_eq_true.2 ⟨name, h hname, beq_self_eq_true name⟩
    obtain ⟨index, hindex⟩ := Option.isSome_iff_exists.1 (List.findIdx?_isSome.trans hany)
    obtain ⟨hlt, hsame, -⟩ := List.findIdx?_eq_some_iff_getElem.1 hindex
    rw [hindex, Option.bind_some, List.getElem?_eq_getElem hlt, eq_of_beq hsame]
  unfold namesAt
  rw [List.filterMap_filterMap, List.filterMap_congr hread, List.filterMap_some]

/-- What a fragment may start with in front of the part of the tree that it prints. -/
def fragmentLeads : List String := ["", "FROM ", ", ", "AND "]

/-- A fragment is the text of some pieces, with the places of the parameters in it. -/
structure Fragment.TextOf (names : List String) (pieces : List Piece) (fragment : Fragment) :
    Prop where
  text : ∃ lead ∈ fragmentLeads, fragment.text = lead ++ textOf pieces
  places : fragment.parameters = parameterIndexes fragment.text names

/-- A fragment prints some pieces, and has the places of just the named placeholders among them. -/
structure Fragment.Prints (names : List String) (pieces : List Piece) (fragment : Fragment) :
    Prop where
  text : ∃ lead ∈ fragmentLeads, fragment.text = lead ++ textOf pieces
  inRange : ∀ index ∈ fragment.parameters, index < names.length
  denotes : namesAt names fragment.parameters = distinct (namedOf pieces)

/-- The parameters of the text are the placeholders of the pieces. -/
theorem Fragment.TextOf.prints {names : List String} {pieces : List Piece} {fragment : Fragment}
    (h : fragment.TextOf names pieces) (hscanned : Scanned pieces)
    (hnames : namedOf pieces ⊆ names) : fragment.Prints names pieces := by
  have hopens : ∀ lead ∈ fragmentLeads, Opens lead := by decide
  obtain ⟨lead, hlead, htext⟩ := h.text
  have hscan : namedParameters fragment.text = distinct (namedOf pieces) := by
    rw [htext]
    exact (hscanned.opening (hopens lead hlead)).namedParameters_eq
  refine ⟨h.text, fun index hindex => ?_, ?_⟩
  · rw [h.places] at hindex
    exact lt_length_of_parameterIndexes hindex
  · rw [h.places, parameterIndexes, hscan]
    exact namesAt_places fun name hname => hnames (mem_distinct.1 hname)

theorem prints_of_texts {names : List String} {parts : List (List Piece)}
    {fragments : List Fragment} (h : List.Forall₂ (Fragment.TextOf names) parts fragments)
    (hparts : ∀ part ∈ parts, Scanned part ∧ namedOf part ⊆ names) :
    List.Forall₂ (Fragment.Prints names) parts fragments := by
  induction h with
  | nil => exact .nil
  | cons hfirst _ ih =>
    obtain ⟨⟨hscanned, hnames⟩, hrest⟩ := List.forall_mem_cons.1 hparts
    exact .cons (hfirst.prints hscanned hnames) (ih hrest)

/-! ## Placeholders of parts -/

@[simp] theorem namedOf_separated (separator : String) (parts : List (List Piece)) :
    namedOf (separated separator parts) = parts.flatMap namedOf := by
  fun_induction separated separator parts with
  | case1 => rfl
  | case2 part => simp
  | case3 part next rest ih => simp [ih]

@[simp] theorem namedOf_clausePieces (opening : String) (parts : List (List Piece))
    (closing : String) : namedOf (clausePieces opening parts closing) = parts.flatMap namedOf := by
  unfold clausePieces
  cases parts <;> simp

@[simp] theorem namedOf_operandPieces (place precedence : Nat) (pieces : List Piece) :
    namedOf (operandPieces place precedence pieces) = namedOf pieces := by
  unfold operandPieces
  split <;> simp

/-- A join in pieces. -/
def Join.pieces : Join → List Piece
  | ⟨kind, source, condition⟩ => .words (kind.text ++ " ") :: source.pieces ++ condition.pieces

theorem Join.textOf_pieces (j : Join) : textOf j.pieces = j.text := by
  obtain ⟨kind, source, condition⟩ := j
  simp [Join.pieces, Join.text, Piece.text, source.textOf_pieces, condition.textOf_pieces,
    String.append_assoc]

/-- The sources of a branch in pieces, each with its join. -/
def Branch.fromPieces (b : Branch) : List (List Piece) :=
  sourcePieces b.sources ++ b.joins.map Join.pieces

section

variable {q : Select} {branch : Branch} {rest : List Branch}

theorem namedOf_cte_subset {part : List Piece} (h : part ∈ ctePieces q.ctes) :
    namedOf part ⊆ namedOf q.pieces := by
  obtain ⟨ctes, branches, order, limit⟩ := q
  intro name hname
  simp only [Select.pieces, namedOf_append, namedOf_clausePieces, List.append_assoc]
  exact List.mem_append_left _ (List.mem_flatMap.2 ⟨part, h, hname⟩)

theorem namedOf_branch_subset (hbranch : q.branches = branch :: rest) :
    namedOf branch.pieces ⊆ namedOf q.pieces := by
  obtain ⟨ctes, branches, order, limit⟩ := q
  intro name hname
  obtain rfl : branches = branch :: rest := hbranch
  simp only [Select.pieces, namedOf_append, namedOf_separated, branchPieces, List.append_assoc]
  refine List.mem_append_right _ (List.mem_append_left _ ?_)
  exact List.mem_flatMap.2 ⟨branch.pieces, .head _, hname⟩

theorem namedOf_item_subset {part : List Piece} (h : part ∈ itemPieces branch.items) :
    namedOf part ⊆ namedOf branch.pieces := by
  obtain ⟨distinct, items, sources, joins, criteria, group, having⟩ := branch
  intro name hname
  simp only [Branch.pieces, List.cons_append, namedOf_words, namedOf_append, namedOf_separated,
    List.append_assoc]
  exact List.mem_append_left _ (List.mem_flatMap.2 ⟨part, h, hname⟩)

theorem namedOf_join_subset {joins : List Join} {j : Join} (h : j ∈ joins) :
    namedOf j.pieces ⊆ namedOf (joinPieces joins) := by
  induction joins with
  | nil => exact absurd h List.not_mem_nil
  | cons first others ih =>
    obtain ⟨kind, source, condition⟩ := first
    simp only [joinPieces, List.cons_append, namedOf_words, namedOf_append]
    rcases List.mem_cons.1 h with rfl | h
    · simp only [Join.pieces, List.cons_append, namedOf_words, namedOf_append]
      exact List.subset_append_left _ _
    · exact List.Subset.trans (ih h) (List.subset_append_right _ _)

theorem namedOf_from_subset {part : List Piece} (h : part ∈ branch.fromPieces) :
    namedOf part ⊆ namedOf branch.pieces := by
  obtain ⟨distinct, items, sources, joins, criteria, group, having⟩ := branch
  intro name hname
  simp only [Branch.pieces, List.cons_append, namedOf_words, namedOf_append, namedOf_separated,
    namedOf_clausePieces, List.append_assoc]
  refine List.mem_append_right _ ?_
  rcases List.mem_append.1 h with h | h
  · exact List.mem_append_left _ (List.mem_flatMap.2 ⟨part, h, hname⟩)
  · obtain ⟨j, hj, rfl⟩ := List.mem_map.1 h
    exact List.mem_append_right _ (List.mem_append_left _ (namedOf_join_subset hj hname))

theorem namedOf_conjunct_subset {e condition : Expr} (h : condition ∈ e.conjuncts) :
    namedOf condition.pieces ⊆ namedOf e.pieces := by
  fun_induction Expr.conjuncts e with
  | case1 left right ihl ihr =>
    simp only [Expr.pieces, namedOf_append, namedOf_words, namedOf_operandPieces]
    rcases List.mem_append.1 h with h | h
    · exact List.Subset.trans (ihl h) (List.subset_append_left _ _)
    · exact List.Subset.trans (ihr h) (List.subset_append_right _ _)
  | case2 e _ =>
    rw [List.mem_singleton.1 h]
    exact List.Subset.refl _

theorem namedOf_condition_subset {condition : Expr} (h : condition ∈ branch.conditions) :
    namedOf condition.pieces ⊆ namedOf branch.pieces := by
  obtain ⟨distinct, items, sources, joins, criteria, group, having⟩ := branch
  cases criteria with
  | none => exact absurd h List.not_mem_nil
  | some e =>
    intro name hname
    simp only [Branch.pieces, List.cons_append, namedOf_words, namedOf_append, optionPieces,
      List.append_assoc]
    refine List.mem_append_right _ (List.mem_append_right _ (List.mem_append_right _ ?_))
    exact List.mem_append_left _ (namedOf_conjunct_subset h hname)

end

/-! ## Parts that are scanned -/

theorem spelled_conjunct {N : Naming} {e condition : Expr} (he : e.Spelled N)
    (h : condition ∈ e.conjuncts) : condition.Spelled N := by
  fun_induction Expr.conjuncts e with
  | case1 left right ihl ihr =>
    rcases List.mem_append.1 h with h | h
    · exact ihl he.1 h
    · exact ihr he.2 h
  | case2 e _ =>
    rw [List.mem_singleton.1 h]
    exact he

theorem scanned_condition {branch : Branch} (hbranch : branch.Spelled plainNaming)
    {condition : Expr} (h : condition ∈ branch.conditions) : Scanned condition.pieces := by
  obtain ⟨distinct, items, sources, joins, criteria, group, having⟩ := branch
  obtain ⟨-, -, -, hcriteria, -, -⟩ := hbranch
  cases criteria with
  | none => exact absurd h List.not_mem_nil
  | some e => exact condition.scanned (spelled_conjunct hcriteria h)

theorem scanned_join {joins : List Join} (hjoins : SpelledJoins plainNaming joins) {j : Join}
    (h : j ∈ joins) : Scanned j.pieces := by
  induction joins with
  | nil => exact absurd h List.not_mem_nil
  | cons first others ih =>
    obtain ⟨kind, source, condition⟩ := first
    rcases List.mem_cons.1 h with rfl | h
    · have hkind : Opens (kind.text ++ " ") := by cases kind <;> decide
      have hsource := (source.scanned hjoins.1).opening hkind
      exact hsource.append (.condition hjoins.2.1) (condition.scanned hjoins.2.1)
    · exact ih hjoins.2.2 h

theorem scanned_from {branch : Branch} (hbranch : branch.Spelled plainNaming) {part : List Piece}
    (h : part ∈ branch.fromPieces) : Scanned part := by
  obtain ⟨distinct, items, sources, joins, criteria, group, having⟩ := branch
  obtain ⟨-, hsources, hjoins, -, -, -⟩ := hbranch
  rcases List.mem_append.1 h with h | h
  · exact scanned_sources sources hsources part h
  · obtain ⟨j, hj, rfl⟩ := List.mem_map.1 h
    exact scanned_join hjoins hj

/-! ## Fragments -/

theorem texts_of_ctes (names : List String) (sources : List Source) (ctes : List Cte) :
    List.Forall₂ (Fragment.TextOf names) (ctePieces ctes)
      (ctes.map (cteFragment names sources)) := by
  induction ctes with
  | nil => exact .nil
  | cons cte rest ih =>
    obtain ⟨name, query⟩ := cte
    refine .cons ⟨⟨"", by decide, ?_⟩, rfl⟩ ih
    simp [cteFragment, Cte.text, Piece.text, query.textOf_pieces, String.append_assoc]

theorem texts_of_items (names : List String) (sources : List Fragment) (items : List Item) :
    List.Forall₂ (Fragment.TextOf names) (itemPieces items)
      (items.map (itemFragment names sources)) := by
  induction items with
  | nil => exact .nil
  | cons item rest ih =>
    refine .cons ⟨⟨"", by decide, ?_⟩, ?_⟩ ih
    · rw [String.empty_append, item.textOf_pieces]
      cases item <;> rfl
    · cases item <;> rfl

theorem texts_of_sources {schema : Schema} {names : List String} {ctes : List Cte}
    {before : List (List Piece)} {xs : List Source} {done made : List Fragment}
    (hdone : List.Forall₂ (Fragment.TextOf names) before done)
    (h : sourceFragments schema names ctes done xs = .ok made) :
    List.Forall₂ (Fragment.TextOf names) (before ++ sourcePieces xs) made := by
  induction xs generalizing before done with
  | nil =>
    cases h
    simpa [sourcePieces] using hdone
  | cons x rest ih =>
    unfold sourceFragments at h
    obtain ⟨fields, -, h⟩ := bind_eq_ok.1 h
    -- the first source follows FROM, the others a comma
    have hlead : (if done.isEmpty then "FROM " else ", ") ∈ fragmentLeads := by split <;> decide
    have hfirst : Fragment.TextOf names x.pieces {
        text := (if done.isEmpty then "FROM " else ", ") ++ x.text
        relation := some x.label
        parent := done.head?.bind (·.relation)
        fields
        parameters := parameterIndexes
          ((if done.isEmpty then "FROM " else ", ") ++ x.text) names } :=
      ⟨⟨_, hlead, by rw [x.textOf_pieces]⟩, rfl⟩
    have hnext := ih (List.rel_append hdone (.cons hfirst .nil)) h
    simpa [sourcePieces] using hnext

theorem texts_of_joins {schema : Schema} {names : List String} {ctes : List Cte}
    {before : List (List Piece)} {js : List Join} {done made : List Fragment}
    (hdone : List.Forall₂ (Fragment.TextOf names) before done)
    (h : joinFragments schema names ctes done js = .ok made) :
    List.Forall₂ (Fragment.TextOf names) (before ++ js.map Join.pieces) made := by
  induction js generalizing before done with
  | nil =>
    cases h
    simpa using hdone
  | cons j rest ih =>
    unfold joinFragments at h
    obtain ⟨fields, -, h⟩ := bind_eq_ok.1 h
    have htext : j.text = "" ++ textOf j.pieces := by rw [String.empty_append, j.textOf_pieces]
    have hnext := ih (List.rel_append hdone (.cons ⟨⟨"", by decide, htext⟩, rfl⟩ .nil)) h
    simpa using hnext

theorem texts_of_conditions (names : List String) (known : List TableField)
    (conditions : List Expr) :
    List.Forall₂ (Fragment.TextOf names) (conditions.map Expr.pieces)
      (conditions.map (conditionFragment names known)) := by
  induction conditions with
  | nil => exact .nil
  | cons e rest ih =>
    refine .cons ⟨⟨"AND ", by decide, ?_⟩, rfl⟩ ih
    rw [e.textOf_pieces]
    rfl

/-- The fragments of a query are the texts of its common tables, and of the parts of its first
branch. -/
theorem Fragments.texts_of_ofQuery {schema : Schema} {names : List String} {q : Select}
    {branch : Branch} {rest : List Branch} (hbranch : q.branches = branch :: rest)
    {fragments : Fragments} (h : Fragments.ofQuery schema names q = .ok fragments) :
    List.Forall₂ (Fragment.TextOf names) (ctePieces q.ctes) fragments.ctes ∧
      List.Forall₂ (Fragment.TextOf names) (itemPieces branch.items) fragments.items ∧
      List.Forall₂ (Fragment.TextOf names) branch.fromPieces fragments.sources ∧
      List.Forall₂ (Fragment.TextOf names) (branch.conditions.map Expr.pieces)
        fragments.conditions ∧
      ∀ condition ∈ fragments.conditions, condition.conditionOn = condition.parameters := by
  obtain ⟨listed, hlisted, hjoined, hctes, hitems, hconditions⟩ :=
    Fragments.sources_of_ofQuery hbranch h
  rw [hctes, hitems, hconditions]
  refine ⟨texts_of_ctes names _ q.ctes, texts_of_items names _ _, ?_, ?_, ?_⟩
  · have hnone : List.Forall₂ (Fragment.TextOf names) [] [] := .nil
    exact texts_of_joins (texts_of_sources hnone hlisted) hjoined
  · exact texts_of_conditions names _ branch.conditions
  · intro condition hcondition
    obtain ⟨e, -, rfl⟩ := List.mem_map.1 hcondition
    rfl

/-- Scanning the text of a query finds the names of its placeholders, each once, in the order of the
pieces that the text is made of. With these names, every fragment of the query has the places of the
named placeholders in the part of the tree that it prints, each once, and no others; and a condition
depends on all of its parameters. -/
theorem Select.named_parameters_found {q : Select} (hq : q.Spelled plainNaming) :
    textOf q.pieces = q.text ∧ namedParameters q.text = distinct (namedOf q.pieces) ∧
      ∀ (schema : Schema) (fragments : Fragments),
        Fragments.ofQuery schema (namedParameters q.text) q = .ok fragments →
          ∃ branch rest, q.branches = branch :: rest ∧
            List.Forall₂ (Fragment.Prints (namedParameters q.text)) (ctePieces q.ctes)
              fragments.ctes ∧
            List.Forall₂ (Fragment.Prints (namedParameters q.text)) (itemPieces branch.items)
              fragments.items ∧
            List.Forall₂ (Fragment.Prints (namedParameters q.text)) branch.fromPieces
              fragments.sources ∧
            List.Forall₂ (Fragment.Prints (namedParameters q.text))
              (branch.conditions.map Expr.pieces) fragments.conditions ∧
            ∀ condition ∈ fragments.conditions, condition.conditionOn = condition.parameters := by
  have hnames := q.namedParameters_text hq
  refine ⟨q.textOf_pieces, hnames, fun schema fragments hcut => ?_⟩
  obtain ⟨branch, rest, hbranch⟩ : ∃ branch rest, q.branches = branch :: rest := by
    cases hbranches : q.branches with
    | nil =>
      simp only [Fragments.ofQuery, hbranches] at hcut
      cases hcut
    | cons branch rest => exact ⟨branch, rest, rfl⟩
  obtain ⟨hctes, hitems, hsources, hconditions, hdepends⟩ :=
    Fragments.texts_of_ofQuery hbranch hcut
  have hsub : ∀ {part : List Piece}, namedOf part ⊆ namedOf q.pieces →
      namedOf part ⊆ namedParameters q.text := by
    intro part hpart name hname
    rw [hnames]
    exact mem_distinct.2 (hpart hname)
  have hbranch_sub := namedOf_branch_subset hbranch
  obtain ⟨ctes, branches, order, limit⟩ := q
  obtain rfl : branches = branch :: rest := hbranch
  obtain ⟨hspelledCtes, ⟨hspelled, -⟩, -, -⟩ := hq
  refine ⟨branch, rest, rfl, ?_, ?_, ?_, ?_, hdepends⟩
  · refine prints_of_texts hctes fun part hpart => ?_
    exact ⟨scanned_ctes ctes hspelledCtes part hpart, hsub (namedOf_cte_subset hpart)⟩
  · refine prints_of_texts hitems fun part hpart => ?_
    refine ⟨?_, hsub (List.Subset.trans (namedOf_item_subset hpart) hbranch_sub)⟩
    obtain ⟨distinct, items, sources, joins, criteria, group, having⟩ := branch
    exact scanned_items items hspelled.1 part hpart
  · refine prints_of_texts hsources fun part hpart => ?_
    exact ⟨scanned_from hspelled hpart,
      hsub (List.Subset.trans (namedOf_from_subset hpart) hbranch_sub)⟩
  · refine prints_of_texts hconditions fun part hpart => ?_
    obtain ⟨condition, hcondition, rfl⟩ := List.mem_map.1 hpart
    exact ⟨scanned_condition hspelled hcondition,
      hsub (List.Subset.trans (namedOf_condition_subset hcondition) hbranch_sub)⟩

/-- `SELECT 'it''s :x', id AS a FROM mytable1 WHERE id = :p AND id IN (:q) ORDER BY :p`. -/
def quotedColon : Select :=
  ⟨[], [⟨false, [.expr (.literal (.string "it's :x")) none,
      .expr (.column ⟨none, "id"⟩) (some "a")], [.table "mytable1" none], [],
    some (.and (.compare .eq (.column ⟨none, "id"⟩) (.parameter (some "p")))
      (.inList false (.column ⟨none, "id"⟩) [.parameter (some "q")])), [], none⟩],
    [⟨.parameter (some "p"), false⟩], none⟩

/-- The colon in quotes is no parameter, and the places of the conditions are those of their own. -/
theorem Select.named_parameters_found_quotedColon :
    quotedColon.Spelled plainNaming ∧ namedParameters quotedColon.text = ["p", "q"] ∧
      ∃ fragments first second, Fragments.ofQuery oneTable ["p", "q"] quotedColon = .ok fragments ∧
        fragments.conditions = [first, second] ∧ namesAt ["p", "q"] first.conditionOn = ["p"] ∧
          namesAt ["p", "q"] second.conditionOn = ["q"] := by
  have hplain : ∀ name ∈ ["id", "a", "mytable1"], plainNaming.name name := by
    show ∀ name ∈ ["id", "a", "mytable1"], IsPlain name
    decide
  have hid : (⟨none, "id"⟩ : ColumnRef).Spelled plainNaming := ⟨nofun, hplain _ (by decide)⟩
  have hparameter : ∀ name ∈ ["p", "q"], (Expr.parameter (some name)).Spelled plainNaming := by
    intro name hname
    have hstart : IsIdentifier name := by
      rcases List.mem_pair.1 hname with rfl | rfl
      · exact ⟨'p', [], by decide, by decide, by simp⟩
      · exact ⟨'q', [], by decide, by decide, by simp⟩
    rintro _ ⟨⟩
    exact hstart
  have hspelled : quotedColon.Spelled plainNaming := by
    have hp := hparameter "p" (by decide)
    have hq := hparameter "q" (by decide)
    have halias : ∀ name ∈ some "a", plainNaming.name name := by
      rintro _ ⟨⟩
      exact hplain _ (by decide)
    have hitems : SpelledItems plainNaming [.expr (.literal (.string "it's :x")) none,
        .expr (.column ⟨none, "id"⟩) (some "a")] :=
      ⟨⟨trivial, nofun⟩, ⟨hid, halias⟩, trivial⟩
    have hsources : SpelledSources plainNaming [.table "mytable1" none] :=
      ⟨⟨hplain _ (by decide), nofun⟩, trivial⟩
    exact ⟨trivial, ⟨⟨hitems, hsources, trivial, ⟨⟨hid, hp⟩, hid, hq, trivial⟩, trivial, trivial⟩,
      trivial⟩, ⟨hp, trivial⟩, trivial⟩
  obtain ⟨-, hnames, hfragments⟩ := Select.named_parameters_found hspelled
  have hnames : namedParameters quotedColon.text = ["p", "q"] := hnames.trans (by decide)
  rw [hnames] at hfragments
  obtain ⟨fragments, hcut⟩ := exists_of_isOk
    (x := Fragments.ofQuery oneTable ["p", "q"] quotedColon) (by decide +kernel)
  obtain ⟨branch, rest, hbranch, -, -, -, hconditions, hdepends⟩ :=
    hfragments oneTable fragments hcut
  cases hbranch
  match hlist : fragments.conditions, hconditions with
  | [first, second], .cons hfirst (.cons hsecond .nil) =>
    rw [hlist] at hdepends
    refine ⟨hspelled, hnames, fragments, first, second, hcut, hlist, ?_, ?_⟩
    · rw [hdepends first (by simp), hfirst.denotes]
      rfl
    · rw [hdepends second (by simp), hsecond.denotes]
      rfl

end QuerySignature
