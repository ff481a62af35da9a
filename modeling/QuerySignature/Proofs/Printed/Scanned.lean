import QuerySignature.Proofs.Printed.Characters
import QuerySignature.Proofs.Printed.Scanning
import QuerySignature.Proofs.Printed.Spelled

namespace QuerySignature

/-! # Scanning printed queries

By induction over its tree, the text of an expression or a query is scanned for exactly its named
placeholders. Texts in quotes may hold anything; names hold neither quotes nor colons.

- `Expr.scanned`, `Select.scanned`: one case for each form of expression and for each clause.
- `Select.namedParameters_text`: the named parameters of a query's text.
-/

/-- Names without quotes and colons, and identifiers for the names of parameters. -/
def plainNaming : Naming := ⟨IsPlain, IsIdentifier⟩

/-! ## Plain texts -/

/-- No number holds a quote or a colon. -/
theorem IsNumberChar.isPlainChar {c : Char} (h : IsNumberChar c) : IsPlainChar c := by
  constructor
  · rintro rfl
    exact absurd h (by decide)
  · rintro rfl
    exact absurd h (by decide)

namespace IsPlain

variable {a b : String}

theorem append (ha : IsPlain a) (hb : IsPlain b) : IsPlain (a ++ b) := AllChars.append ha hb

theorem commas {texts : List String} (h : ∀ text ∈ texts, IsPlain text) :
    IsPlain (QuerySignature.commas texts) := AllChars.commas (by decide) h

theorem ite {p : Prop} [Decidable p] (ha : IsPlain a) (hb : IsPlain b) :
    IsPlain (if p then a else b) := AllChars.ite ha hb

theorem int (n : Int) : IsPlain (toString n) :=
  (AllChars.int n).mono fun _ => IsNumberChar.isPlainChar

/-- A number in any layout. -/
theorem float (layout : Layout) (x : Float) : IsPlain (layout.text x) :=
  (AllChars.float layout x).mono fun _ => IsNumberChar.isPlainChar

end IsPlain

/-! ## Words with names -/

/-- Words that start with a name. -/
theorem Opens.of_name {name text : String} (hname : IsPlain name) (h : Opens text)
    (hne : text.toList ≠ []) : Opens (name ++ text) := by
  refine ⟨hname.append h.plain, ?_⟩
  rw [String.toList_append, List.getLast?_append, List.getLast?_eq_some_getLast hne,
    Option.some_or, ← List.getLast?_eq_some_getLast hne]
  exact h.free

/-- Words that end in a name. -/
theorem Closes.of_name {name text : String} (h : Closes text) (hne : text.toList ≠ [])
    (hname : IsPlain name) : Closes (text ++ name) := by
  refine ⟨h.plain.append hname, ?_⟩
  rw [String.toList_append, List.head?_append, List.head?_eq_some_head hne, Option.some_or,
    ← List.head?_eq_some_head hne]
  exact h.stops

/-! ## Layout -/

namespace Scanned

variable {ps : List Piece} {parts : List (List Piece)}

theorem literal (value : Literal) : Scanned [.words value.text] := by
  cases value with
  | string s => exact quote s
  | int n => exact plain (.int n)
  | float x => exact plain (.float _ x)
  | bool b => exact plain (.ite (by decide) (by decide))
  | null => exact plain (by decide)

theorem operand (place precedence : Nat) (hp : Scanned ps) :
    Scanned (operandPieces place precedence ps) := by
  unfold operandPieces
  split
  · exact enclosed (by decide) hp (by decide)
  · exact hp

theorem separated {separator : String} (h : Divides separator) (hparts : ∀ p ∈ parts, Scanned p) :
    Scanned (QuerySignature.separated separator parts) := by
  fun_induction QuerySignature.separated separator parts with
  | case1 => exact nil
  | case2 part => exact hparts part (.head _)
  | case3 part next rest ih =>
    exact between (hparts part (.head _)) h (ih fun p hp => hparts p (.tail _ hp))

theorem clause {opening closing : String} (hopening : Opens opening) (hclosing : Closes closing)
    (hparts : ∀ p ∈ parts, Scanned p) : Scanned (clausePieces opening parts closing) := by
  unfold clausePieces
  split
  · exact nil
  · exact enclosed hopening (separated (by decide) hparts) hclosing

/-- A placeholder to sort by is found as any other. -/
theorem asSort (hp : Scanned ps) : Scanned (ps.map Piece.asSort) := by
  have hnamed : namedOf (ps.map Piece.asSort) = namedOf ps := by
    unfold namedOf
    rw [List.filterMap_map]
    refine congrArg (fun f => ps.filterMap f) (funext fun piece => ?_)
    cases piece <;> rfl
  intro rest hrest
  rw [textOf_asSort, hnamed]
  exact hp rest hrest

end Scanned

namespace Led

theorem clause {opening : String} (h : Divides opening) (parts : List (List Piece))
    (closing : String) : Led (clausePieces opening parts closing) := by
  unfold clausePieces
  split
  · exact nil
  · exact divides h _

theorem option {keyword : String} (h : Divides keyword) (o : Option Expr) :
    Led (optionPieces keyword o) := by
  cases o with
  | none => exact nil
  | some e => exact divides h _

theorem whens (bs : List WhenThen) : Led (whenPieces bs) := by
  cases bs with
  | nil => exact nil
  | cons b rest =>
    obtain ⟨condition, value⟩ := b
    exact divides (by decide) _

theorem joins (js : List Join) : Led (joinPieces js) := by
  cases js with
  | nil => exact nil
  | cons j rest =>
    obtain ⟨kind, source, condition⟩ := j
    exact divides (by cases kind <;> decide) _

theorem limit (limit : Option Limit) : Led (limitPieces limit) := by
  cases limit with
  | none => exact nil
  | some limit =>
    obtain ⟨count, offset⟩ := limit
    exact divides (by decide) _

end Led

/-- The words of a USING. -/
theorem closes_shared {columns : List String} (h : ∀ column ∈ columns, IsPlain column) :
    Closes (" USING (" ++ commas columns ++ ")") := by
  rw [String.append_assoc]
  exact .of_name (by decide) (by decide) ((IsPlain.commas h).append (by decide))

theorem Led.condition {condition : JoinCondition} (h : condition.Spelled plainNaming) :
    Led condition.pieces := by
  cases condition with
  | predicate e => exact divides (by decide) _
  | shared columns => exact words (closes_shared h)
  | unconditional => exact nil

/-! ## Expressions and queries -/

mutual

theorem Expr.scanned (e : Expr) (h : e.Spelled plainNaming) : Scanned e.pieces := by
  match e with
  | .literal value => exact .literal value
  | .column c =>
    have hc : IsPlain c.text := by
      unfold ColumnRef.text
      split
      · next table htable => exact ((h.1 table htable).append (by decide)).append h.2
      · exact h.2
    exact .plain hc
  | .parameter name => exact .parameter h .value
  | .arithmetic op left right =>
    have hop : Divides (" " ++ op.text ++ " ") := by cases op <;> decide
    exact (left.scanned h.1).operand _ _ |>.between hop ((right.scanned h.2).operand _ _)
  | .compare op left right =>
    have hop : Divides (" " ++ op.text ++ " ") := by cases op <;> decide
    exact (left.scanned h.1).operand _ _ |>.between hop ((right.scanned h.2).operand _ _)
  | .between negated value low high =>
    have hword : Divides (" " ++ negation negated ++ "BETWEEN ") := by cases negated <;> decide
    have hlow := (value.scanned h.1).operand Expr.operandPlace value.precedence |>.between hword
      ((low.scanned h.2.1).operand Expr.operandPlace low.precedence)
    exact hlow.between (by decide) ((high.scanned h.2.2).operand _ _)
  | .inList negated value items =>
    have hword : Divides (" " ++ negation negated ++ "IN (") := by cases negated <;> decide
    -- a placeholder that is all of the list is laid out by itself
    have hitems : Scanned (match soleParameter? items with
        | some name => [.placeholder name .list]
        | none => separated ", " (exprPieces items)) := by
      split
      · next name hsole =>
        rw [eq_of_soleParameter? hsole] at h
        exact .parameter h.2.1 .list
      · exact .separated (by decide) (scanned_all items h.2)
    exact ((value.scanned h.1).operand _ _ |>.between hword hitems).closing (by decide)
  | .inQuery negated value query =>
    have hword : Divides (" " ++ negation negated ++ "IN (") := by cases negated <;> decide
    have hvalue := (value.scanned h.1).operand Expr.operandPlace value.precedence
    exact (hvalue.between hword (query.scanned h.2)).closing (by decide)
  | .like negated value pattern =>
    have hword : Divides (" " ++ negation negated ++ "LIKE ") := by cases negated <;> decide
    exact (value.scanned h.1).operand _ _ |>.between hword ((pattern.scanned h.2).operand _ _)
  | .isNull negated value =>
    exact ((value.scanned h).operand _ _).closing (by cases negated <;> decide)
  | .and left right =>
    exact (left.scanned h.1).operand _ _ |>.between (by decide) ((right.scanned h.2).operand _ _)
  | .or left right =>
    exact (left.scanned h.1).operand _ _ |>.between (by decide) ((right.scanned h.2).operand _ _)
  | .not operand => exact .opening (by decide) ((operand.scanned h).operand _ _)
  | .call function distinct arguments =>
    -- the name may hold any plain characters, since the parenthesis stops what it started
    have hfunction : Opens (function ++ "(" ++ if distinct then "DISTINCT " else "") := by
      rw [String.append_assoc]
      exact .of_name h.1 (by cases distinct <;> decide) (by cases distinct <;> decide)
    exact .enclosed hfunction (.separated (by decide) (scanned_all arguments h.2)) (by decide)
  | .case operand branches otherwise =>
    have hcase : Scanned [.words "CASE"] := .plain (by decide)
    have hoperand := hcase.append (.option (by decide) operand)
      (scanned_option (by decide : Opens " ") operand h.1)
    have hbranches := hoperand.append (.whens branches) (scanned_whens branches h.2.1)
    have hotherwise := hbranches.append (.option (by decide) otherwise)
      (scanned_option (by decide : Opens " ELSE ") otherwise h.2.2)
    exact hotherwise.closing (by decide)
  | .scalar query => exact .enclosed (by decide) (query.scanned h) (by decide)
  | .hasRows query => exact .enclosed (by decide) (query.scanned h) (by decide)
  | .paren inner => exact .enclosed (by decide) (inner.scanned h) (by decide)
  | .star => exact .plain (by decide)

theorem scanned_all (es : List Expr) (h : SpelledAll plainNaming es) :
    ∀ p ∈ exprPieces es, Scanned p := by
  match es with
  | [] => exact fun _ hp => absurd hp List.not_mem_nil
  | e :: rest => exact List.forall_mem_cons.2 ⟨e.scanned h.1, scanned_all rest h.2⟩

theorem scanned_option {keyword : String} (hkeyword : Opens keyword) (o : Option Expr)
    (h : SpelledSome plainNaming o) : Scanned (optionPieces keyword o) := by
  match o with
  | none => exact .nil
  | some e => exact .opening hkeyword (e.scanned h)

theorem scanned_whens (bs : List WhenThen) (h : SpelledBranches plainNaming bs) :
    Scanned (whenPieces bs) := by
  match bs with
  | [] => exact .nil
  | ⟨condition, value⟩ :: rest =>
    have hcondition := (condition.scanned h.1).opening (by decide : Opens " WHEN ")
    have hvalue := hcondition.between (by decide : Divides " THEN ") (value.scanned h.2.1)
    exact hvalue.append (.whens rest) (scanned_whens rest h.2.2)

theorem Select.scanned (q : Select) (h : q.Spelled plainNaming) : Scanned q.pieces := by
  match q with
  | ⟨ctes, branches, order, limit⟩ =>
    obtain ⟨hctes, hbranches, horder, hlimit⟩ := h
    have hunion := Scanned.separated (by decide : Divides " UNION ")
      (scanned_branches branches hbranches)
    have hwith : Scanned (clausePieces "WITH " (ctePieces ctes) " " ++
        separated " UNION " (branchPieces branches)) := by
      unfold clausePieces
      split
      · exact hunion
      · have hnames := Scanned.opening (by decide : Opens "WITH ")
          (.separated (by decide : Divides ", ") (scanned_ctes ctes hctes))
        rw [List.append_assoc]
        exact hnames.between (by decide) hunion
    have hordered := hwith.append (.clause (by decide) (orderPieces order) "")
      (.clause (by decide : Opens " ORDER BY ") (by decide) (scanned_order order horder))
    exact hordered.append (.limit limit) (scanned_limit limit hlimit)

theorem scanned_ctes (ctes : List Cte) (h : SpelledCtes plainNaming ctes) :
    ∀ p ∈ ctePieces ctes, Scanned p := by
  match ctes with
  | [] => exact fun _ hp => absurd hp List.not_mem_nil
  | ⟨name, query⟩ :: rest =>
    have hname : Opens (name ++ " AS (") := .of_name h.1 (by decide) (by decide)
    have hcte := Scanned.enclosed hname (query.scanned h.2.1) (by decide : Closes ")")
    exact List.forall_mem_cons.2 ⟨hcte, scanned_ctes rest h.2.2⟩

theorem Branch.scanned (b : Branch) (h : b.Spelled plainNaming) : Scanned b.pieces := by
  match b with
  | ⟨distinct, items, sources, joins, criteria, group, having⟩ =>
    obtain ⟨hitems, hsources, hjoins, hcriteria, hgroup, hhaving⟩ := h
    have hselect : Opens ("SELECT " ++ if distinct then "DISTINCT " else "") := by
      cases distinct <;> decide
    have hprojection := Scanned.opening hselect
      (.separated (by decide : Divides ", ") (scanned_items items hitems))
    have hfrom := hprojection.append (.clause (by decide) (sourcePieces sources) "")
      (.clause (by decide : Opens " FROM ") (by decide) (scanned_sources sources hsources))
    have hjoined := hfrom.append (.joins joins) (scanned_joins joins hjoins)
    have hwhere := hjoined.append (.option (by decide) criteria)
      (scanned_option (by decide : Opens " WHERE ") criteria hcriteria)
    have hgrouped := hwhere.append (.clause (by decide) (exprPieces group) "")
      (.clause (by decide : Opens " GROUP BY ") (by decide) (scanned_all group hgroup))
    exact hgrouped.append (.option (by decide) having)
      (scanned_option (by decide : Opens " HAVING ") having hhaving)

theorem scanned_branches (bs : List Branch) (h : SpelledUnion plainNaming bs) :
    ∀ p ∈ branchPieces bs, Scanned p := by
  match bs with
  | [] => exact fun _ hp => absurd hp List.not_mem_nil
  | b :: rest => exact List.forall_mem_cons.2 ⟨b.scanned h.1, scanned_branches rest h.2⟩

theorem Item.scanned (item : Item) (h : item.Spelled plainNaming) : Scanned item.pieces := by
  match item with
  | .star => exact .plain (by decide)
  | .tableStar table => exact .plain (IsPlain.append h (by decide))
  | .expr value none => exact (value.scanned h.1).closing (by decide)
  | .expr value (some aliasName) =>
    exact (value.scanned h.1).closing (.of_name (by decide) (by decide) (h.2 aliasName rfl))

theorem scanned_items (items : List Item) (h : SpelledItems plainNaming items) :
    ∀ p ∈ itemPieces items, Scanned p := by
  match items with
  | [] => exact fun _ hp => absurd hp List.not_mem_nil
  | item :: rest => exact List.forall_mem_cons.2 ⟨item.scanned h.1, scanned_items rest h.2⟩

theorem Source.scanned (x : Source) (h : x.Spelled plainNaming) : Scanned x.pieces := by
  match x with
  | .table name none => exact .plain h.1
  | .table name (some aliasName) =>
    exact .plain ((h.1.append (by decide)).append (h.2 aliasName rfl))
  | .derived query aliasName =>
    exact .enclosed (by decide) (query.scanned h.1) (.of_name (by decide) (by decide) h.2)

theorem scanned_sources (xs : List Source) (h : SpelledSources plainNaming xs) :
    ∀ p ∈ sourcePieces xs, Scanned p := by
  match xs with
  | [] => exact fun _ hp => absurd hp List.not_mem_nil
  | x :: rest => exact List.forall_mem_cons.2 ⟨x.scanned h.1, scanned_sources rest h.2⟩

theorem JoinCondition.scanned (c : JoinCondition) (h : c.Spelled plainNaming) :
    Scanned c.pieces := by
  match c with
  | .predicate e => exact .opening (by decide) (e.scanned h)
  | .shared columns => exact .plain (closes_shared h).plain
  | .unconditional => exact .nil

theorem scanned_joins (js : List Join) (h : SpelledJoins plainNaming js) :
    Scanned (joinPieces js) := by
  match js with
  | [] => exact .nil
  | ⟨kind, source, condition⟩ :: rest =>
    have hkind : Opens (" " ++ kind.text ++ " ") := by cases kind <;> decide
    have hsource := (source.scanned h.1).opening hkind
    have hcondition := hsource.append (.condition h.2.1) (condition.scanned h.2.1)
    exact hcondition.append (.joins rest) (scanned_joins rest h.2.2)

theorem scanned_order (terms : List OrderTerm) (h : SpelledOrder plainNaming terms) :
    ∀ p ∈ orderPieces terms, Scanned p := by
  match terms with
  | [] => exact fun _ hp => absurd hp List.not_mem_nil
  | ⟨value, descending⟩ :: rest =>
    have hvalue : Scanned (if value.isParameter then value.pieces.map Piece.asSort
        else value.pieces) := by
      split
      · exact (value.scanned h.1).asSort
      · exact value.scanned h.1
    have hterm := hvalue.closing (by cases descending <;> decide :
      Closes (if descending then " DESC" else ""))
    exact List.forall_mem_cons.2 ⟨hterm, scanned_order rest h.2⟩

theorem scanned_limit (limit : Option Limit) (h : SpelledLimit plainNaming limit) :
    Scanned (limitPieces limit) := by
  match limit with
  | none => exact .nil
  | some ⟨count, offset⟩ =>
    have hcount := (count.scanned h.1).opening (by decide : Opens " LIMIT ")
    exact hcount.append (.option (by decide) offset)
      (scanned_option (by decide : Opens " OFFSET ") offset h.2)

end

/-! ## Named parameters -/

/-- The named parameters of a printed text are the names of its placeholders. -/
theorem Scanned.namedParameters_eq {ps : List Piece} (h : Scanned ps) :
    namedParameters (textOf ps) = distinct (namedOf ps) := by
  have hscan := h [] nofun
  have hnil : scan true [] = [] := by simp [scan, emptyQuotes, namesIn]
  rw [List.append_nil, hnil, List.append_nil] at hscan
  exact congrArg distinct hscan

/-- The named parameters of a query's text are those of its placeholders that have names. -/
theorem Select.namedParameters_text {q : Select} (h : q.Spelled plainNaming) :
    namedParameters q.text = distinct (namedOf q.pieces) := by
  rw [← q.textOf_pieces]
  exact (q.scanned h).namedParameters_eq

end QuerySignature
