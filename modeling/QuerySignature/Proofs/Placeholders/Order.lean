import QuerySignature.Proofs.Described
import QuerySignature.Proofs.Placeholders.Adds

namespace QuerySignature

/-! # Placeholders in the order of the text

The walk over a statement does not follow its text: a FROM clause is analysed before the projection
in front of it, and a placeholder that is a term of ORDER BY is passed over. The placeholders that
it collects are those of the text in their order all the same.

- `Adds.expr`, `Adds.query`, ...: an expression, or a query, adds the entries of its pieces.
- `Adds.statement`: so does a statement.
- `describe_placeholders`: a description lists the placeholders of the text.
-/

namespace Adds

theorem congr {α : Type} {added added' : List Entry} {step : Analyze α} (h : Adds added step)
    (heq : added = added') : Adds added' step :=
  heq ▸ h

/-- What an IN list adds: one entry for the list if it is a placeholder, else those of its items. -/
theorem entries_inList (negated : Bool) (value : Expr) (items : List Expr) :
    entries (Expr.inList negated value items).pieces =
      entries value.pieces ++
        match soleParameter? items with
        | some name => [⟨name, true⟩]
        | none => (exprPieces items).flatMap entries := by
  cases h : soleParameter? items <;> simp [Expr.pieces, h]

mutual

theorem expr (setting : Setting) (scope : Scope) (e : Expr) :
    Adds (entries e.pieces) (inferExpr setting scope e) := by
  -- the pieces of a form stand in the order in which the walk comes to its parts
  match e with
  | .literal value => exact kept.literal _ value
  | .column c => exact kept.column scope c
  | .parameter name => exact addPlaceholder name false
  | .paren inner => exact (expr setting scope inner).congr (by simp [Expr.pieces])
  | .arithmetic op left right =>
    have hpieces : entries (Expr.arithmetic op left right).pieces =
        entries left.pieces ++ entries right.pieces := by simp [Expr.pieces]
    rw [hpieces]
    refine (expr setting scope left).bind fun _ => ?_
    exact (expr setting scope right).before fun _ => kept.arithmetic _ _ _
  | .compare op left right =>
    have hpieces : entries (Expr.compare op left right).pieces =
        entries left.pieces ++ entries right.pieces := by simp [Expr.pieces]
    rw [hpieces]
    refine (expr setting scope left).bind fun _ => ?_
    exact (expr setting scope right).before fun _ => kept.compare _ _ _ _
  | .between negated value low high =>
    have hpieces : entries (Expr.between negated value low high).pieces =
        entries value.pieces ++ (entries low.pieces ++ entries high.pieces) := by
      simp [Expr.pieces]
    rw [hpieces]
    refine (expr setting scope value).bind fun _ => ?_
    refine (expr setting scope low).bind fun _ => ?_
    exact (expr setting scope high).before fun _ => kept.between _ _ _ _ _
  | .inList negated value items =>
    refine congr ((expr setting scope value).bind fun v => behind (kept.forceNotNull v) fun _ => ?_)
      (entries_inList negated value items).symm
    dsimp only
    cases soleParameter? items with
    | some name =>
      exact (addPlaceholder name true).before fun _ => behind (pure _) fun _ => kept.inList _ _ _ _
    | none => exact (all setting scope items).before fun _ => kept.inList _ _ _ _
  | .inQuery negated value q =>
    have hpieces : entries (Expr.inQuery negated value q).pieces =
        entries value.pieces ++ entries q.pieces := by simp [Expr.pieces]
    rw [hpieces]
    refine (expr setting scope value).bind fun v => ?_
    refine behind (kept.forceNotNull v) fun _ => ?_
    refine (query setting scope.levels q).before fun _ => ?_
    exact behind (kept.firstColumn _ _) fun _ => kept.inQuery _ _ _ _
  | .like negated value pattern =>
    have hpieces : entries (Expr.like negated value pattern).pieces =
        entries value.pieces ++ entries pattern.pieces := by simp [Expr.pieces]
    rw [hpieces]
    refine (expr setting scope value).bind fun _ => ?_
    exact (expr setting scope pattern).before fun _ => kept.like _ _ _ _
  | .isNull negated value =>
    refine congr ((expr setting scope value).before fun _ => ?_) (by simp [Expr.pieces])
    exact kept.predicate _ _
  | .and left right =>
    have hpieces : entries (Expr.and left right).pieces =
        entries left.pieces ++ entries right.pieces := by simp [Expr.pieces]
    rw [hpieces]
    refine (expr setting scope left).bind fun _ => ?_
    exact (expr setting scope right).before fun _ => kept.predicate _ _
  | .or left right =>
    have hpieces : entries (Expr.or left right).pieces =
        entries left.pieces ++ entries right.pieces := by simp [Expr.pieces]
    rw [hpieces]
    refine (expr setting scope left).bind fun _ => ?_
    exact (expr setting scope right).before fun _ => kept.predicate _ _
  | .not operand =>
    refine congr ((expr setting scope operand).before fun _ => ?_) (by simp [Expr.pieces])
    exact kept.predicate _ _
  | .call function distinct es =>
    refine congr ((arguments setting scope es).before fun _ => ?_) (by simp [Expr.pieces])
    exact kept.call (fun _ _ => demand _) _ _ _
  | .case operand branches otherwise =>
    have hpieces : entries (Expr.case operand branches otherwise).pieces =
        entries (optionPieces " " operand) ++
          (entries (whenPieces branches) ++ entries (optionPieces " ELSE " otherwise)) := by
      simp [Expr.pieces]
    rw [hpieces]
    refine (option setting scope " " operand).bind fun o => ?_
    refine behind (fresh _ _) fun v => ?_
    refine (caseBranches setting scope o v branches).bind fun _ => ?_
    exact (caseElse setting scope v otherwise).before fun _ => pure _
  | .scalar q =>
    refine congr ((query setting scope.levels q).before fun _ => ?_) (by simp [Expr.pieces])
    exact behind (kept.firstColumn _ _) fun _ => pure _
  | .hasRows q =>
    refine congr ((query setting scope.levels q).before fun _ => ?_) (by simp [Expr.pieces])
    exact kept.predicate _ _
  | .star => exact throw _

theorem all (setting : Setting) (scope : Scope) (es : List Expr) :
    Adds ((exprPieces es).flatMap entries) (inferAll setting scope es) := by
  match es with
  | [] => exact pure _
  | e :: rest =>
    refine (expr setting scope e).bind fun _ => ?_
    exact (all setting scope rest).before fun _ => pure _

theorem arguments (setting : Setting) (scope : Scope) (es : List Expr) :
    Adds ((exprPieces es).flatMap entries) (inferArguments setting scope es) := by
  match es with
  | [] => exact pure _
  | e :: rest =>
    unfold inferArguments
    split
    · next hstar =>
      obtain rfl : e = .star := by cases e <;> first | rfl | cases hstar
      exact arguments setting scope rest
    · refine (expr setting scope e).bind fun _ => ?_
      exact (arguments setting scope rest).before fun _ => pure _

theorem option (setting : Setting) (scope : Scope) (keyword : String) (o : Option Expr) :
    Adds (entries (optionPieces keyword o)) (inferSome setting scope o) := by
  match o with
  | none => exact pure _
  | some e => exact (expr setting scope e).before fun _ => pure _

theorem caseBranches (setting : Setting) (scope : Scope) (operand : Option Inferred)
    (result : TypeVar) (bs : List WhenThen) :
    Adds (entries (whenPieces bs)) (inferBranches setting scope operand result bs) := by
  match bs with
  | [] => exact pure _
  | ⟨condition, value⟩ :: rest =>
    have hpieces : entries (whenPieces (⟨condition, value⟩ :: rest)) =
        entries condition.pieces ++ (entries value.pieces ++ entries (whenPieces rest)) := by
      simp [whenPieces]
    rw [hpieces]
    refine (expr setting scope condition).bind fun c => ?_
    refine behind (kept.caseWhen _ _ _ _) fun _ => ?_
    refine (expr setting scope value).bind fun v => ?_
    refine behind (demand _) fun _ => ?_
    exact (caseBranches setting scope operand result rest).before fun _ => pure _

theorem caseElse (setting : Setting) (scope : Scope) (result : TypeVar) (o : Option Expr) :
    Adds (entries (optionPieces " ELSE " o)) (inferElse setting scope result o) := by
  match o with
  | none => exact pure _
  | some e =>
    exact (expr setting scope e).before fun _ => behind (demand _) fun _ => pure _

theorem query (setting : Setting) (outer : List Level) (q : Select) :
    Adds (entries q.pieces) (inferQuery setting outer q) := by
  match q with
  | ⟨ctes, branches, order, limit⟩ =>
    intro r a s hrun
    obtain ⟨r₁, results, r₂, head, r₃, r₄, hctes, hbranches, -, horder, hlimit, rfl, rfl⟩ :=
      clauses_of_query hrun
    have h₁ := tables setting outer ctes _ _ _ hctes
    have h₂ := union setting outer branches _ _ _ hbranches
    have h₃ := orderBy setting _ order _ _ _ horder
    have h₄ := limitTo setting _ limit _ _ _ hlimit
    change r₄.entries = _
    rw [h₄, h₃, h₂, h₁]
    simp [Select.pieces]

theorem tables (setting : Setting) (outer : List Level) (ctes : List Cte) :
    Adds ((ctePieces ctes).flatMap entries) (inferCtes setting outer ctes) := by
  match ctes with
  | [] => exact pure _
  | ⟨name, q⟩ :: rest =>
    have hpieces : (ctePieces (⟨name, q⟩ :: rest)).flatMap entries =
        entries q.pieces ++ (ctePieces rest).flatMap entries := by simp [ctePieces]
    rw [hpieces]
    refine (query setting outer q).bind fun _ => ?_
    exact behind (declareCte _ _) fun _ => tables setting outer rest

theorem union (setting : Setting) (outer : List Level) (bs : List Branch) :
    Adds ((branchPieces bs).flatMap entries) (inferUnion setting outer bs) := by
  match bs with
  | [] => exact pure _
  | b :: rest =>
    refine (branch setting outer b).bind fun _ => ?_
    exact (union setting outer rest).before fun _ => pure _

theorem branch (setting : Setting) (outer : List Level) (b : Branch) :
    Adds (entries b.pieces) (inferBranch setting outer b) := by
  match b with
  | ⟨distinct, items, sources, joins, criteria, group, having⟩ =>
    intro r a s hrun
    obtain ⟨⟨joined, columns⟩, r₄, _, r₅, _, hfront, hgroup, hhaving, rfl⟩ := clauses_of_branch hrun
    obtain ⟨listed, r₁, r₂, r₃, _, hlisted, hjoined, hitems, hcriteria⟩ := clauses_of_front hfront
    have hfrom : r₂.entries = r.entries ++
        ((sourcePieces sources).flatMap entries ++ entries (joinPieces joins)) := by
      have h₁ := sourceList setting _ sources _ _ _ hlisted
      have h₂ := joinList setting outer _ _ joins _ _ _ hjoined
      rw [h₂, h₁, List.append_assoc]
    rcases map_cut hfrom with ⟨hkept, hlater⟩
    have h₃ := itemList setting _ items _ _ _ hitems
    have h₄ := option setting _ " WHERE " criteria _ _ _ hcriteria
    have h₅ := all setting _ group _ _ _ hgroup
    have h₆ := option setting _ " HAVING " having _ _ _ hhaving
    have hfront : Run.entries { r₃ with
        placeholders := r₃.placeholders ++ r₂.placeholders.drop r.placeholders.length } =
        r.entries ++ (itemPieces items).flatMap entries ++
          ((sourcePieces sources).flatMap entries ++ entries (joinPieces joins)) := by
      unfold Run.entries at h₃ ⊢
      rw [List.map_append, hlater, h₃, hkept]
    rw [h₆, h₅, h₄, hfront]
    simp [Branch.pieces]

theorem itemList (setting : Setting) (scope : Scope) (items : List Item) :
    Adds ((itemPieces items).flatMap entries) (inferItems setting scope items) := by
  match items with
  | [] => exact pure _
  | item :: rest =>
    refine (projected setting scope item).bind fun _ => ?_
    exact (itemList setting scope rest).before fun _ => pure _

theorem projected (setting : Setting) (scope : Scope) (item : Item) :
    Adds (entries item.pieces) (inferItem setting scope item) := by
  match item with
  | .star => exact kept.star _
  | .tableStar table =>
    unfold inferItem
    split
    · exact throw _
    · exact kept.star _
  | .expr value aliasName =>
    exact congr ((expr setting scope value).before fun _ => pure _) (by simp [Item.pieces])

theorem sourceList (setting : Setting) (done : Sources) (xs : List Source) :
    Adds ((sourcePieces xs).flatMap entries) (inferSources setting done xs) := by
  match xs with
  | [] => exact pure _
  | x :: rest =>
    exact (source setting x).bind fun _ => sourceList setting _ rest

theorem source (setting : Setting) (x : Source) :
    Adds (entries x.pieces) (inferSource setting x) := by
  match x with
  | .table name aliasName => exact kept.tableColumns _ _ _
  | .derived q aliasName =>
    exact congr ((query setting [] q).before fun _ => pure _) (by simp [Source.pieces])

theorem joinList (setting : Setting) (outer : List Level) (done : Sources) (previous : String)
    (js : List Join) : Adds (entries (joinPieces js)) (inferJoins setting outer done previous js) := by
  match js with
  | [] => exact pure _
  | ⟨kind, x, on⟩ :: rest =>
    have hpieces : entries (joinPieces (⟨kind, x, on⟩ :: rest)) =
        entries x.pieces ++ (entries on.pieces ++ entries (joinPieces rest)) := by
      simp [joinPieces]
    rw [hpieces]
    refine (source setting x).bind fun _ => ?_
    exact (condition setting _ on).bind fun _ => joinList setting outer _ _ rest

theorem condition (setting : Setting) (scope : Scope) (c : JoinCondition) :
    Adds (entries c.pieces) (inferCondition setting scope c) := by
  match c with
  | .predicate e => exact (expr setting scope e).before fun _ => pure _
  | .shared _ => exact pure _
  | .unconditional => exact pure _

theorem orderBy (setting : Setting) (scope : Scope) (terms : List OrderTerm) :
    Adds ((orderPieces terms).flatMap entries) (inferOrder setting scope terms) := by
  match terms with
  | [] => exact pure _
  | ⟨value, descending⟩ :: rest =>
    have hpieces : (orderPieces (⟨value, descending⟩ :: rest)).flatMap entries =
        (if value.isParameter then [] else entries value.pieces) ++
          (orderPieces rest).flatMap entries := by
      cases h : value.isParameter <;> simp [orderPieces, h]
    rw [hpieces]
    unfold inferOrder
    split
    · exact orderBy setting scope rest
    · exact (expr setting scope value).bind fun _ => orderBy setting scope rest

theorem limitTo (setting : Setting) (scope : Scope) (l : Option Limit) :
    Adds (entries (limitPieces l)) (inferLimit setting scope l) := by
  match l with
  | none => exact pure _
  | some ⟨count, offset⟩ =>
    have hpieces : entries (limitPieces (some ⟨count, offset⟩)) =
        entries count.pieces ++ entries (optionPieces " OFFSET " offset) := by
      simp [limitPieces]
    rw [hpieces]
    refine (expr setting scope count).bind fun _ => ?_
    exact behind (kept.bound _ _ _) fun _ => offsetBy setting scope offset

theorem offsetBy (setting : Setting) (scope : Scope) (o : Option Expr) :
    Adds (entries (optionPieces " OFFSET " o)) (inferOffset setting scope o) := by
  match o with
  | none => exact pure _
  | some e => exact (expr setting scope e).before fun _ => kept.bound _ _ _

end

/-! ## Statements -/

theorem throw_bind {α : Type} {added : List Entry} (e : AnalysisError)
    (next : Unit → Analyze α) : Adds added (MonadExcept.throw e >>= next) := by
  intro r a s hrun
  cases hrun

theorem rows (setting : Setting) (targets : Level) (rows : List (List Expr)) :
    Adds ((rows.map rowPieces).flatMap entries) (inferRows setting targets rows) := by
  induction rows with
  | nil => exact pure _
  | cons row rest ih =>
    have hpieces : ((row :: rest).map rowPieces).flatMap entries =
        (exprPieces row).flatMap entries ++ (rest.map rowPieces).flatMap entries := by
      simp [rowPieces]
    rw [hpieces]
    unfold inferRows
    split
    · exact throw_bind _ _
    · refine (all setting _ row).bind fun _ => ?_
      exact behind (kept.bindRow _ _ _) fun _ => ih

theorem insert (setting : Setting) (table : String) (columns : List String) (rows : InsertRows) :
    Adds (entries rows.pieces) (inferInsert setting table columns rows) := by
  refine behind (kept.tableColumns _ _ _) fun all => ?_
  refine behind (kept.lift _) fun targets => ?_
  cases rows with
  | values rows =>
    refine congr (Adds.rows setting targets rows) ?_
    simp [InsertRows.pieces]
  | query q =>
    refine (query setting [] q).before fun result => ?_
    split
    · exact throw_bind _ _
    · exact kept.bindRow _ _ _

theorem assignments (setting : Setting) (scope : Scope) (as : List Assignment) :
    Adds ((as.map Assignment.pieces).flatMap entries) (inferAssignments setting scope as) := by
  induction as with
  | nil => exact pure _
  | cons a rest ih =>
    have hpieces : ((a :: rest).map Assignment.pieces).flatMap entries =
        entries a.value.pieces ++ (rest.map Assignment.pieces).flatMap entries := by
      simp [Assignment.pieces]
    rw [hpieces]
    refine behind (kept.resolve _ _) fun _ => ?_
    refine (expr setting scope a.value).bind fun _ => ?_
    refine behind (kept.reference _) fun _ => behind (demand _) fun _ => ?_
    exact behind (kept.matchNull _ _) fun _ => ih

theorem delete (setting : Setting) (table : String) (criteria : Option Expr) :
    Adds (entries (optionPieces " WHERE " criteria)) (inferDelete setting table criteria) := by
  refine behind (kept.tableColumns _ _ _) fun _ => ?_
  exact (option setting _ " WHERE " criteria).before fun _ => pure _

end Adds

/-- An UPDATE adds the entries of its assignments, counts them, and adds those of its criteria. -/
theorem inferUpdate_entries {setting : Setting} {table : String} {assignments : List Assignment}
    {criteria : Option Expr} {written : Nat} {run : Run}
    (h : (inferUpdate setting table assignments criteria).outcome .start = .ok (written, run)) :
    written = (entries (Statement.written (.update table assignments criteria))).length ∧
      run.entries = entries (Statement.pieces (.update table assignments criteria)) := by
  obtain ⟨columns, r₁, r₂, found, htable, hassignments, hcriteria, rfl⟩ := clauses_of_update h
  have h₁ := Adds.kept.tableColumns _ _ _ _ _ _ htable
  have h₂ := Adds.assignments setting _ assignments _ _ _ hassignments
  have h₃ := Adds.option setting _ " WHERE " criteria _ _ _ hcriteria
  have hwritten : r₂.entries = entries (Statement.written (.update table assignments criteria)) := by
    rw [h₂, h₁]
    simp [Statement.written, Run.entries, Run.start]
  constructor
  · rw [← hwritten]
    exact (List.length_map _).symm
  · rw [h₃, hwritten]
    simp [Statement.pieces]

/-- The walk over a statement collects the placeholders of its text, those of the assignments of an
UPDATE in front. -/
theorem inferStatement_entries {setting : Setting} {s : Statement} {analysis : Analysis} {run : Run}
    (h : (inferStatement setting s).outcome .start = .ok (analysis, run)) :
    analysis.written = (entries s.written).length ∧ run.entries = entries s.pieces := by
  cases s with
  | select q =>
    obtain ⟨result, hwalk, rfl⟩ := walk_of_select h
    exact ⟨rfl, Adds.query setting [] q _ _ _ hwalk⟩
  | insert table columns rows =>
    obtain ⟨hwalk, rfl⟩ := walk_of_insert h
    exact ⟨rfl, Adds.insert setting table columns rows _ _ _ hwalk⟩
  | update table assignments criteria =>
    obtain ⟨written, hwalk, rfl⟩ := walk_of_update h
    exact inferUpdate_entries hwalk
  | delete table criteria =>
    obtain ⟨hwalk, rfl⟩ := walk_of_delete h
    exact ⟨rfl, Adds.delete setting table criteria _ _ _ hwalk⟩

/-! ## Descriptions -/

/-- Entries under their names, from a place on: an unnamed one is named by its place, counted
from 1. -/
def numbered (start : Nat) (es : List Entry) : List (String × Bool) :=
  (es.zipIdx start).map fun (e, index) =>
    (e.name.getD ("param" ++ toString (index + 1)), e.list)

/-- A described placeholder by its name, and whether it is a list. -/
def ResultParameter.named (p : ResultParameter) : String × Bool := (p.name, p.list)

theorem numbered_append (xs ys : List Entry) :
    numbered 0 (xs ++ ys) = numbered 0 xs ++ numbered xs.length ys := by
  simp [numbered, List.zipIdx_append]

theorem length_numbered (start : Nat) (es : List Entry) : (numbered start es).length = es.length := by
  simp [numbered]

/-- The placeholders of a description are those of the run, numbered. -/
theorem named_of_run (ps : List Placeholder) (solution : Solution) (profile : Profile) :
    (ps.zipIdx.map fun (p, index) => p.result index solution profile).map ResultParameter.named =
      numbered 0 (ps.map Placeholder.entry) := by
  unfold numbered
  rw [List.zipIdx_map, List.map_map, List.map_map]
  rfl

/-- The placeholders of the assignments stand in front of the others. -/
theorem exists_entries_pieces (s : Statement) :
    ∃ rest, entries s.pieces = entries s.written ++ rest := by
  cases s with
  | update table assignments criteria => exact ⟨_, by simp [Statement.pieces]; rfl⟩
  | _ => exact ⟨_, rfl⟩

/-- A description holds the placeholders of the run, cut behind those of the assignments. -/
theorem data_of (profile : Profile) {s : Statement} {analysis : Analysis} (run : Run)
    (solution : Solution) (h : analysis.written = (entries s.written).length) :
    let d := Description.of profile s analysis run solution
    let all := run.placeholders.zipIdx.map fun (p, index) => p.result index solution profile
    d.data = all.take (entries s.written).length ∧ d.data ++ d.parameters = all := by
  intro d all
  cases s with
  | update table assignments criteria =>
    exact ⟨congrArg (fun n => all.take n) h, List.take_append_drop _ all⟩
  | _ => exact ⟨rfl, rfl⟩

/-- The placeholders of a statement are described in the order of its text, and those in the
assignments of an UPDATE as its data. -/
theorem describe_placeholders {setting : Setting} {s : Statement} {d : Description}
    (h : describe setting s = .ok d) :
    textOf s.pieces = s.text ∧
      (d.data ++ d.parameters).map ResultParameter.named = numbered 0 (entries s.pieces) ∧
      d.data.map ResultParameter.named = numbered 0 (entries s.written) := by
  obtain ⟨analysis, run, solution, hwalk, -, rfl⟩ := describe_eq_ok_iff.1 h
  obtain ⟨hwritten, hentries⟩ := inferStatement_entries hwalk
  obtain ⟨hdata, hall⟩ := data_of setting.profile run solution hwritten
  have hnamed := named_of_run run.placeholders solution setting.profile
  have hrun : run.placeholders.map Placeholder.entry = entries s.pieces := hentries
  refine ⟨s.textOf_pieces, ?_, ?_⟩
  · rw [hall, hnamed, hrun]
  · obtain ⟨rest, hrest⟩ := exists_entries_pieces s
    rw [hdata, List.map_take, hnamed, hrun, hrest, numbered_append]
    exact List.take_left' (length_numbered 0 _)

/-- `SELECT :a AS x FROM (SELECT ? AS y) t ORDER BY ?`. -/
def sortedPair : Select :=
  ⟨[], [⟨false, [.expr (.parameter (some "a")) (some "x")],
    [.derived ⟨[], [⟨false, [.expr (.parameter none) (some "y")], [], [], none, [], none⟩], [],
      none⟩ "t"], [], none, [], none⟩], [⟨.parameter none, false⟩], none⟩

/-- `UPDATE mytable1 SET id = ? WHERE id IN (?) AND EXISTS (...)`. -/
def updateListed : Statement :=
  .update "mytable1" [⟨"id", .parameter none⟩]
    (some (.and (.inList false (.column ⟨none, "id"⟩) [.parameter none]) (.hasRows sortedPair)))

theorem describe_placeholders_updateListed :
    ∃ d, describe ⟨oneTable, .mysql⟩ updateListed = .ok d ∧
      (d.data ++ d.parameters).map ResultParameter.named =
        [("param1", false), ("param2", true), ("a", false), ("param4", false)] ∧
      d.data.map ResultParameter.named = [("param1", false)] := by
  have hd : (describe ⟨oneTable, .mysql⟩ updateListed).isOk = true := by decide +kernel
  rcases exists_of_isOk hd with ⟨d, hd⟩
  rcases describe_placeholders hd with ⟨_, hall, hdata⟩
  have hpieces : numbered 0 (entries updateListed.pieces) =
      [("param1", false), ("param2", true), ("a", false), ("param4", false)] := by
    decide +kernel
  have hwritten : numbered 0 (entries updateListed.written) = [("param1", false)] := by
    decide +kernel
  exact ⟨d, hd, hall.trans hpieces, hdata.trans hwritten⟩

end QuerySignature
