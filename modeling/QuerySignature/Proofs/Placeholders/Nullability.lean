import QuerySignature.Proofs.Placeholders.Forced
import QuerySignature.Proofs.Sources.Link

namespace QuerySignature

/-! # Placeholders that may not be null

The walk says of a placeholder that it is not null after it has collected it, by its number, when it
comes to the form that the placeholder is an operand of. In between it may have collected others, and
cut off and put back those of a FROM clause. It says so of no placeholder but those whose place asks
for it.

- `placed_of_expr`: the number that is kept with an expression is that of a bare placeholder.
- `Leads.expr`, `Leads.query`, ...: an expression, or a query, adds its marks.
-/

/-- The number that is kept with an expression is that of a bare placeholder. -/
theorem placed_of_expr {setting : Setting} {scope : Scope} : ∀ {e : Expr} {r s : Run} {a : Inferred},
    (inferExpr setting scope e).outcome r = .ok (a, s) → a.Placed r.marks.length e.marks
  | .parameter name, r, s, a, h => by
    have hplaced := (Leads.addPlaceholder (m := r.marks) name false r a s rfl h).2
    have hmarks : ∀ asked, (Expr.parameter name).marks asked = [⟨⟨name, false⟩, asked⟩] :=
      fun asked => by simp [Expr.marks]
    simpa only [Inferred.Placed, hmarks] using hplaced
  | .paren inner, r, s, a, h => by
    unfold inferExpr at h
    have hplaced := placed_of_expr (e := inner) h
    have hmarks : ∀ asked, (Expr.paren inner).marks asked = inner.marks asked :=
      fun asked => by simp [Expr.marks]
    simpa only [Inferred.Placed, hmarks] using hplaced
  | .literal _, r, s, a, h | .column _, r, s, a, h | .arithmetic .., r, s, a, h
  | .compare .., r, s, a, h | .between .., r, s, a, h | .inList .., r, s, a, h
  | .inQuery .., r, s, a, h | .like .., r, s, a, h | .isNull .., r, s, a, h | .and .., r, s, a, h
  | .or .., r, s, a, h | .not _, r, s, a, h | .call .., r, s, a, h | .case .., r, s, a, h
  | .scalar _, r, s, a, h | .hasRows _, r, s, a, h | .star, r, s, a, h =>
    .inr ⟨unplaced_of_not_isParameter rfl r a s h, Expr.marks_of_not_isParameter rfl⟩

/-! ## Output columns -/

/-- If an output column is a placeholder, the place of that asks for nothing. -/
def OutputColumn.Unasked (marks : List Mark) (c : OutputColumn) : Prop :=
  ∀ i, c.placeholder = some i → ∃ mark, marks[i]? = some mark ∧ mark.notNull = false

theorem OutputColumn.Unasked.mono {marks marks' : List Mark} {c : OutputColumn}
    (h : c.Unasked marks) (hgrows : marks <+: marks') : c.Unasked marks' := by
  intro i hi
  obtain ⟨mark, hmark, hnull⟩ := h i hi
  obtain ⟨later, rfl⟩ := hgrows
  refine ⟨mark, ?_, hnull⟩
  rw [List.getElem?_append_left (List.getElem?_eq_some_iff.1 hmark).1, hmark]

theorem unasked_of_star {level : Level} {r s : Run} {cs : List OutputColumn}
    (h : (inferStar level).outcome r = .ok (cs, s)) (marks : List Mark) :
    ∀ c ∈ cs, c.Unasked marks :=
  forall_of_star (fun _ _ _ => nofun) h

/-- The columns of a union are placeholders as those of its first branch are. -/
theorem placeholder_of_unionColumns {others : List BranchResult} {first columns : List OutputColumn}
    (h : unionColumns first others = .ok columns) :
    ∀ c ∈ columns, ∃ d ∈ first, c.placeholder = d.placeholder := by
  induction others generalizing first with
  | nil =>
    cases h
    exact fun c hc => ⟨c, hc, rfl⟩
  | cons branch rest ih =>
    unfold unionColumns at h
    split at h
    · intro c hc
      obtain ⟨d, hd, hplaceholder⟩ := ih h c hc
      obtain ⟨i, hi, rfl⟩ := List.getElem_of_mem hd
      rw [List.getElem_zipWith] at hplaceholder
      exact ⟨_, List.getElem_mem _, hplaceholder⟩
    · cases h

/-! ## The walk -/

namespace Leads

mutual

theorem expr (setting : Setting) (scope : Scope) (e : Expr) (m : List Mark) :
    Leads m (inferExpr setting scope e) (m ++ e.marks false) (·.Placed m.length e.marks) := by
  -- where the placeholder of an expression stands is read off its form
  refine also ?_ fun r a s hr hrun => hr ▸ placed_of_expr hrun
  match e with
  | .literal value =>
    exact (quiet (Quiet.kept.literal _ value)).congr rfl (by simp [Expr.marks])
  | .column c => exact (quiet (Quiet.kept.column scope c)).congr rfl (by simp [Expr.marks])
  | .parameter name =>
    exact (addPlaceholder name false).forget.congr rfl (by simp [Expr.marks])
  | .paren inner =>
    exact (expr setting scope inner m).forget.congr rfl (by simp [Expr.marks])
  | .arithmetic op left right =>
    refine (expr setting scope left m).bind fun _ _ => ?_
    refine (expr setting scope right _).bind fun _ _ => ?_
    exact (quiet (Quiet.kept.arithmetic _ _ _)).congr rfl (by simp [Expr.marks])
  | .compare op left right =>
    refine (expr setting scope left m).bind fun _ hl => ?_
    refine (expr setting scope right _).bind fun _ hr => ?_
    exact (compare _ hl hr).congr rfl (by simp [Expr.marks])
  | .between negated value low high =>
    refine (expr setting scope value m).bind fun _ hv => ?_
    refine (expr setting scope low _).bind fun _ hl => ?_
    refine (expr setting scope high _).bind fun _ hr => ?_
    exact (between _ hv hl hr).congr rfl (by simp [Expr.marks])
  | .inList negated value items =>
    refine (expr setting scope value m).bind fun v hv => ?_
    refine (forceLast hv).bind fun _ _ => ?_
    dsimp only
    cases hsole : soleParameter? items with
    | some name =>
      refine (addPlaceholder name true).bind fun list hlist => ?_
      refine (pure (P := (· = [list])) rfl).bind fun _ hsingle => ?_
      subst hsingle
      exact (inSoleList _ v hlist).congr rfl (by simp [Expr.marks, hsole])
    | none =>
      refine (all setting scope items _).bind fun _ hitems => ?_
      exact (inList _ v hitems).congr rfl (by simp [Expr.marks, hsole])
  | .inQuery negated value q =>
    refine (expr setting scope value m).bind fun v hv => ?_
    refine (forceLast hv).bind fun _ _ => ?_
    refine (query setting scope.levels q _).bind fun _ _ => ?_
    refine of_quiet (Quiet.kept.firstColumn _ _) fun _ => ?_
    exact (quiet (Quiet.kept.inQuery _ _ _ _)).congr rfl (by simp [Expr.marks])
  | .like negated value pattern =>
    refine (expr setting scope value m).bind fun _ hl => ?_
    refine (expr setting scope pattern _).bind fun _ hr => ?_
    exact (like _ hl hr).congr rfl (by simp [Expr.marks])
  | .isNull negated value =>
    refine (expr setting scope value m).bind fun _ _ => ?_
    exact (quiet (Quiet.kept.predicate _ _)).congr rfl (by simp [Expr.marks])
  | .and left right =>
    refine (expr setting scope left m).bind fun _ _ => ?_
    refine (expr setting scope right _).bind fun _ _ => ?_
    exact (quiet (Quiet.kept.predicate _ _)).congr rfl (by simp [Expr.marks])
  | .or left right =>
    refine (expr setting scope left m).bind fun _ _ => ?_
    refine (expr setting scope right _).bind fun _ _ => ?_
    exact (quiet (Quiet.kept.predicate _ _)).congr rfl (by simp [Expr.marks])
  | .not operand =>
    refine (expr setting scope operand m).bind fun _ _ => ?_
    exact (quiet (Quiet.kept.predicate _ _)).congr rfl (by simp [Expr.marks])
  | .call function distinct es =>
    refine (arguments setting scope es m).bind fun _ hes => ?_
    exact (call _ function _ hes).congr rfl (by simp [Expr.marks])
  | .case operand branches otherwise =>
    refine (option setting scope operand m).bind fun o ho => ?_
    refine of_quiet (Quiet.fresh _ _) fun v => ?_
    refine (caseBranches setting scope o v branches _).bind fun _ _ => ?_
    refine (caseElse setting scope v otherwise _).bind fun _ _ => ?_
    exact (quiet (Quiet.pure _)).congr rfl (by simp [Expr.marks, ho])
  | .scalar q =>
    refine (query setting scope.levels q m).bind fun _ _ => ?_
    refine of_quiet (Quiet.kept.firstColumn _ _) fun _ => ?_
    exact (quiet (Quiet.pure _)).congr rfl (by simp [Expr.marks])
  | .hasRows q =>
    refine (query setting scope.levels q m).bind fun _ _ => ?_
    exact (quiet (Quiet.kept.predicate _ _)).congr rfl (by simp [Expr.marks])
  | .star => exact throw _

theorem all (setting : Setting) (scope : Scope) (es : List Expr) (m : List Mark) :
    Leads m (inferAll setting scope es) (m ++ marksOfAll (fun _ => false) es)
      (PlacedAll m.length es) := by
  match es with
  | [] =>
    rw [marksOfAll, List.append_nil]
    exact pure (.nil _)
  | e :: rest =>
    cases hstar : e.isStar with
    | true =>
      obtain rfl : e = .star := by cases e <;> first | rfl | cases hstar
      exact throw _
    | false =>
      refine (expr setting scope e m).bind fun _ hplaced => ?_
      refine (all setting scope rest _).bind fun _ hrest => ?_
      rw [List.length_append] at hrest
      refine (pure ?_).congr rfl (by simp [marksOfAll, hstar])
      exact .cons hstar hplaced hrest

theorem arguments (setting : Setting) (scope : Scope) (es : List Expr) (m : List Mark) :
    Leads m (inferArguments setting scope es) (m ++ marksOfAll (fun _ => false) es)
      (PlacedAll m.length es) := by
  match es with
  | [] =>
    rw [marksOfAll, List.append_nil]
    exact pure (.nil _)
  | e :: rest =>
    unfold inferArguments
    split
    · next hstar =>
      rw [marksOfAll, if_pos hstar]
      intro r a s hr hrun
      obtain ⟨hmarks, hplaced⟩ := arguments setting scope rest m r a s hr hrun
      exact ⟨hmarks, .star hstar hplaced⟩
    · next hstar =>
      refine (expr setting scope e m).bind fun _ hplaced => ?_
      refine (arguments setting scope rest _).bind fun _ hrest => ?_
      rw [List.length_append] at hrest
      refine (pure ?_).congr rfl (by simp [marksOfAll, hstar])
      exact .cons (by simpa using hstar) hplaced hrest

theorem option (setting : Setting) (scope : Scope) (o : Option Expr) (m : List Mark) :
    Leads m (inferSome setting scope o) (m ++ marksOfSome o) (·.isSome = o.isSome) := by
  match o with
  | none =>
    rw [marksOfSome, List.append_nil]
    exact pure rfl
  | some e => exact (expr setting scope e m).bind fun _ _ => pure rfl

theorem caseBranches (setting : Setting) (scope : Scope) (operand : Option Inferred)
    (result : TypeVar) (bs : List WhenThen) (m : List Mark) :
    Leads m (inferBranches setting scope operand result bs)
      (m ++ marksOfBranches operand.isSome bs) fun _ => True := by
  match bs with
  | [] => exact (pure trivial).congr rfl (by simp [marksOfBranches])
  | ⟨condition, value⟩ :: rest =>
    refine (expr setting scope condition m).bind fun _ hc => ?_
    refine (caseWhen _ operand hc).bind fun _ _ => ?_
    refine (expr setting scope value _).bind fun _ _ => ?_
    refine of_quiet (Quiet.demand _) fun _ => ?_
    refine (caseBranches setting scope operand result rest _).bind fun _ _ => ?_
    exact (pure trivial).congr rfl (by simp [marksOfBranches])

theorem caseElse (setting : Setting) (scope : Scope) (result : TypeVar) (o : Option Expr)
    (m : List Mark) :
    Leads m (inferElse setting scope result o) (m ++ marksOfSome o) fun _ => True := by
  match o with
  | none => exact (pure trivial).congr rfl (by simp [marksOfSome])
  | some e =>
    refine (expr setting scope e m).bind fun _ _ => ?_
    refine of_quiet (Quiet.demand _) fun _ => ?_
    exact (pure trivial).congr rfl (by simp [marksOfSome])

theorem query (setting : Setting) (outer : List Level) (q : Select) (m : List Mark) :
    Leads m (inferQuery setting outer q) (m ++ q.marks)
      fun result => ∀ c ∈ result.columns, c.Unasked (m ++ q.marks) := by
  match q with
  | ⟨ctes, branches, order, limit⟩ =>
    intro r result s hr hrun
    obtain ⟨r₁, results, r₂, ⟨first, columns⟩, r₃, r₄, hctes, hbranches, hhead, horder, hlimit, rfl,
      rfl⟩ := clauses_of_query hrun
    have h₁ := (tables setting outer ctes m _ _ _ hr hctes).1
    obtain ⟨h₂, hunasked⟩ := union setting outer branches _ _ _ _ h₁ hbranches
    have h₃ := (orderBy setting _ order _ _ _ _ h₂ horder).1
    have h₄ := (limitTo setting _ limit _ _ _ _ h₃ hlimit).1
    have hmarks : m ++ Select.marks ⟨ctes, branches, order, limit⟩ =
        m ++ marksOfCtes ctes ++ marksOfUnion branches ++ marksOfOrder order ++
          marksOfLimit limit := by simp [Select.marks]
    refine ⟨h₄.trans hmarks.symm, ?_⟩
    intro c hc
    obtain ⟨others, rfl, hcolumns⟩ := exists_of_unionOf hhead
    obtain ⟨d, hd, hplaceholder⟩ := placeholder_of_unionColumns hcolumns c hc
    have hd : d.Unasked (m ++ marksOfCtes ctes ++ marksOfUnion branches) :=
      hunasked first List.mem_cons_self d hd
    rw [hmarks, List.append_assoc (m ++ marksOfCtes ctes ++ marksOfUnion branches)]
    exact OutputColumn.Unasked.mono (fun i hi => hd i (hplaceholder ▸ hi)) (List.prefix_append _ _)

theorem tables (setting : Setting) (outer : List Level) (ctes : List Cte) (m : List Mark) :
    Leads m (inferCtes setting outer ctes) (m ++ marksOfCtes ctes) fun _ => True := by
  match ctes with
  | [] => exact (pure trivial).congr rfl (by simp [marksOfCtes])
  | ⟨name, q⟩ :: rest =>
    refine (query setting outer q m).bind fun _ _ => ?_
    refine of_quiet (Quiet.declareCte _ _) fun _ => ?_
    exact (tables setting outer rest _).congr rfl (by simp [marksOfCtes])

theorem union (setting : Setting) (outer : List Level) (bs : List Branch) (m : List Mark) :
    Leads m (inferUnion setting outer bs) (m ++ marksOfUnion bs)
      fun results => ∀ b ∈ results, ∀ c ∈ b.columns, c.Unasked (m ++ marksOfUnion bs) := by
  match bs with
  | [] =>
    rw [marksOfUnion, List.append_nil]
    exact pure fun _ hb => absurd hb List.not_mem_nil
  | b :: rest =>
    refine (branch setting outer b m).bind fun first hfirst => ?_
    refine (union setting outer rest _).bind fun others hothers => ?_
    have hmarks : m ++ b.marks ++ marksOfUnion rest = m ++ marksOfUnion (b :: rest) := by
      simp [marksOfUnion]
    rw [← hmarks]
    refine pure fun result hresult c hc => ?_
    rcases List.mem_cons.1 hresult with rfl | hresult
    · exact (hfirst c hc).mono (List.prefix_append _ _)
    · exact hothers result hresult c hc

theorem branch (setting : Setting) (outer : List Level) (b : Branch) (m : List Mark) :
    Leads m (inferBranch setting outer b) (m ++ b.marks)
      fun result => ∀ c ∈ result.columns, c.Unasked (m ++ b.marks) := by
  match b with
  | ⟨distinct, items, sources, joins, criteria, group, having⟩ =>
    intro r result s hr hrun
    subst hr
    obtain ⟨⟨joined, columns⟩, r₄, _, r₅, _, hfront, hgroup, hhaving, rfl⟩ := clauses_of_branch hrun
    obtain ⟨listed, r₁, r₂, r₃, _, hlisted, hjoined, hitems, hcriteria⟩ := clauses_of_front hfront
    have h₁ := (sourceList setting _ sources _ _ _ _ rfl hlisted).1
    have h₂ := (joinList setting outer _ _ joins _ _ _ _ h₁ hjoined).1
    rw [List.append_assoc] at h₂
    obtain ⟨hkept, hlater⟩ := map_cut h₂
    obtain ⟨h₃, hunasked⟩ := itemList setting ⟨joined.columns, outer⟩ items r.marks
      { r₂ with placeholders := r₂.placeholders.take r.placeholders.length } _ _ hkept hitems
    have hfront : Run.marks { r₃ with
        placeholders := r₃.placeholders ++ r₂.placeholders.drop r.placeholders.length } =
        r.marks ++ marksOfItems items ++ (marksOfSources sources ++ marksOfJoins joins) := by
      unfold Run.marks at h₃ ⊢
      rw [List.map_append, hlater, h₃]
    have h₄ := (option setting _ criteria _ _ _ _ hfront hcriteria).1
    have h₅ := (all setting _ group _ _ _ _ h₄ hgroup).1
    have h₆ := (option setting _ having _ _ _ _ h₅ hhaving).1
    have hmarks : r.marks ++ Branch.marks ⟨distinct, items, sources, joins, criteria, group, having⟩ =
        r.marks ++ marksOfItems items ++ (marksOfSources sources ++ marksOfJoins joins) ++
          marksOfSome criteria ++ marksOfAll (fun _ => false) group ++ marksOfSome having := by
      simp [Branch.marks]
    refine ⟨h₆.trans hmarks.symm, ?_⟩
    -- what is proven of a column leaves its placeholder as it is
    intro c hc
    obtain ⟨d, hd, rfl⟩ := List.mem_map.1 hc
    have hgrows : r.marks ++ marksOfItems items <+: r.marks ++
        Branch.marks ⟨distinct, items, sources, joins, criteria, group, having⟩ := by
      rw [hmarks]
      simp only [List.append_assoc]
      exact ⟨_, by rw [List.append_assoc]⟩
    exact (hunasked d hd).mono hgrows

theorem itemList (setting : Setting) (scope : Scope) (items : List Item) (m : List Mark) :
    Leads m (inferItems setting scope items) (m ++ marksOfItems items)
      fun cs => ∀ c ∈ cs, c.Unasked (m ++ marksOfItems items) := by
  match items with
  | [] =>
    rw [marksOfItems, List.append_nil]
    exact pure fun _ hc => absurd hc List.not_mem_nil
  | item :: rest =>
    refine (projected setting scope item m).bind fun first hfirst => ?_
    refine (itemList setting scope rest _).bind fun others hothers => ?_
    have hmarks : m ++ item.marks ++ marksOfItems rest = m ++ marksOfItems (item :: rest) := by
      simp [marksOfItems]
    rw [← hmarks]
    refine pure fun c hc => ?_
    rcases List.mem_append.1 hc with hc | hc
    · exact (hfirst c hc).mono (List.prefix_append _ _)
    · exact hothers c hc

theorem projected (setting : Setting) (scope : Scope) (item : Item) (m : List Mark) :
    Leads m (inferItem setting scope item) (m ++ item.marks)
      fun cs => ∀ c ∈ cs, c.Unasked (m ++ item.marks) := by
  match item with
  | .star =>
    rw [Item.marks, List.append_nil]
    exact (quiet (Quiet.kept.star _)).also fun r cs s _ hrun => unasked_of_star hrun m
  | .tableStar table =>
    rw [Item.marks, List.append_nil]
    unfold inferItem
    split
    · exact throw _
    · exact (quiet (Quiet.kept.star _)).also fun r cs s _ hrun => unasked_of_star hrun m
  | .expr value aliasName =>
    rw [Item.marks]
    refine (expr setting scope value m).bind fun a ha => pure ?_
    intro c hc i hi
    rw [List.mem_singleton.1 hc] at hi
    replace hi : a.placeholder = some i := hi
    rcases ha with ⟨entry, hplaceholder, hmarks⟩ | ⟨hplaceholder, -⟩
    · obtain rfl : m.length = i := Option.some.inj (hplaceholder.symm.trans hi)
      refine ⟨⟨entry, false⟩, ?_, rfl⟩
      have hmark : value.marks false = [⟨entry, false⟩] := hmarks false
      rw [hmark, List.getElem?_concat_length]
    · rw [hplaceholder] at hi
      cases hi

theorem sourceList (setting : Setting) (done : Sources) (xs : List Source) (m : List Mark) :
    Leads m (inferSources setting done xs) (m ++ marksOfSources xs) fun _ => True := by
  match xs with
  | [] => exact (pure trivial).congr rfl (by simp [marksOfSources])
  | x :: rest =>
    refine (source setting x m).bind fun _ _ => ?_
    exact (sourceList setting _ rest _).congr rfl (by simp [marksOfSources])

theorem source (setting : Setting) (x : Source) (m : List Mark) :
    Leads m (inferSource setting x) (m ++ x.marks) fun _ => True := by
  match x with
  | .table name aliasName =>
    exact (quiet (Quiet.kept.tableColumns _ _ _)).congr rfl (by simp [Source.marks])
  | .derived q aliasName =>
    refine (query setting [] q m).bind fun _ _ => ?_
    exact (pure trivial).congr rfl (by simp [Source.marks])

theorem joinList (setting : Setting) (outer : List Level) (done : Sources) (previous : String)
    (js : List Join) (m : List Mark) :
    Leads m (inferJoins setting outer done previous js) (m ++ marksOfJoins js) fun _ => True := by
  match js with
  | [] => exact (pure trivial).congr rfl (by simp [marksOfJoins])
  | ⟨kind, x, on⟩ :: rest =>
    refine (source setting x m).bind fun _ _ => ?_
    refine (condition setting _ on _).bind fun _ _ => ?_
    exact (joinList setting outer _ _ rest _).congr rfl (by simp [marksOfJoins])

theorem condition (setting : Setting) (scope : Scope) (c : JoinCondition) (m : List Mark) :
    Leads m (inferCondition setting scope c) (m ++ c.marks) fun _ => True := by
  match c with
  | .predicate e =>
    refine (expr setting scope e m).bind fun _ _ => ?_
    exact (pure trivial).congr rfl (by simp [JoinCondition.marks])
  | .shared _ => exact (pure trivial).congr rfl (by simp [JoinCondition.marks])
  | .unconditional => exact (pure trivial).congr rfl (by simp [JoinCondition.marks])

theorem orderBy (setting : Setting) (scope : Scope) (terms : List OrderTerm) (m : List Mark) :
    Leads m (inferOrder setting scope terms) (m ++ marksOfOrder terms) fun _ => True := by
  match terms with
  | [] => exact (pure trivial).congr rfl (by simp [marksOfOrder])
  | ⟨value, descending⟩ :: rest =>
    unfold inferOrder
    split
    · next hparameter =>
      exact (orderBy setting scope rest m).congr rfl (by simp [marksOfOrder, hparameter])
    · next hparameter =>
      refine (expr setting scope value m).bind fun _ _ => ?_
      exact (orderBy setting scope rest _).congr rfl (by simp [marksOfOrder, hparameter])

theorem limitTo (setting : Setting) (scope : Scope) (l : Option Limit) (m : List Mark) :
    Leads m (inferLimit setting scope l) (m ++ marksOfLimit l) fun _ => True := by
  match l with
  | none => exact (pure trivial).congr rfl (by simp [marksOfLimit])
  | some ⟨count, offset⟩ =>
    refine (expr setting scope count m).bind fun _ hc => ?_
    refine (bound _ hc).bind fun _ _ => ?_
    exact (offsetBy setting scope offset _).congr rfl (by simp [marksOfLimit])

theorem offsetBy (setting : Setting) (scope : Scope) (o : Option Expr) (m : List Mark) :
    Leads m (inferOffset setting scope o) (m ++ marksOfOffset o) fun _ => True := by
  match o with
  | none => exact (pure trivial).congr rfl (by simp [marksOfOffset])
  | some offset =>
    refine (expr setting scope offset m).bind fun _ ho => ?_
    exact (bound _ ho).congr rfl (by simp [marksOfOffset])

end

end Leads

end QuerySignature
