import QuerySignature.Proofs.Walk.Clauses
import QuerySignature.Proofs.Walk.Tables

namespace QuerySignature

/-! # The walk, side by side

Two walks over one expression or one query go side by side, from matching scopes and from runs that
see alike the common tables that the text reads. The proof follows the walk: one case for each form
of expression and for each clause.

- `Parallel.expr`: for expressions.
- `Parallel.query`: for queries.
-/

/-- What a query does once its common tables are known. -/
def inferBody (setting : Setting) (outer : List Level) (q : Select) : Analyze QueryResult := do
  let results ← inferUnion setting outer q.branches
  match results with
  | [] => throw (.unsupported q.text)
  | first :: others => do
    let columns ← lift (unionColumns first.columns others)
    inferOrder setting ⟨levelOf "" columns, first.visible :: outer⟩ q.order
    inferLimit setting ⟨first.visible, outer⟩ q.limit
    pure (.of first columns q.branches q.order q.limit)

theorem inferQuery_eq (setting : Setting) (outer : List Level) (q : Select) :
    inferQuery setting outer q =
      keepingCtes (inferCtes setting outer q.ctes >>= fun _ => inferBody setting outer q) := by
  cases q
  rfl

namespace Parallel

/-- Whatever is read of a list of tables is among the names that are seen alike. -/
abbrev Reads (T : String → Prop) (tables : List String) : Prop := ∀ t ∈ tables, T (lastSegment t)

theorem reads_all (tables : List String) : Reads (fun _ => True) tables := fun _ _ => trivial

theorem reads_append {T : String → Prop} {first second : List String}
    (h : Reads T (first ++ second)) : Reads T first ∧ Reads T second :=
  ⟨fun t ht => h t (List.mem_append_left _ ht), fun t ht => h t (List.mem_append_right _ ht)⟩

mutual

theorem expr (setting : Setting) {F : Frame} {T : String → Prop} (e : Expr)
    (ht : Reads T e.tables) {made : List TypeInfo} {s s' : Scope}
    (hs : Scope.Matches F.ρ made s s') :
    Parallel F T made (Inferred.Matches F.ρ) (inferExpr setting s e) (inferExpr setting s' e) := by
  -- each part is walked with the variables that the parts before it have made
  match e with
  | .literal value => exact literal setting.profile value
  | .column c => exact column hs c
  | .parameter name => exact addPlaceholder name false
  | .paren inner => exact expr setting inner ht hs
  | .arithmetic op left right =>
    rcases reads_append ht with ⟨htl, htr⟩
    refine bind (expr setting left htl hs) fun made₁ hgrows₁ l l' hl => ?_
    refine bind (expr setting right htr (hs.mono hgrows₁)) fun made₂ hgrows₂ r r' hr => ?_
    exact arithmetic _ (hl.mono hgrows₂) hr
  | .compare op left right =>
    rcases reads_append ht with ⟨htl, htr⟩
    refine bind (expr setting left htl hs) fun made₁ hgrows₁ l l' hl => ?_
    refine bind (expr setting right htr (hs.mono hgrows₁)) fun made₂ hgrows₂ r r' hr => ?_
    exact compare setting _ (hl.mono hgrows₂) hr
  | .between negated value low high =>
    rcases reads_append ht with ⟨htvl, hth⟩
    rcases reads_append htvl with ⟨htv, htl⟩
    refine bind (expr setting value htv hs) fun made₁ hgrows₁ v v' hv => ?_
    have hs₁ := hs.mono hgrows₁
    refine bind (expr setting low htl hs₁) fun made₂ hgrows₂ l l' hl => ?_
    refine bind (expr setting high hth (hs₁.mono hgrows₂)) fun made₃ hgrows₃ h h' hh => ?_
    exact between setting _ ((hv.mono hgrows₂).mono hgrows₃) (hl.mono hgrows₃) hh
  | .inList negated value items =>
    rcases reads_append ht with ⟨htv, hti⟩
    refine bind (expr setting value htv hs) fun made₁ hgrows₁ v v' hv => ?_
    refine bind (forceNotNull hv.placeholder) fun made₂ hgrows₂ _ _ _ => ?_
    have hs₂ := (hs.mono hgrows₁).mono hgrows₂
    have hv₂ := hv.mono hgrows₂
    dsimp only
    cases soleParameter? items with
    | some name =>
      refine bind (addPlaceholder name true) fun made₃ hgrows₃ p p' hp => ?_
      have hsole : Parallel F T made₃ (fun made => List.Forall₂ (Inferred.Matches F.ρ made))
          (Pure.pure [p]) (Pure.pure [p']) := pure (.cons hp .nil)
      refine bind hsole fun made₄ hgrows₄ es es' hes => ?_
      exact inList setting _ ((hv₂.mono hgrows₃).mono hgrows₄) hes
    | none =>
      refine bind (all setting items hti hs₂) fun made₃ hgrows₃ es es' hes => ?_
      exact inList setting _ (hv₂.mono hgrows₃) hes
  | .inQuery negated value q =>
    rcases reads_append ht with ⟨htv, htq⟩
    refine bind (expr setting value htv hs) fun made₁ hgrows₁ v v' hv => ?_
    refine bind (forceNotNull hv.placeholder) fun made₂ hgrows₂ _ _ _ => ?_
    have hs₂ := (hs.mono hgrows₁).mono hgrows₂
    refine bind (query setting q htq hs₂.levels) fun made₃ hgrows₃ result result' hresult => ?_
    refine bind (firstColumn _ hresult) fun made₄ hgrows₄ c c' hc => ?_
    exact inQuery setting _ (((hv.mono hgrows₂).mono hgrows₃).mono hgrows₄) hc
  | .like negated value pattern =>
    rcases reads_append ht with ⟨htv, htp⟩
    refine bind (expr setting value htv hs) fun made₁ hgrows₁ v v' hv => ?_
    refine bind (expr setting pattern htp (hs.mono hgrows₁)) fun made₂ hgrows₂ p p' hp => ?_
    exact like setting _ (hv.mono hgrows₂) hp
  | .isNull negated value =>
    refine bind (expr setting value ht hs) fun _ _ _ _ _ => ?_
    exact predicate setting _
  | .and left right =>
    rcases reads_append ht with ⟨htl, htr⟩
    refine bind (expr setting left htl hs) fun made₁ hgrows₁ _ _ _ => ?_
    refine bind (expr setting right htr (hs.mono hgrows₁)) fun _ _ _ _ _ => ?_
    exact predicate setting _
  | .or left right =>
    rcases reads_append ht with ⟨htl, htr⟩
    refine bind (expr setting left htl hs) fun made₁ hgrows₁ _ _ _ => ?_
    refine bind (expr setting right htr (hs.mono hgrows₁)) fun _ _ _ _ _ => ?_
    exact predicate setting _
  | .not operand =>
    refine bind (expr setting operand ht hs) fun _ _ _ _ _ => ?_
    exact predicate setting _
  | .call function distinct es =>
    refine bind (arguments setting es ht hs) fun _ _ es es' hes => ?_
    exact call setting.profile function _ hes
  | .case operand branches otherwise =>
    rcases reads_append ht with ⟨htob, hte⟩
    rcases reads_append htob with ⟨hto, htb⟩
    refine bind (some setting operand hto hs) fun made₁ hgrows₁ o o' ho => ?_
    refine bind (fresh _ _) fun made₂ hgrows₂ v v' hv => ?_
    have hs₂ := (hs.mono hgrows₁).mono hgrows₂
    have ho₂ : Option.Rel (Inferred.Matches F.ρ made₂) o o' := by
      cases ho with
      | some ho => exact .some (ho.mono hgrows₂)
      | none => exact .none
    refine bind (caseBranches setting branches htb hs₂ ho₂ hv) fun made₃ hgrows₃ b b' hb => ?_
    subst hb
    refine bind (caseElse setting otherwise hte (hs₂.mono hgrows₃) (hv.mono hgrows₃))
      fun made₄ hgrows₄ c c' hc => ?_
    subst hc
    exact pure (.ofVar ((hv.mono hgrows₃).mono hgrows₄) _)
  | .scalar q =>
    refine bind (query setting q ht hs.levels) fun made₁ _ result result' hresult => ?_
    refine bind (firstColumn _ hresult) fun made₂ _ c c' hc => ?_
    rw [hc.notNull]
    exact pure (.ofVar hc.var _)
  | .hasRows q =>
    refine bind (query setting q ht hs.levels) fun _ _ _ _ _ => ?_
    exact predicate setting _
  | .star => exact throw _

theorem all (setting : Setting) {F : Frame} {T : String → Prop} (es : List Expr)
    (ht : Reads T (tablesOfAll es)) {made : List TypeInfo} {s s' : Scope}
    (hs : Scope.Matches F.ρ made s s') :
    Parallel F T made (fun made => List.Forall₂ (Inferred.Matches F.ρ made))
      (inferAll setting s es) (inferAll setting s' es) := by
  match es with
  | [] => exact pure .nil
  | e :: rest =>
    rcases reads_append ht with ⟨hte, htr⟩
    refine bind (expr setting e hte hs) fun made₁ hgrows₁ i i' hi => ?_
    refine bind (all setting rest htr (hs.mono hgrows₁)) fun made₂ hgrows₂ is is' his => ?_
    exact pure (.cons (hi.mono hgrows₂) his)

theorem arguments (setting : Setting) {F : Frame} {T : String → Prop} (es : List Expr)
    (ht : Reads T (tablesOfAll es)) {made : List TypeInfo} {s s' : Scope}
    (hs : Scope.Matches F.ρ made s s') :
    Parallel F T made (fun made => List.Forall₂ (Inferred.Matches F.ρ made))
      (inferArguments setting s es) (inferArguments setting s' es) := by
  match es with
  | [] => exact pure .nil
  | e :: rest =>
    rcases reads_append ht with ⟨hte, htr⟩
    unfold inferArguments
    cases e.isStar with
    | true => exact arguments setting rest htr hs
    | false =>
      refine bind (expr setting e hte hs) fun made₁ hgrows₁ i i' hi => ?_
      refine bind (arguments setting rest htr (hs.mono hgrows₁)) fun made₂ hgrows₂ is is' his => ?_
      exact pure (.cons (hi.mono hgrows₂) his)

theorem some (setting : Setting) {F : Frame} {T : String → Prop} (o : Option Expr)
    (ht : Reads T (tablesOfSome o)) {made : List TypeInfo} {s s' : Scope}
    (hs : Scope.Matches F.ρ made s s') :
    Parallel F T made (fun made => Option.Rel (Inferred.Matches F.ρ made))
      (inferSome setting s o) (inferSome setting s' o) := by
  match o with
  | .none => exact pure .none
  | .some e => exact bind (expr setting e ht hs) fun _ _ i i' hi => pure (.some hi)

theorem caseBranches (setting : Setting) {F : Frame} {T : String → Prop} (bs : List WhenThen)
    (ht : Reads T (tablesOfBranches bs)) {made : List TypeInfo} {s s' : Scope}
    (hs : Scope.Matches F.ρ made s s') {o o' : Option Inferred}
    (ho : Option.Rel (Inferred.Matches F.ρ made) o o') {v v' : TypeVar}
    (hv : v.Matches F.ρ made v') :
    Parallel F T made (fun _ b b' => b' = b) (inferBranches setting s o v bs)
      (inferBranches setting s' o' v' bs) := by
  match bs with
  | [] => exact pure rfl
  | ⟨condition, value⟩ :: rest =>
    rcases reads_append ht with ⟨htcv, htr⟩
    rcases reads_append htcv with ⟨htc, htv⟩
    have hoMono : ∀ {made₁ : List TypeInfo}, made <+: made₁ →
        Option.Rel (Inferred.Matches F.ρ made₁) o o' := by
      intro made₁ hgrows
      cases ho with
      | some ho => exact .some (ho.mono hgrows)
      | none => exact .none
    refine bind (expr setting condition htc hs) fun made₁ hgrows₁ c c' hc => ?_
    refine bind (when setting _ (hoMono hgrows₁) hc) fun made₂ hgrows₂ _ _ _ => ?_
    have hgrows₁₂ := hgrows₁.trans hgrows₂
    refine bind (expr setting value htv (hs.mono hgrows₁₂)) fun made₃ hgrows₃ r r' hr => ?_
    have hgrows₁₃ := hgrows₁₂.trans hgrows₃
    refine bind (demand (.widest _ _ (hv.mono hgrows₁₃) hr.var)) fun made₄ hgrows₄ _ _ _ => ?_
    have hgrows₁₄ := hgrows₁₃.trans hgrows₄
    refine bind (caseBranches setting rest htr (hs.mono hgrows₁₄) (hoMono hgrows₁₄)
      (hv.mono hgrows₁₄)) fun made₅ _ b b' hb => ?_
    rw [hr.notNull, hb]
    exact pure rfl

theorem caseElse (setting : Setting) {F : Frame} {T : String → Prop} (o : Option Expr)
    (ht : Reads T (tablesOfSome o)) {made : List TypeInfo} {s s' : Scope}
    (hs : Scope.Matches F.ρ made s s') {v v' : TypeVar} (hv : v.Matches F.ρ made v') :
    Parallel F T made (fun _ b b' => b' = b) (inferElse setting s v o)
      (inferElse setting s' v' o) := by
  match o with
  | .none => exact pure rfl
  | .some e =>
    refine bind (expr setting e ht hs) fun made₁ hgrows₁ i i' hi => ?_
    refine bind (demand (.widest _ _ (hv.mono hgrows₁) hi.var)) fun made₂ _ _ _ _ => ?_
    exact pure hi.notNull

theorem query (setting : Setting) {F : Frame} {T : String → Prop} (q : Select)
    (ht : Reads T q.tables) {made : List TypeInfo} {outer outer' : List Level}
    (ho : LevelsMatch F.ρ made outer outer') :
    Parallel F T made (QueryResult.Matches F.ρ) (inferQuery setting outer q)
      (inferQuery setting outer' q) := by
  match q with
  | ⟨ctes, branches, order, limit⟩ =>
    rw [inferQuery_eq, inferQuery_eq]
    refine keepingCtes fun r r' hr hsees => ?_
    rw [Analyze.outcome_bind, Analyze.outcome_bind]
    refine (commonTables setting ctes _ ht ho r r' hr hsees).bind ?_
    rintro ⟨_, t⟩ ⟨_, t'⟩ ⟨made₁, hgrows₁, hruns₁, hsees₁⟩
    -- behind the common tables, the names that the rest of the query reads are seen alike
    have hbody : Parallel F (fun name => ∃ t ∈ tablesOfUnion branches ++ tablesOfOrder order ++
        tablesOfLimit limit, lastSegment t = name) made₁ (QueryResult.Matches F.ρ)
        (inferBody setting outer ⟨ctes, branches, order, limit⟩)
        (inferBody setting outer' ⟨ctes, branches, order, limit⟩) := by
      have ho₁ := ho.mono hgrows₁
      refine bind (union setting branches ?_ ho₁) fun made₂ hgrows₂ bs bs' hbs => ?_
      · exact fun t ht' => ⟨t, by simp [ht'], rfl⟩
      cases hbs with
      | nil => exact throw _
      | @cons b b' rest rest' hb hrest =>
        refine bind (lift (R := fun made => List.Forall₂ (OutputColumn.Matches F.ρ made))
          (unionColumns_alike hb.columns hrest)) fun made₃ hgrows₃ cs cs' hcs => ?_
        rcases levelOf_matches "" hcs with ⟨hissued, hlevel⟩
        have hb₃ := hb.mono hgrows₃
        have ho₃ := (ho₁.mono hgrows₂).mono hgrows₃
        have hsOrder : Scope.Matches F.ρ made₃ ⟨levelOf "" cs, b.visible :: outer⟩
            ⟨levelOf "" cs', b'.visible :: outer'⟩ := by
          refine ⟨hissued, hlevel, ?_⟩
          show LevelsMatch F.ρ made₃ (b.visible :: outer) (b'.visible :: outer')
          rw [hb₃.visible]
          exact ho₃.cons hb₃.issued
        refine bind (orderBy setting order ?_ hsOrder) fun made₄ hgrows₄ _ _ _ => ?_
        · exact fun t ht' => ⟨t, by simp [ht'], rfl⟩
        refine bind (limitTo setting limit ?_ ⟨hb₃.issued.mono hgrows₄, hb₃.visible,
          ho₃.mono hgrows₄⟩) fun made₅ hgrows₅ _ _ _ => ?_
        · exact fun t ht' => ⟨t, by simp [ht'], rfl⟩
        exact pure (hcs.imp fun _ _ hc => (hc.mono hgrows₄).mono hgrows₅)
    refine (hbody t t' hruns₁ ?_).mono ?_
    · rintro _ ⟨name, hname, rfl⟩
      exact hsees₁ name hname
    · rintro p p' ⟨made', hreached, hp⟩
      exact ⟨made', hgrows₁.trans hreached.grows, hreached.runs, hp⟩

/-- Common tables go side by side, and what follows them sees alike whatever it reads. -/
theorem commonTables (setting : Setting) {F : Frame} {T : String → Prop} (ctes : List Cte)
    (following : List String) (ht : Reads T (tablesBehind ctes following)) {made : List TypeInfo}
    {outer outer' : List Level} (ho : LevelsMatch F.ρ made outer outer') (r r' : Run)
    (hr : r.Matches F made r') (hsees : ∀ name, T name → r.SeesAlike F.ρ made r' name) :
    Alike (fun p p' => ∃ made', made <+: made' ∧ Run.Matches F made' p.2 p'.2 ∧
        ∀ t ∈ following, p.2.SeesAlike F.ρ made' p'.2 (lastSegment t))
      ((inferCtes setting outer ctes).outcome r) ((inferCtes setting outer' ctes).outcome r') := by
  match ctes with
  | [] => exact ⟨made, List.prefix_rfl, hr, fun t ht' => hsees _ (ht t ht')⟩
  | ⟨name, q⟩ :: rest =>
    rcases reads_append ht with ⟨htq, htr⟩
    show Alike _ (Analyze.outcome (inferQuery setting outer q >>= _) r)
      (Analyze.outcome (inferQuery setting outer' q >>= _) r')
    rw [Analyze.outcome_bind, Analyze.outcome_bind]
    refine (query setting q htq ho r r' hr hsees).bind ?_
    rintro ⟨result, s⟩ ⟨result', s'⟩ ⟨made₁, hreached, hresult⟩
    rcases levelOf_matches name hresult with ⟨hissued, hlevel⟩
    show Alike _ (Analyze.outcome (declareCte name _ >>= _) s)
      (Analyze.outcome (declareCte name _ >>= _) s')
    rw [Analyze.outcome_bind, Analyze.outcome_bind, hlevel]
    have hruns := hreached.runs
    refine (commonTables setting rest following
      (T := fun other => sameName name other = true ∨ T other) ?_ (ho.mono hreached.grows)
      { s with ctes := (name, levelOf name result.columns) :: s.ctes }
      { s' with ctes := (name, F.ρ.level (levelOf name result.columns)) :: s'.ctes }
      ⟨hruns.issued, hruns.kept, hruns.ahead, hruns.constraints, hruns.placeholders⟩ ?_).mono ?_
    · intro t ht'
      cases hname : sameName name (lastSegment t) with
      | true => exact .inl rfl
      | false => exact .inr (htr t (List.mem_filter.2 ⟨ht', by simp [hname]⟩))
    · intro other hother
      refine Run.SeesAlike.declare hissued fun hname => ?_
      have hold := (hsees other (hother.resolve_left (by simp [hname]))).mono hreached.grows
      unfold Run.SeesAlike Run.cte? at hold ⊢
      rw [hreached.ctes, hreached.ctes']
      exact hold
    · rintro p p' ⟨made', hgrows, hlast⟩
      exact ⟨made', hreached.grows.trans hgrows, hlast⟩

theorem union (setting : Setting) {F : Frame} {T : String → Prop} (bs : List Branch)
    (ht : Reads T (tablesOfUnion bs)) {made : List TypeInfo} {outer outer' : List Level}
    (ho : LevelsMatch F.ρ made outer outer') :
    Parallel F T made (fun made => List.Forall₂ (BranchResult.Matches F.ρ made))
      (inferUnion setting outer bs) (inferUnion setting outer' bs) := by
  match bs with
  | [] => exact pure .nil
  | b :: rest =>
    rcases reads_append ht with ⟨htb, htr⟩
    refine bind (branch setting b htb ho) fun made₁ hgrows₁ x x' hx => ?_
    refine bind (union setting rest htr (ho.mono hgrows₁)) fun made₂ hgrows₂ xs xs' hxs => ?_
    exact pure (.cons (hx.mono hgrows₂) hxs)

theorem branch (setting : Setting) {F : Frame} {T : String → Prop} (b : Branch)
    (ht : Reads T b.tables) {made : List TypeInfo} {outer outer' : List Level}
    (ho : LevelsMatch F.ρ made outer outer') :
    Parallel F T made (BranchResult.Matches F.ρ) (inferBranch setting outer b)
      (inferBranch setting outer' b) := by
  match b with
  | ⟨_, list, sources, joins, criteria, group, having⟩ =>
    rcases reads_append ht with ⟨ht, hth⟩
    rcases reads_append ht with ⟨ht, htg⟩
    rcases reads_append ht with ⟨ht, htc⟩
    rcases reads_append ht with ⟨ht, htj⟩
    rcases reads_append ht with ⟨hti, hts⟩
    refine bind get fun made₁ hgrows₁ _ _ _ => ?_
    have hempty : Sources.Matches F.ρ made₁ .empty .empty :=
      ⟨fun _ hc => absurd hc List.not_mem_nil, rfl⟩
    refine bind (sourceList setting sources hts hempty) fun made₂ hgrows₂ l l' hl => ?_
    have ho₂ := (ho.mono hgrows₁).mono hgrows₂
    refine bind (joinList setting joins htj ho₂ hl _) fun made₃ hgrows₃ j j' hj => ?_
    -- the placeholders of the FROM clause go behind those of the items
    refine bind (cutPlaceholders _ _) fun made₄ hgrows₄ _ _ hlater => ?_
    have hj₄ := hj.mono hgrows₄
    have ho₄ := (ho₂.mono hgrows₃).mono hgrows₄
    have hs₄ : Scope.Matches F.ρ made₄ ⟨j.columns, outer⟩ ⟨j'.columns, outer'⟩ :=
      ⟨hj₄.issued, hj₄.columns, ho₄⟩
    refine bind (items setting list hti hs₄) fun made₅ hgrows₅ cs cs' hcs => ?_
    refine bind (appendPlaceholders (hlater.mono hgrows₅) _) fun made₆ hgrows₆ _ _ _ => ?_
    have hs₆ := (hs₄.mono hgrows₅).mono hgrows₆
    refine bind (some setting criteria htc hs₆) fun made₇ hgrows₇ _ _ _ => ?_
    have hcs₇ : List.Forall₂ (OutputColumn.Matches F.ρ made₇) cs cs' :=
      hcs.imp fun _ _ hc => (hc.mono hgrows₆).mono hgrows₇
    -- GROUP BY and HAVING look at the items before they look around the query
    rcases levelOf_matches "" hcs₇ with ⟨hissued, hlevel⟩
    have hs₇ := hs₆.mono hgrows₇
    have hgrouped : Scope.Matches F.ρ made₇ ⟨j.columns, levelOf "" cs :: outer⟩
        ⟨j'.columns, levelOf "" cs' :: outer'⟩ := by
      refine ⟨hs₇.issued, hs₇.columns, ?_⟩
      show LevelsMatch F.ρ made₇ (levelOf "" cs :: outer) (levelOf "" cs' :: outer')
      rw [hlevel]
      exact hs₇.outer.cons hissued
    refine bind (all setting group htg hgrouped) fun made₈ hgrows₈ _ _ _ => ?_
    refine bind (some setting having hth (hgrouped.mono hgrows₈)) fun made₉ hgrows₉ _ _ _ => ?_
    have hgrows := hgrows₈.trans hgrows₉
    exact pure (.of (hs₇.mono hgrows) sources joins criteria group group
      (hcs₇.imp fun _ _ hc => hc.mono hgrows))

theorem items (setting : Setting) {F : Frame} {T : String → Prop} (is : List Item)
    (ht : Reads T (tablesOfItems is)) {made : List TypeInfo} {s s' : Scope}
    (hs : Scope.Matches F.ρ made s s') :
    Parallel F T made (fun made => List.Forall₂ (OutputColumn.Matches F.ρ made))
      (inferItems setting s is) (inferItems setting s' is) := by
  match is with
  | [] => exact pure .nil
  | i :: rest =>
    rcases reads_append ht with ⟨hti, htr⟩
    refine bind (item setting i hti hs) fun made₁ hgrows₁ cs cs' hcs => ?_
    refine bind (items setting rest htr (hs.mono hgrows₁)) fun made₂ hgrows₂ ds ds' hds => ?_
    exact pure (List.rel_append (hcs.imp fun _ _ hc => hc.mono hgrows₂) hds)

theorem item (setting : Setting) {F : Frame} {T : String → Prop} (i : Item)
    (ht : Reads T i.tables) {made : List TypeInfo} {s s' : Scope}
    (hs : Scope.Matches F.ρ made s s') :
    Parallel F T made (fun made => List.Forall₂ (OutputColumn.Matches F.ρ made))
      (inferItem setting s i) (inferItem setting s' i) := by
  match i with
  | .star =>
    show Parallel F T made _ (inferStar s.columns) (inferStar s'.columns)
    rw [hs.columns]
    exact star hs.issued
  | .tableStar table =>
    have hof : Level.ofTable s'.columns table = F.ρ.level (Level.ofTable s.columns table) := by
      rw [hs.columns]
      exact F.ρ.level_filter _ _ fun _ => rfl
    unfold inferItem
    rw [hof]
    have hissued : Level.Issued made (Level.ofTable s.columns table) := hs.issued.filter _
    revert hissued
    cases Level.ofTable s.columns table with
    | nil => exact fun _ => throw _
    | cons c rest => exact fun hissued => star hissued
  | .expr value aliasName =>
    refine bind (expr setting value ht hs) fun _ _ e e' he => ?_
    exact pure (.cons (.ofInferred _ he) .nil)

theorem sourceList (setting : Setting) {F : Frame} {T : String → Prop} (ss : List Source)
    (ht : Reads T (tablesOfSources ss)) {made : List TypeInfo} {done done' : Sources}
    (hdone : done.Matches F.ρ made done') :
    Parallel F T made (Sources.Matches F.ρ) (inferSources setting done ss)
      (inferSources setting done' ss) := by
  match ss with
  | [] => exact pure hdone
  | x :: rest =>
    rcases reads_append ht with ⟨htx, htr⟩
    refine bind (source setting x htx) fun made₁ hgrows₁ l l' ⟨hl, hl'⟩ => ?_
    subst hl'
    exact sourceList setting rest htr ((hdone.mono hgrows₁).add x hl)

theorem source (setting : Setting) {F : Frame} {T : String → Prop} (x : Source)
    (ht : Reads T x.tables) {made : List TypeInfo} :
    Parallel F T made (fun made l l' => Level.Issued made l ∧ l' = F.ρ.level l)
      (inferSource setting x) (inferSource setting x) := by
  match x with
  | .table name aliasName =>
    exact tableColumns setting.schema name aliasName (ht name (List.mem_singleton.2 rfl))
  | .derived q aliasName =>
    refine bind (query setting q ht (.nil _ _)) fun _ _ result result' hresult => ?_
    exact pure (levelOf_matches aliasName hresult)

theorem joinList (setting : Setting) {F : Frame} {T : String → Prop} (js : List Join)
    (ht : Reads T (tablesOfJoins js)) {made : List TypeInfo} {outer outer' : List Level}
    (ho : LevelsMatch F.ρ made outer outer') {done done' : Sources}
    (hdone : done.Matches F.ρ made done') (previous : String) :
    Parallel F T made (Sources.Matches F.ρ) (inferJoins setting outer done previous js)
      (inferJoins setting outer' done' previous js) := by
  match js with
  | [] => exact pure hdone
  | ⟨kind, x, on⟩ :: rest =>
    rcases reads_append ht with ⟨htxc, htr⟩
    rcases reads_append htxc with ⟨htx, htc⟩
    refine bind (source setting x htx) fun made₁ hgrows₁ l l' ⟨hl, hl'⟩ => ?_
    subst hl'
    have hdone₁ := hdone.mono hgrows₁
    have ho₁ := ho.mono hgrows₁
    have hs₁ : Scope.Matches F.ρ made₁ ⟨done.columns ++ l, outer⟩
        ⟨done'.columns ++ F.ρ.level l, outer'⟩ := by
      refine ⟨hdone₁.issued.append hl, ?_, ho₁⟩
      show done'.columns ++ F.ρ.level l = _
      rw [hdone₁.columns, Renaming.level_append]
    refine bind (condition setting on htc hs₁) fun made₂ hgrows₂ _ _ _ => ?_
    exact joinList setting rest htr (ho₁.mono hgrows₂)
      ((hdone₁.mono hgrows₂).join outer outer' previous kind x on (hl.mono hgrows₂)) _

theorem condition (setting : Setting) {F : Frame} {T : String → Prop} (c : JoinCondition)
    (ht : Reads T c.tables) {made : List TypeInfo} {s s' : Scope}
    (hs : Scope.Matches F.ρ made s s') :
    Parallel F T made Done (inferCondition setting s c) (inferCondition setting s' c) := by
  match c with
  | .predicate e => exact bind (expr setting e ht hs) fun _ _ _ _ _ => pure trivial
  | .shared _ => exact pure trivial
  | .unconditional => exact pure trivial

theorem orderBy (setting : Setting) {F : Frame} {T : String → Prop} (terms : List OrderTerm)
    (ht : Reads T (tablesOfOrder terms)) {made : List TypeInfo} {s s' : Scope}
    (hs : Scope.Matches F.ρ made s s') :
    Parallel F T made Done (inferOrder setting s terms) (inferOrder setting s' terms) := by
  match terms with
  | [] => exact pure trivial
  | ⟨value, _⟩ :: rest =>
    rcases reads_append ht with ⟨htv, htr⟩
    unfold inferOrder
    cases value.isParameter with
    | true => exact orderBy setting rest htr hs
    | false =>
      refine bind (expr setting value htv hs) fun made₁ hgrows₁ _ _ _ => ?_
      exact orderBy setting rest htr (hs.mono hgrows₁)

theorem limitTo (setting : Setting) {F : Frame} {T : String → Prop} (l : Option Limit)
    (ht : Reads T (tablesOfLimit l)) {made : List TypeInfo} {s s' : Scope}
    (hs : Scope.Matches F.ρ made s s') :
    Parallel F T made Done (inferLimit setting s l) (inferLimit setting s' l) := by
  match l with
  | .none => exact pure trivial
  | .some ⟨count, offset⟩ =>
    rcases reads_append ht with ⟨htc, hto⟩
    refine bind (expr setting count htc hs) fun made₁ hgrows₁ c c' hc => ?_
    refine bind (bound setting _ hc) fun made₂ hgrows₂ _ _ _ => ?_
    exact offsetBy setting offset hto ((hs.mono hgrows₁).mono hgrows₂)

theorem offsetBy (setting : Setting) {F : Frame} {T : String → Prop} (o : Option Expr)
    (ht : Reads T (tablesOfSome o)) {made : List TypeInfo} {s s' : Scope}
    (hs : Scope.Matches F.ρ made s s') :
    Parallel F T made Done (inferOffset setting s o) (inferOffset setting s' o) := by
  match o with
  | .none => exact pure trivial
  | .some e =>
    exact bind (expr setting e ht hs) fun _ _ i i' hi => bound setting _ hi

end

end Parallel

end QuerySignature
