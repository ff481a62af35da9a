import QuerySignature.Proofs.Abreast.Solved
import QuerySignature.Proofs.Abreast.Steps
import QuerySignature.Proofs.Abreast.Walk
import QuerySignature.Proofs.Sorting.Named

namespace QuerySignature

/-! # Sorting by a listed key

A placeholder that is a term of ORDER BY is passed over. A reference in its place makes one more
variable, and links it to the column that it means if that is an output column of an inner query. The
link asks nothing of what has been there before, so that the rest of the query is analysed and solved as
behind the placeholder, though under other numbers.

- `solve_linked`: solving with the link and without it.
- `HeadWalk.exists_sorted`: the walk with the reference goes on abreast of the walk with the placeholder.
- `describe_sorted`: each listed key may be written for the placeholder.
-/

/-! ## One more reference -/

/-- What a reference to a column asks for: a link, if it is an output column of an inner query. -/
def linkTo (issued : Nat) (c : SourceColumn) : List Constraint :=
  if c.var.projected then
    [.bestEffort c.qualifiedName ⟨issued + 1, c.qualifiedName, .unknown, false, false⟩ c.var]
  else []

/-- A run behind a reference to a column. -/
def Run.referring (r : Run) (c : SourceColumn) : Run :=
  { r with issued := r.issued + 1, constraints := r.constraints ++ linkTo r.issued c }

theorem exists_referring (c : SourceColumn) (r : Run) :
    ∃ var, (reference c).outcome r = .ok (var, r.referring c) := by
  unfold reference Run.referring linkTo
  split
  · exact ⟨_, rfl⟩
  · rw [List.append_nil]
    exact ⟨_, rfl⟩

theorem exists_column (setting : Setting) {scope : Scope} {c : ColumnRef} {target : SourceColumn}
    (h : scope.resolve c = .ok target) (r : Run) :
    ∃ e, (inferExpr setting scope (.column c)).outcome r = .ok (e, r.referring target) := by
  obtain ⟨var, hvar⟩ := exists_referring target r
  refine ⟨.ofColumn var target, ?_⟩
  unfold inferExpr inferColumn resolve
  rw [h, Analyze.outcome_bind, Analyze.outcome_pure, ok_bind, Analyze.outcome_bind, hvar]
  rfl

/-- The numbers of variables when one more is made behind the first `n`. -/
abbrev oneBehind (n : Nat) : Nat → Nat := (Renaming.mk n 1).apply

section Numbers

variable {n x : Nat}

theorem oneBehind_of_le (h : x ≤ n) : oneBehind n x = x := if_pos h

theorem oneBehind_of_lt (h : n < x) : oneBehind n x = x + 1 := if_neg (Nat.not_le.2 h)

theorem separates_oneBehind (n : Nat) : Separates (oneBehind n) := by
  intro x y _ _ h
  unfold oneBehind Renaming.apply at h
  dsimp only at h
  split_ifs at h <;> omega

end Numbers

/-! ## Solving with a link -/

namespace Classes

variable {s : Classes} {initial : Nat → TypeInfo} {n : Nat}

/-- A link can always be solved, and nothing else is known behind it of the variables in front of it. -/
theorem Fresh.linkTo (h : s.Fresh n initial) (profile : Profile) {c : SourceColumn}
    (hc : c.var.id ≤ n)
    (hcarries : ∀ step ∈ equationsOf (QuerySignature.linkTo n c), step.Carries initial) :
    ∃ t, s.run profile (equationsOf (QuerySignature.linkTo n c)) = .ok t ∧
      t.Fresh (n + 1) initial ∧ Agree id (· ≤ n) s t := by
  unfold QuerySignature.linkTo at hcarries ⊢
  split at hcarries
  case isFalse hplain =>
    rw [if_neg hplain]
    exact ⟨s, rfl, h.mono (Nat.le_succ n), .refl _ s⟩
  case isTrue hprojected =>
    have hunknown := (hcarries _ List.mem_cons_self).1
    obtain ⟨t, ht, hfresh, hagree, -, -⟩ := h.link profile c.qualifiedName
      (u := ⟨n + 1, c.qualifiedName, .unknown, false, false⟩) (v := c.var) rfl hunknown.symm hc
    refine ⟨t, ?_, hfresh, hagree⟩
    rw [if_pos hprojected]
    show s.run profile [_] = _
    rw [run_cons, ht]
    rfl

end Classes

section Solving

variable {profile : Profile} {n : Nat} {early later later' : List Constraint} {target : SourceColumn}
  {made initial : Nat → TypeInfo} {solution : Solution}

/-- Constraints that can be solved can be solved with a link in their midst, and then the same is found
out of the variables. -/
theorem solve_linked {initial : Nat → TypeInfo}
    (hearly : List.Forall₂ (Equation.Paired (oneBehind n)) (equationsOf early) (equationsOf early))
    (hwithin : ∀ step ∈ equationsOf early, step.Within (· ≤ n)) (htarget : target.var.id ≤ n)
    (hlater : List.Forall₂ (Constraint.Paired (oneBehind n)) later later')
    (hcarries : ∀ step ∈ equationsOf (early ++ linkTo n target ++ later'), step.Carries initial)
    (hsolve : solve profile (early ++ later) = .ok solution) :
    ∃ solution', solve profile (early ++ linkTo n target ++ later') = .ok solution' ∧
      ∀ v v', v.Paired (oneBehind n) v' → v'.Carries initial →
        solution'.infoOf v' = solution.infoOf v := by
  let initial' : Nat → TypeInfo := fun id => initial (oneBehind n id)
  have hcarries' : ∀ step ∈ equationsOf (early ++ later), step.Carries initial' := by
    have hpairs : List.Forall₂ (Equation.Paired (oneBehind n)) (equationsOf (early ++ later))
        (equationsOf (early ++ later')) := by
      rw [equationsOf_append, equationsOf_append]
      exact List.rel_append hearly (equationsOf_paired hlater)
    intro step hstep
    obtain ⟨step', hstep', hpair⟩ := exists_partner hpairs.flip hstep
    have hcarry := hcarries step' (by
      simp only [equationsOf_append, List.mem_append] at hstep' ⊢
      exact hstep'.imp_left .inl)
    exact ⟨hpair.left.carries hcarry.1, hpair.right.carries hcarry.2⟩
  obtain ⟨t, ht, hsolution⟩ := exists_classes hcarries' hsolve
  rw [equationsOf_append, Classes.run_append] at ht
  rcases bind_eq_ok.1 ht with ⟨s, hs, hrun⟩
  -- what has been there before is solved alike
  obtain ⟨s', hs', hagree⟩ :=
    (run_paired (separates_oneBehind n) profile initial hearly).of_ok hs
  have hfresh : s.Fresh n initial' := (Classes.Fresh.start n initial').run hwithin hs
  have hfresh' : s'.Fresh n initial := (Classes.Fresh.start n initial).run hwithin hs'
  -- the link is known to the variable that it is made for alone
  obtain ⟨u, hu, hfreshBehind, hkept⟩ := hfresh'.linkTo profile htarget fun step hstep =>
    hcarries step (by
      simp only [equationsOf_append, List.mem_append]
      exact .inl (.inr hstep))
  have hshared : Agree id (fun x => x ≤ n ∧ 0 < x) s u := by
    have hbefore : Agree id (fun x => x ≤ n ∧ 0 < x) s s' := by
      refine ⟨fun x y hx hy => ?_, fun x hx => ?_⟩
      · have hsame := hagree.same x y hx.2 hy.2
        rwa [oneBehind_of_le hx.1, oneBehind_of_le hy.1] at hsame
      · have hinfo := hagree.info x hx.2
        rwa [oneBehind_of_le hx.1] at hinfo
    exact hbefore.trans hkept fun x hx => hx.1
  have hparted : Agree (oneBehind n) (0 < ·) s u :=
    .beyond hshared (fun x hx => ⟨hx, rfl⟩) hfresh hfreshBehind (Nat.le_succ n) (Nat.le_refl _)
  -- and so is what follows
  have hpairs := equationsOf_paired hlater
  obtain ⟨t', ht', hlast⟩ := (hparted.run profile
    (hpairs.imp fun _ _ hstep => hstep.renumbered) fun step hstep => by
      obtain ⟨_, -, hpair⟩ := exists_partner hpairs.flip hstep
      exact hpair.made).of_ok hrun
  have hwhole : (Classes.start initial).run profile
      (equationsOf (early ++ linkTo n target ++ later')) = .ok t' := by
    simp only [equationsOf_append, Classes.run_append, hs', ok_bind, hu, ht']
  obtain ⟨solution', hsolve', hsolution'⟩ := exists_solution hcarries hwhole
  refine ⟨solution', hsolve', fun v v' hv hv' => ?_⟩
  rw [hsolution' v' hv', hsolution v (hv.carries hv'), hv.id]
  exact (hlast.info v.id hv.made).symm

end Solving

/-! ## The walk -/

/-- Two walks that part: one of them refers to a column, the other one does not. -/
def Pasts.referring (r : Run) (c : SourceColumn) : Pasts where
  toPairing := .byLooks (oneBehind r.issued)
  first := r
  second := r.referring c
  later k := by
    show oneBehind r.issued (r.issued + k + 1) = r.issued + 1 + k + 1
    rw [oneBehind_of_lt (by omega)]
    omega

theorem Pasts.referring_seesAlike {made : List TypeInfo} {r : Run} (h : r.Sound made)
    (c : SourceColumn) (name : String) : (Pasts.referring r c).SeesAlike r (r.referring c) name :=
  Pasts.parted_seesAlike h (r.referring c) rfl rfl name

theorem inferOrder_cons (setting : Setting) (scope : Scope) (value : Expr) (descending : Bool)
    (rest : List OrderTerm) : inferOrder setting scope (⟨value, descending⟩ :: rest) =
      if value.isParameter then inferOrder setting scope rest
      else inferExpr setting scope value >>= fun _ => inferOrder setting scope rest := by
  conv_lhs => unfold inferOrder

theorem outcome_inferOrder_append (setting : Setting) (scope : Scope) (xs ys : List OrderTerm)
    (r : Run) : (inferOrder setting scope (xs ++ ys)).outcome r =
      ((inferOrder setting scope xs).outcome r).bind fun p =>
        (inferOrder setting scope ys).outcome p.2 := by
  induction xs generalizing r with
  | nil => rfl
  | cons term rest ih =>
    obtain ⟨value, descending⟩ := term
    rw [List.cons_append, inferOrder_cons, inferOrder_cons]
    split
    · exact ih r
    · simp only [Analyze.outcome_bind, bind_bind, ih]

section

variable {setting : Setting} {q : Select} {result : QueryResult} {run : Run}

/-- What follows a term of ORDER BY. -/
def inferBehindTerm (setting : Setting) (q : Select) (head : BranchResult × List OutputColumn)
    (terms : List OrderTerm) : Analyze Unit := do
  inferOrder setting (orderScope [] head) terms
  inferLimit setting ⟨head.1.visible, []⟩ q.limit

theorem Run.Sound.behindTerm {made : List TypeInfo} {r : Run} (h : r.Sound made)
    {head : BranchResult × List OutputColumn} (hfirst : head.1.Matches .none made head.1)
    (hcolumns : List.Forall₂ (OutputColumn.Matches .none made) head.2 head.2)
    {terms : List OrderTerm} {last : Run}
    (hrun : (inferBehindTerm setting q head terms).outcome r = .ok ((), last)) :
    ∃ made', made <+: made' ∧ last.Sound made' := by
  have hstep : Parallel ⟨.none, r.constraints, r.constraints⟩ (fun _ => True) made Parallel.Done
      (inferBehindTerm setting q head terms) (inferBehindTerm setting q head terms) :=
    Parallel.bind (Parallel.orderBy setting terms (Parallel.reads_all _)
      (orderScope_matches hfirst hcolumns)) fun made' hgrows _ _ _ =>
        Parallel.limitTo setting q.limit (Parallel.reads_all _)
          (.beside (hfirst.issued.mono hgrows) nothing_outer)
  obtain ⟨made', hgrows, hsound, -⟩ := h.advance hstep hrun
  exact ⟨made', hgrows, hsound⟩

/-- A query with a term of ORDER BY put for another one. -/
structure SortedWalk (setting : Setting) (q : Select) (w : HeadWalk setting q result run)
    (target : SourceColumn) (order : List OrderTerm) where
  made : List TypeInfo
  madeBehind : List TypeInfo
  before : Run
  last : Run
  grows : w.made <+: made
  growsBehind : made <+: madeBehind
  sound : before.Sound made
  soundBehind : last.Sound madeBehind
  abreast : w.last.Abreast (.referring before target) last
  walk : (inferQuery setting [] { q with order }).outcome .start =
    .ok (.of w.head.1 w.head.2 q.branches order q.limit, { last with ctes := [] })

/-- With a reference for a placeholder in its ORDER BY, a query is analysed all the same. -/
theorem HeadWalk.exists_sorted (w : HeadWalk setting q result run) {xs ys : List OrderTerm}
    {value : Expr} {descending : Bool} (horder : q.order = xs ++ ⟨value, descending⟩ :: ys)
    (hvalue : value.isParameter = true) {c : ColumnRef} {target : SourceColumn}
    (hmeans : (orderScope [] w.head).resolve c = .ok target) :
    Nonempty (SortedWalk setting q w target (xs ++ ⟨.column c, descending⟩ :: ys)) := by
  have hscope := orderScope_matches w.first w.columns
  have hwalk := w.order
  rw [horder, outcome_inferOrder_append] at hwalk
  rcases bind_eq_ok.1 hwalk with ⟨⟨_, before⟩, hbefore, hbehind⟩
  obtain ⟨made, hgrows, hsound, -, -, -⟩ := w.sound.advance
    (.orderBy setting xs (Parallel.reads_all _) hscope) hbefore
  have hrest := w.rest
  unfold inferLast at hrest
  rw [Analyze.outcome_bind] at hrest
  rcases bind_eq_ok.1 hrest with ⟨⟨_, last⟩, hlimit, hrest⟩
  have hlast : last = w.last := congrArg Prod.snd (Except.ok.inj hrest)
  rw [hlast] at hlimit
  -- the walk passes over the placeholder
  have hpast : (inferBehindTerm setting q w.head ys).outcome before = .ok ((), w.last) := by
    rw [inferOrder_cons, if_pos hvalue] at hbehind
    unfold inferBehindTerm
    rw [Analyze.outcome_bind, hbehind, ok_bind, hlimit]
  have hle : made.length ≤ before.issued := Nat.le_of_eq hsound.issued.symm
  have hvisible : (Pasts.referring before target).Levels w.head.1.visible w.head.1.visible :=
    (w.first.issued.mono hgrows).paired hle
  have houtput : (Pasts.referring before target).Levels (levelOf "" w.head.2)
      (levelOf "" w.head.2) :=
    Level.Issued.paired ((levelOf_matches "" w.columns).1.mono hgrows) hle
  have habreast : Abreast (.referring before target) (fun _ => True) Done
      (inferBehindTerm setting q w.head ys) (inferBehindTerm setting q w.head ys) :=
    Abreast.bind (Abreast.orderBy setting ys (Parallel.reads_all _)
        ⟨houtput, .cons hvisible .nil⟩) fun _ _ _ =>
      Abreast.limitTo setting q.limit (Parallel.reads_all _) ⟨hvisible, .nil⟩
  obtain ⟨⟨_, last'⟩, hwalk', harrived⟩ := (habreast before (before.referring target) (.start _)
    fun name _ => Pasts.referring_seesAlike hsound target name).of_ok hpast
  obtain ⟨e, he⟩ := exists_column setting hmeans before
  -- behind the reference, too, variables carry the types that they were made with
  obtain ⟨made₁, hgrows₁, hsound₁, -⟩ := hsound.advance (.expr setting _ (Parallel.reads_all _)
    (hscope.mono hgrows)) he
  obtain ⟨made₂, hgrows₂, hsound₂⟩ := hsound₁.behindTerm
    (w.first.mono (hgrows.trans hgrows₁))
    (w.columns.imp fun _ _ hc => hc.mono (hgrows.trans hgrows₁)) hwalk'
  refine ⟨made, made₂, before, last', hgrows, hgrows₁.trans hgrows₂, hsound, hsound₂,
    harrived.runs, ?_⟩
  unfold inferBehindTerm at hwalk'
  rw [Analyze.outcome_bind] at hwalk'
  rcases bind_eq_ok.1 hwalk' with ⟨⟨_, behind⟩, horder', hlimit'⟩
  have hsorted : (inferOrder setting (orderScope [] w.head)
      (xs ++ ⟨.column c, descending⟩ :: ys)).outcome w.behindUnion = .ok ((), behind) := by
    rw [outcome_inferOrder_append, hbefore, ok_bind, inferOrder_cons,
      if_neg (show ¬ (Expr.column c).isParameter = true from Bool.false_ne_true),
      Analyze.outcome_bind, he]
    exact horder'
  rw [outcome_inferQuery]
  simp only [w.ctes, ok_bind, w.union]
  rw [unionOf_text _ w.ofUnion]
  simp only [ok_bind, hsorted, hlimit']
  rfl

end

/-! ## The description -/

namespace SortedWalk

variable {setting : Setting} {q : Select} {result : QueryResult} {run : Run}
  {w : HeadWalk setting q result run} {target : SourceColumn} {order : List OrderTerm}

/-- What is made before the walks part stands for itself. -/
theorem paired (s : SortedWalk setting q w target order) {v : TypeVar} (h : v.Issued s.made) :
    v.Paired (oneBehind s.before.issued) v :=
  h.paired (Nat.le_of_eq s.sound.issued.symm)

/-- With the reference a query is solved if it is solved with the placeholder, and then the same is found
out of the variables. -/
theorem solve (s : SortedWalk setting q w target order)
    (htarget : target ∈ levelOf "" w.head.2 ∨ target ∈ w.head.1.visible) {initial : Nat → TypeInfo}
    (hcarries : ∀ step ∈ equationsOf s.last.constraints, step.Carries initial) {solution : Solution}
    (hsolve : QuerySignature.solve setting.profile run.constraints = .ok solution) :
    ∃ solution', QuerySignature.solve setting.profile s.last.constraints = .ok solution' ∧
      ∀ v v', v.Paired (oneBehind s.before.issued) v' → v'.Carries initial →
        solution'.infoOf v' = solution.infoOf v := by
  have hissued : target.var.Issued w.made :=
    htarget.elim ((levelOf_matches "" w.columns).1 target) (w.first.issued target)
  obtain ⟨later, later', hlast, hlast', hlater⟩ := s.abreast.constraints
  have hlast' : s.last.constraints =
      s.before.constraints ++ linkTo s.before.issued target ++ later' := hlast'
  have hearly : List.Forall₂ (Equation.Paired (oneBehind s.before.issued))
      (equationsOf s.before.constraints) (equationsOf s.before.constraints) :=
    List.forall₂_same.2 fun step hstep => ⟨rfl, rfl, rfl, s.paired (s.sound.steps step hstep).1,
      s.paired (s.sound.steps step hstep).2⟩
  rw [hlast'] at hcarries ⊢
  rw [w.asked, hlast] at hsolve
  exact solve_linked hearly s.sound.within (s.sound.issued ▸ (hissued.mono s.grows).le) hlater
    hcarries hsolve

/-- The output columns are reported alike. -/
theorem columns (s : SortedWalk setting q w target order) {solution solution' : Solution}
    (hinfo : ∀ v v', v.Paired (oneBehind s.before.issued) v' →
      v'.Carries (initialOf s.madeBehind) → solution'.infoOf v' = solution.infoOf v) :
    w.head.2.map (·.result solution' setting.profile) =
      w.head.2.map (·.result solution setting.profile) := by
  refine List.map_congr_left fun c hc => ?_
  refine ((List.forall₂_same.1 w.columns c hc).result_eq fun v v' hv _ => ?_).symm
  have hissued := hv.issued.mono s.grows
  have hsame : v' = v := by rw [hv.eq, Renaming.none_var]
  rw [hsame]
  exact (hinfo v v (s.paired hissued) (hissued.mono s.growsBehind).carries).symm

/-- So are the placeholders. -/
theorem placeholders (s : SortedWalk setting q w target order) {solution solution' : Solution}
    (hinfo : ∀ v v', v.Paired (oneBehind s.before.issued) v' →
      v'.Carries (initialOf s.madeBehind) → solution'.infoOf v' = solution.infoOf v) :
    (s.last.placeholders.zipIdx.map fun (p, index) => p.result index solution' setting.profile) =
      run.placeholders.zipIdx.map fun (p, index) => p.result index solution setting.profile := by
  obtain ⟨added, added', hlast, hlast', hadded⟩ := s.abreast.placeholders
  have hpairs : List.Forall₂ (fun p' p => p'.var.Issued s.madeBehind ∧
      Placeholder.Paired (oneBehind s.before.issued) w.last.issued p p') s.last.placeholders
      run.placeholders := by
    refine (List.forall₂_and_left _ _).2 ⟨s.soundBehind.placeholders, List.Forall₂.flip ?_⟩
    rw [w.collected, hlast, hlast']
    refine List.rel_append (List.forall₂_same.2 fun p hp => ?_) hadded
    have hmade := s.sound.placeholders p hp
    obtain ⟨k, hk, -⟩ := s.abreast.issued
    have hle : s.before.issued ≤ w.last.issued := Nat.le.intro hk.symm
    exact ⟨s.paired hmade, Nat.le_trans (s.sound.issued ▸ hmade.le) hle, rfl, rfl⟩
  refine map_zipIdx_eq_of_rel (fun p p' index hp => ?_) hpairs.flip 0
  have htype : solution'.typeOf setting.profile p'.var = solution.typeOf setting.profile p.var :=
    typeOf_eq (hinfo _ _ hp.2.var hp.1.carries)
  dsimp only
  unfold Placeholder.result
  rw [htype, hp.2.name, hp.2.notNull, hp.2.var.eq]

end SortedWalk

/-- In a query that is described, any name in the list of sort keys may be written for a placeholder
that is a term of ORDER BY, provided that no name of a column, of its table or of an item of the first
branch has a dot in it and no table is without a name. The query is then described with the same columns,
parameters, relations and number of rows; what is left of the list of sort keys is for the other
placeholders of ORDER BY. -/
theorem describe_sorted {setting : Setting} {q : Select} {b : Branch} {xs ys : List OrderTerm}
    {value : Expr} {descending : Bool} {d : Description} {names : List String} {name : String}
    (hdescribed : describe setting (.select q) = .ok d)
    (horder : q.order = xs ++ ⟨value, descending⟩ :: ys) (hvalue : value.isParameter = true)
    (hfirst : q.branches.head? = some b)
    (hvisible : ∀ c ∈ visibleColumns setting q.ctes b, c.Undotted)
    (hitems : ∀ item ∈ b.items, item.Undotted) (hnames : d.sortable = some names)
    (hname : name ∈ names) :
    let order := xs ++ ⟨.column (.ofText name), descending⟩ :: ys
    describe setting (.select { q with order }) = .ok { d with
      sql := ({ q with order } : Select).text
      sortable := if order.any OrderTerm.isParameter then some names else none } := by
  intro order
  obtain ⟨result, run, solution, hwalk, hsolve, rfl⟩ := describe_select_iff.1 hdescribed
  obtain ⟨w⟩ := exists_headWalk hwalk
  have hresult : result = .of w.head.1 w.head.2 q.branches q.order q.limit := by
    have hrest := w.rest
    unfold inferLast at hrest
    rw [Analyze.outcome_bind] at hrest
    rcases bind_eq_ok.1 hrest with ⟨_, -, hrest⟩
    exact (congrArg Prod.fst (Except.ok.inj hrest)).symm
  have hlisted : sortableNames w.head.2 w.head.1.visible = names := by
    have hany : q.order.any OrderTerm.isParameter = true := by
      rw [horder, List.any_append, List.any_cons]
      show (_ || (value.isParameter || _)) = true
      rw [hvalue, Bool.true_or, Bool.or_true]
    have hsortable : result.sortable = some names := hnames
    rw [hresult] at hsortable
    unfold QueryResult.of at hsortable
    simp only [hany, if_true, Option.some.injEq] at hsortable
    exact hsortable
  have hshown := (w.exists_first hfirst).1
  obtain ⟨target, htarget, hmeans⟩ := resolve_sortable (hlisted ▸ hname)
    (w.undotted_columns hfirst hvisible hitems) fun c hc => hvisible c (hshown ▸ hc)
  obtain ⟨s⟩ := w.exists_sorted horder hvalue hmeans
  obtain ⟨solution', hsolve', hinfo⟩ := s.solve htarget s.soundBehind.carries hsolve
  refine describe_select_iff.2 ⟨_, _, solution', s.walk, hsolve', ?_⟩
  have hcolumns := s.columns hinfo
  have hplaceholders := s.placeholders hinfo
  have hgiven : result.columns = w.head.2 := congrArg QueryResult.columns hresult
  have hrelations : result.relations = w.head.1.relations :=
    congrArg QueryResult.relations hresult
  have hrows : result.manyRows = _ := congrArg QueryResult.manyRows hresult
  unfold Description.of
  simp only [hgiven, hrelations, hrows, QueryResult.of, hcolumns, hplaceholders, hlisted]
  rfl

/-- `SELECT a.id AS k, d.*, a.id FROM mytable1 a LEFT JOIN (SELECT id, ? AS v FROM mytable1) d
ON d.id = a.id`. -/
def Branch.besideValues : Branch :=
  ⟨false, [.expr (columnOf "a" "id") (some "k"), .tableStar "d", .expr (columnOf "a" "id") none],
    [.table "mytable1" (some "a")],
    [⟨.left, .derived ⟨[], [⟨false, [.expr (.column ⟨none, "id"⟩) none, .expr (.parameter none)
          (some "v")], [.table "mytable1" none], [], none, [], none⟩], [], none⟩ "d",
        .predicate (.compare .eq (columnOf "d" "id") (columnOf "a" "id"))⟩],
    none, [], none⟩

/-- `Branch.besideValues` behind `ORDER BY k DESC, ?` and before `LIMIT ?`. -/
def Select.besideValues : Select :=
  ⟨[], [.besideValues], [⟨.column ⟨none, "k"⟩, true⟩, ⟨.parameter none, false⟩],
    some ⟨.parameter none, none⟩⟩

/-- The value of the inner query, which is a placeholder and may be missing, is a sort key. -/
theorem describe_sorted_besideValues :
    ∃ d, describe ⟨.ofRecords threeTables, .mysql⟩ (.select .besideValues) = .ok d ∧
      d.sortable = some ["k", "id", "v", "a.id", "d.id", "d.v"] ∧
      describe ⟨.ofRecords threeTables, .mysql⟩ (.select { Select.besideValues with
          order := [⟨.column ⟨none, "k"⟩, true⟩, ⟨columnOf "d" "v", false⟩] }) = .ok { d with
        sql := Select.text { Select.besideValues with
          order := [⟨.column ⟨none, "k"⟩, true⟩, ⟨columnOf "d" "v", false⟩] }
        sortable := none } := by
  obtain ⟨d, hd⟩ := exists_of_isOk (x := describe ⟨.ofRecords threeTables, .mysql⟩
    (.select .besideValues)) (by decide +kernel)
  have hnames : ((describe ⟨.ofRecords threeTables, .mysql⟩
      (.select .besideValues)).toOption.bind (·.sortable)) =
        some ["k", "id", "v", "a.id", "d.id", "d.v"] := by decide +kernel
  rw [hd] at hnames
  have horder : Select.besideValues.order =
      [⟨.column ⟨none, "k"⟩, true⟩] ++ ⟨.parameter none, false⟩ :: [] := rfl
  have hlisted : "d.v" ∈ ["k", "id", "v", "a.id", "d.id", "d.v"] := by decide
  have hsorted := describe_sorted hd horder rfl rfl (by decide +kernel) (by decide +kernel) hnames
    hlisted
  exact ⟨d, hd, hnames, hsorted⟩

end QuerySignature
