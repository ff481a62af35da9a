import QuerySignature.Proofs.Described
import QuerySignature.Proofs.Removal.Parting
import QuerySignature.Proofs.Walk.Aside

namespace QuerySignature

/-! # Columns of a query without a clause

The walk over a query without a clause goes as the walk over the whole query up to the clause, and
again from behind it on, where it numbers its variables as if the clause had not been there. What the
whole query knows in the end of variables that are out of reach of the clause is what the shorter
one knows of them.

So a query without its ORDER BY, its LIMIT, a GROUP BY or a HAVING has the columns of the whole query,
with their names, tables and nullability. Their types are those of the whole query as far as the
clause does not reach them: a term that computes with a projected column changes what is known of the
column.

- `Parting.rejoined`: the two walks, before the clause and behind it.
- `Rejoined.solved_of_spares`: if the clause spares all variables before it, the shorter query is
  solved alike.
- `Rejoined.agree_beyondReach`: if the clause spares some variables and the rest ties nothing else to
  them, the same is known of them in both.
- `sparesAll_of_simple`: a clause of literals, placeholders and columns spares all variables.
- `columns_without_simple_clause`: without it, the query has the columns of the whole query.
- `columns_without_clause`: the columns of a query without a clause.
- `order_reaches_column`: an ORDER BY that changes the type of a column.
-/

/-! ## The walks -/

/-- The walk over a query without a clause beside the walk over the query. -/
structure Rejoined (ρ : Renaming) (made : List TypeInfo) (before behind : Run)
    (result' : QueryResult) (run' : Run) (result : QueryResult) (run : Run)
    (own added' added : List Constraint) : Prop where
  kept : ρ.kept = before.issued
  ahead : behind.issued = before.issued + ρ.shift
  results : QueryResult.Matches ρ made result' result
  steps : ∀ step ∈ equationsOf run'.constraints, step.Issued made
  early : ∀ step ∈ equationsOf before.constraints, step.Within (· ≤ before.issued)
  through : ∀ step ∈ equationsOf behind.constraints, step.Within (· ≤ behind.issued)
  clause : behind.constraints = before.constraints ++ own
  first : run'.constraints = before.constraints ++ added'
  second : run.constraints = behind.constraints ++ added
  rest : List.Forall₂ (Constraint.Matches ρ made) added' added

section

variable {setting : Setting} {q : Select} {c : Clause} {result : QueryResult} {run : Run}

theorem Parting.rejoined (p : Parting setting q c result run) :
    ∃ ρ made result' run' own added' added,
      (inferQuery setting [] (q.without c)).outcome .start = .ok (result', run') ∧
      Rejoined ρ made p.before p.behind result' run' result run own added' added := by
  rcases p.kept with ⟨own, hown⟩
  rcases p.behindSound with ⟨madeBehind, hgrows, hbehind⟩
  have hle : p.before.issued ≤ p.behind.issued := by
    rw [p.sound.issued, hbehind.issued]
    exact hgrows.length_le
  let ρ : Renaming := ⟨p.made.length, p.behind.issued - p.before.issued⟩
  have hahead : p.behind.issued = p.made.length + ρ.shift := by
    have hissued := p.sound.issued
    show p.behind.issued = p.made.length + (p.behind.issued - p.before.issued)
    omega
  have halike := p.parallel ⟨ρ, p.before.constraints, p.behind.constraints⟩ rfl p.before p.behind
    (p.sound.parted rfl hahead) fun name _ => p.sound.partedSeesAlike rfl p.ctes name
  rcases halike.to_ok p.walk with ⟨⟨result', last'⟩, hwalk', made', hreached, hresults⟩
  rcases hreached.runs.constraints with ⟨added', added, hadded', hadded, hmatches⟩
  refine ⟨ρ, made', result', { last' with ctes := [] }, own, added', added, ?_, ?_⟩
  · rw [p.without, hwalk']
    rfl
  · refine ⟨p.sound.issued.symm, ?_, hresults, ?_, p.sound.within, hbehind.within, hown.symm,
      hadded', ?_, hmatches⟩
    · rw [hahead, p.sound.issued]
    · intro step hstep
      have hsteps : step ∈ equationsOf p.before.constraints ++ equationsOf added' := by
        rw [← equationsOf_append, ← hadded']
        exact hstep
      rcases List.mem_append.1 hsteps with hstep | hstep
      · exact (p.sound.steps step hstep).mono hreached.grows
      · exact issued_of_matches hmatches step hstep
    · rw [p.asked]
      exact hadded

/-! ## What is known in the end -/

section

variable {ρ : Renaming} {made : List TypeInfo} {before behind run' : Run} {result' : QueryResult}
  {own added' added : List Constraint} {initial : Nat → TypeInfo} {profile : Profile} {t t' : Classes}

/-- Before the clause, both walks know the same of what they have made. -/
theorem Rejoined.before_agree
    (h : Rejoined ρ made before behind result' run' result run own added' added)
    (hcarries : ∀ step ∈ equationsOf before.constraints, step.Carries initial) {s : Classes}
    (hs : (Classes.start initial).run profile (equationsOf before.constraints) = .ok s) :
    ∃ s', (Classes.start (initialOf made)).run profile (equationsOf before.constraints) = .ok s' ∧
      Agree id (fun x => x ≤ ρ.kept ∧ ρ.Shared (initialOf made) initial x) s' s := by
  have hstart : Agree id (fun x => x ≤ ρ.kept ∧ ρ.Shared (initialOf made) initial x)
      (Classes.start (initialOf made)) (Classes.start initial) := by
    refine ⟨fun _ _ _ _ => Iff.rfl, ?_⟩
    rintro x ⟨hx, -, hinfo⟩
    have hsame : ρ.apply x = x := if_pos hx
    rw [hsame] at hinfo
    exact hinfo
  have hwithin : ∀ step ∈ equationsOf before.constraints,
      step.Within fun x => x ≤ ρ.kept ∧ ρ.Shared (initialOf made) initial x := by
    intro step hstep
    have hle := h.early step hstep
    rw [← h.kept] at hle
    have hissued := h.steps step (by
      rw [h.first, equationsOf_append]
      exact List.mem_append_left _ hstep)
    have hinitial := hcarries step hstep
    have hshared : ∀ v : TypeVar, v.id ≤ ρ.kept → v.Issued made → v.Carries initial →
        ρ.Shared (initialOf made) initial v.id := by
      intro v hv hmade hv'
      have hmatch : v.Matches ρ made v := ⟨hmade, (Renaming.var_of_le hv).symm⟩
      exact hmatch.shared hmade.carries hv'
    exact ⟨⟨hle.1, hshared _ hle.1 hissued.1 hinitial.1⟩,
      ⟨hle.2, hshared _ hle.2 hissued.2 hinitial.2⟩⟩
  have hsame : List.Forall₂ (Equation.Renumbered id) (equationsOf before.constraints)
      (equationsOf before.constraints) :=
    List.forall₂_same.2 fun _ _ => ⟨rfl, rfl, rfl, rfl, rfl⟩
  exact (hstart.run profile hsame hwithin).to_ok hs

/-- The states of both walks around the clause. -/
structure AroundClause (profile : Profile) (ρ : Renaming) (initial' initial : Nat → TypeInfo)
    (before behind : Run) (own added : List Constraint) (t s₀' s₀ s₁ : Classes) : Prop where
  first : (Classes.start initial').run profile (equationsOf before.constraints) = .ok s₀'
  second : (Classes.start initial).run profile (equationsOf before.constraints) = .ok s₀
  clause : s₀.run profile (equationsOf own) = .ok s₁
  rest : s₁.run profile (equationsOf added) = .ok t
  agree : Agree id (fun x => x ≤ ρ.kept ∧ ρ.Shared initial' initial x) s₀' s₀
  fresh' : s₀'.Fresh ρ.kept initial'
  fresh : s₁.Fresh behind.issued initial

theorem Rejoined.around (h : Rejoined ρ made before behind result' run' result run own added' added)
    (hcarries : ∀ step ∈ equationsOf run.constraints, step.Carries initial)
    (ht : (Classes.start initial).run profile (equationsOf run.constraints) = .ok t) :
    ∃ s₀' s₀ s₁,
      AroundClause profile ρ (initialOf made) initial before behind own added t s₀' s₀ s₁ := by
  have hsteps : equationsOf run.constraints = equationsOf behind.constraints ++ equationsOf added := by
    rw [h.second, equationsOf_append]
  have hbehind : equationsOf behind.constraints = equationsOf before.constraints ++ equationsOf own := by
    rw [h.clause, equationsOf_append]
  rw [hsteps] at hcarries ht
  rw [Classes.run_append] at ht
  rcases bind_eq_ok.1 ht with ⟨s₁, hs₁, ht⟩
  have hfresh := (Classes.Fresh.start behind.issued initial).run h.through hs₁
  rw [hbehind, Classes.run_append] at hs₁
  rcases bind_eq_ok.1 hs₁ with ⟨s₀, hs₀, hs₁⟩
  have hearly : ∀ step ∈ equationsOf before.constraints, step.Carries initial := fun step hstep =>
    hcarries step (List.mem_append_left _ (hbehind ▸ List.mem_append_left _ hstep))
  rcases h.before_agree hearly hs₀ with ⟨s₀', hs₀', hagree⟩
  have hfresh' := (Classes.Fresh.start before.issued (initialOf made)).run h.early hs₀'
  rw [← h.kept] at hfresh'
  exact ⟨s₀', s₀, s₁, hs₀', hs₀, hs₁, ht, hagree, hfresh', hfresh⟩

/-- When the clause spares all variables before it, the query without it is solved alike. -/
theorem Rejoined.solved_of_spares
    (h : Rejoined ρ made before behind result' run' result run own added' added)
    (hcarries : ∀ step ∈ equationsOf run.constraints, step.Carries initial) {s₀' s₀ s₁ : Classes}
    (w : AroundClause profile ρ (initialOf made) initial before behind own added t s₀' s₀ s₁)
    (hspares : s₀.Spares profile (fun x => 0 < x ∧ x ≤ ρ.kept) (equationsOf own)) :
    ∃ t', (Classes.start (initialOf made)).run profile (equationsOf run'.constraints) = .ok t' ∧
      Agree ρ.apply (ρ.Shared (initialOf made) initial) t' t := by
  have hkept := h.kept
  have hahead := h.ahead
  have hspared : Agree id (fun x => x ≤ ρ.kept ∧ ρ.Shared (initialOf made) initial x) s₀' s₁ :=
    w.agree.trans (hspares.agree w.clause) fun x hx => ⟨hx.2.1, hx.1⟩
  have hparted : Agree ρ.apply (ρ.Shared (initialOf made) initial) s₀' s₁ :=
    .beyond hspared (fun _ hx => hx) w.fresh' w.fresh (by omega) (by omega)
  have hcarries' : ∀ step ∈ equationsOf run'.constraints, step.Carries (initialOf made) :=
    fun step hstep => (h.steps step hstep).carries
  rw [h.first, equationsOf_append] at hcarries'
  rw [h.second, equationsOf_append] at hcarries
  have hboth := hparted.matches profile h.rest
    (fun step hstep => hcarries' step (List.mem_append_right _ hstep))
    (fun step hstep => hcarries step (List.mem_append_right _ hstep))
  rcases hboth.to_ok w.rest with ⟨t', ht', hagree⟩
  refine ⟨t', ?_, hagree⟩
  rw [h.first, equationsOf_append, Classes.run_append, w.first]
  exact ht'

/-- Behind the clause, the shorter query has the classes of the whole one among the variables that
the clause spares, and splits no class of the others: of what it has made since it knows nothing yet,
and of what was there before the clause has only made the classes larger. -/
theorem AroundClause.follows {s₀' s₀ s₁ : Classes}
    (w : AroundClause profile ρ (initialOf made) initial before behind own added t s₀' s₀ s₁)
    (hkept : ρ.kept = before.issued) (hahead : behind.issued = before.issued + ρ.shift)
    {W : Nat → Prop} (hspares : s₀.Spares profile W (equationsOf own)) :
    Follows ρ.apply (ρ.Shared (initialOf made) initial) W s₀' s₁ := by
  have hsame : ∀ x, x ≤ ρ.kept → ρ.apply x = x := fun _ hx => if_pos hx
  have hspared : Agree id (fun x => x ≤ ρ.kept ∧
      (ρ.Shared (initialOf made) initial x ∧ W (ρ.apply x))) s₀' s₁ := by
    have hfirst : Agree id (fun x => x ≤ ρ.kept ∧
        (ρ.Shared (initialOf made) initial x ∧ W (ρ.apply x))) s₀' s₀ :=
      w.agree.mono fun x hx => ⟨hx.1, hx.2.1⟩
    exact hfirst.trans (hspares.agree w.clause) fun x hx => hsame x hx.1 ▸ hx.2.2
  refine ⟨.beyond hspared (fun _ hx => hx.1) w.fresh' w.fresh (by omega) (by omega), ?_⟩
  intro z x hz hx _ hlabel
  rcases Nat.lt_or_ge ρ.kept x with hxk | hxk
  · rcases Nat.lt_or_ge ρ.kept z with hzk | hzk
    · rw [(w.fresh'.alone z hzk).1, (w.fresh'.alone x hxk).1] at hlabel
      rw [hlabel]
    · have hbelow := w.fresh'.below z hzk
      rw [hlabel, (w.fresh'.alone x hxk).1] at hbelow
      exact absurd hbelow (Nat.not_le.2 hxk)
  · rcases Nat.lt_or_ge ρ.kept z with hzk | hzk
    · have hbelow := w.fresh'.below x hxk
      rw [← hlabel, (w.fresh'.alone z hzk).1] at hbelow
      exact absurd hbelow (Nat.not_le.2 hzk)
    · rw [hsame z hzk, hsame x hxk]
      exact Classes.same_of_run ((w.agree.same z x ⟨hzk, hz⟩ ⟨hxk, hx⟩).1 hlabel) w.clause

/-- When some variables are beyond the reach of the clause, the query without it, if it is solved,
knows the same of them. -/
theorem Rejoined.agree_beyondReach
    (h : Rejoined ρ made before behind result' run' result run own added' added)
    (hcarries : ∀ step ∈ equationsOf run.constraints, step.Carries initial) {s₀' s₀ s₁ : Classes}
    (w : AroundClause profile ρ (initialOf made) initial before behind own added t s₀' s₀ s₁)
    {W : Nat → Prop} (hspares : s₀.Spares profile W (equationsOf own))
    (hkeeps : s₁.KeepsApart profile W (equationsOf added))
    (ht' : (Classes.start (initialOf made)).run profile (equationsOf run'.constraints) = .ok t') :
    Agree ρ.apply (fun x => ρ.Shared (initialOf made) initial x ∧ W (ρ.apply x)) t' t := by
  rw [h.first, equationsOf_append, Classes.run_append, w.first] at ht'
  have hfollows := w.follows h.kept h.ahead hspares
  have hshared : ∀ step ∈ equationsOf added', step.Within (ρ.Shared (initialOf made) initial) := by
    intro step hstep
    rcases exists_partner (equationsOf_matches h.rest).flip hstep with ⟨step', hstep', hpair⟩
    have hissued := h.steps step (by
      rw [h.first, equationsOf_append]
      exact List.mem_append_right _ hstep)
    have hinitial := hcarries step' (by
      rw [h.second, equationsOf_append]
      exact List.mem_append_right _ hstep')
    exact ⟨hpair.left.shared hissued.carries.1 hinitial.1,
      hpair.right.shared hissued.carries.2 hinitial.2⟩
  exact (hfollows.run ((equationsOf_matches h.rest).imp fun _ _ hstep => hstep.renumbered) hshared hkeeps
    ht' w.rest).agree

end

end

/-! ## Around a clause -/

/-- What the walk over a query finds out around a clause. -/
structure ClauseReading where
  /-- The run up to the clause. -/
  before : Run
  /-- The run behind the clause. -/
  behind : Run
  result : QueryResult
  run : Run

/-- Analyses a query, once up to a clause and through it, and once as a whole. -/
def Select.readClause (setting : Setting) (q : Select) (c : Clause) :
    Except AnalysisError ClauseReading := do
  let upTo ← (inferUpTo setting q c).outcome .start
  let asked ← upTo.1.outcome upTo.2
  let whole ← (inferQuery setting [] q).outcome .start
  pure ⟨upTo.2, asked.2, whole.1, whole.2⟩

/-- The variables of an output column, by their numbers. -/
def OutputColumn.ids (c : OutputColumn) : List Nat := c.var.id :: c.unionVars.map (·.id)

namespace ClauseReading

/-- The equations that the clause asks for. -/
def own (x : ClauseReading) : List Equation :=
  equationsOf (x.behind.constraints.drop x.before.constraints.length)

/-- The equations that the query asks for behind the clause. -/
def later (x : ClauseReading) : List Equation :=
  equationsOf (x.run.constraints.drop x.behind.constraints.length)

/-- Whether the clause spares some variables. -/
def spares (profile : Profile) (x : ClauseReading) (watched : List Nat) : Bool :=
  match Forest.constrainAll profile [] x.before.constraints with
  | .ok forest => forest.spares profile watched x.own
  | .error _ => false

/-- Whether the rest of the query lies among some variables or keeps away from their classes. -/
def keepsApart (profile : Profile) (x : ClauseReading) (watched : List Nat) : Bool :=
  match Forest.constrainAll profile [] x.behind.constraints with
  | .ok forest => forest.keepsApart profile watched x.later
  | .error _ => false

/-- Whether the clause spares all variables that there have been before it. -/
def sparesAll (profile : Profile) (x : ClauseReading) : Bool :=
  x.spares profile (List.range' 1 x.before.issued)

/-- Whether some variables, among them those of an output column, are out of reach of the clause: it
spares them, and what follows ties nothing else to them. -/
def beyondReach (profile : Profile) (x : ClauseReading) (watched : List Nat) (i : Nat) : Bool :=
  x.spares profile watched && x.keepsApart profile watched &&
    x.result.columns[i]?.any fun c => c.ids.all watched.contains

end ClauseReading

/-- Whether a clause has no more in it than literals, placeholders and columns, through parentheses,
and in a LIMIT no columns, either. -/
def Select.isSimpleAt (q : Select) : Clause → Bool
  | .order => q.order.all fun term => term.value.isSimple
  | .limit => q.limit.all Limit.isGiven
  | .group i => q.branches[i]?.any fun b => b.group.all Expr.isSimple
  | .having i => q.branches[i]?.any fun b => b.having.all Expr.isSimple

/-- What is left of a column without its type. -/
def ResultColumn.shape (c : ResultColumn) : String × Bool × String := (c.name, c.notNull, c.table)

/-! ## The columns -/

section

variable {setting : Setting} {q : Select} {c : Clause} {result : QueryResult} {run : Run}

theorem shapes_eq {ρ : Renaming} {made : List TypeInfo} {result' : QueryResult}
    (h : QueryResult.Matches ρ made result' result) (profile : Profile)
    (solution' solution : Solution) :
    (result'.columns.map (·.result solution' profile)).map ResultColumn.shape =
      (result.columns.map (·.result solution profile)).map ResultColumn.shape := by
  rw [List.map_map, List.map_map, ← List.forall₂_eq_eq_eq, List.forall₂_map_left_iff,
    List.forall₂_map_right_iff]
  refine List.Forall₂.imp (fun c' c hc => ?_) h
  show (c'.name, c'.notNull, c'.table) = (c.name, c.notNull, c.table)
  rw [hc.name, hc.notNull, hc.table]

/-- Columns are reported alike when the states agree on their variables. -/
theorem result_eq_of_agree {ρ : Renaming} {made made' : List TypeInfo} {W : Nat → Prop}
    {t t' : Classes} (profile : Profile) {solution solution' : Solution}
    (hagree : Agree ρ.apply (fun x => ρ.Shared (initialOf made) (initialOf made') x ∧ W (ρ.apply x))
      t' t)
    (hsolution' : ∀ v : TypeVar, v.Carries (initialOf made) → solution'.infoOf v = t'.infoOf v.id)
    (hsolution : ∀ v : TypeVar, v.Carries (initialOf made') → solution.infoOf v = t.infoOf v.id)
    {c' c : OutputColumn} (hpair : c'.Matches ρ made c)
    (hself : OutputColumn.Matches .none made' c c) (hwatched : ∀ id ∈ c.ids, W id) :
    c'.result solution' profile = c.result solution profile := by
  refine hpair.result_eq fun v v' hv hmem => ?_
  have hissued : v'.Issued made' := by
    rcases hmem with rfl | hmem
    · exact hself.var.issued
    · exact (List.forall₂_same.1 hself.unionVars v' hmem).issued
  have hid : v'.id ∈ c.ids := by
    rcases hmem with rfl | hmem
    · exact List.mem_cons_self
    · exact List.mem_cons_of_mem _ (List.mem_map_of_mem hmem)
  have hnumber : ρ.apply v.id = v'.id := by
    rw [hv.eq]
    rfl
  have hinfo := hagree.info v.id ⟨hv.shared hv.issued.carries hissued.carries,
    hnumber ▸ hwatched _ hid⟩
  rw [hsolution' v hv.issued.carries, hsolution v' hissued.carries, hinfo, hnumber]

/-- So is the column at a place, in a list of columns of either query. -/
theorem columns_eq_of_agree {ρ : Renaming} {made made' : List TypeInfo} {W : Nat → Prop}
    {t t' : Classes} (profile : Profile) {solution solution' : Solution}
    (hagree : Agree ρ.apply (fun x => ρ.Shared (initialOf made) (initialOf made') x ∧ W (ρ.apply x))
      t' t)
    (hsolution' : ∀ v : TypeVar, v.Carries (initialOf made) → solution'.infoOf v = t'.infoOf v.id)
    (hsolution : ∀ v : TypeVar, v.Carries (initialOf made') → solution.infoOf v = t.infoOf v.id)
    {result' : QueryResult} (hpair : QueryResult.Matches ρ made result' result)
    (hself : QueryResult.Matches .none made' result result) {i : Nat}
    (hwatched : ∀ column, result.columns[i]? = some column → ∀ id ∈ column.ids, W id) :
    (result'.columns.map (·.result solution' profile))[i]? =
      (result.columns.map (·.result solution profile))[i]? := by
  rw [List.getElem?_map, List.getElem?_map]
  cases hcolumn : result.columns[i]? with
  | none =>
    have hlength := hpair.length_eq
    rw [List.getElem?_eq_none_iff, ← hlength, ← List.getElem?_eq_none_iff] at hcolumn
    rw [hcolumn]
    rfl
  | some column =>
    rcases exists_partner_at hpair hcolumn with ⟨column', hcolumn', hmatch⟩
    rw [hcolumn', Option.map_some, Option.map_some,
      result_eq_of_agree profile hagree hsolution' hsolution hmatch
        (List.forall₂_same.1 hself column (List.mem_of_getElem? hcolumn)) (hwatched column hcolumn)]

theorem outcome_readClause {upTo : Analyze Unit} {before behind : Run}
    (hupTo : (inferUpTo setting q c).outcome .start = .ok (upTo, before))
    (hasks : upTo.outcome before = .ok ((), behind))
    (hwalk : (inferQuery setting [] q).outcome .start = .ok (result, run)) :
    q.readClause setting c = .ok ⟨before, behind, result, run⟩ := by
  unfold Select.readClause
  rw [hupTo]
  simp only [bind, Except.bind, hasks, hwalk]
  rfl

section

variable {ρ : Renaming} {made : List TypeInfo} {before behind run' : Run} {result' : QueryResult}
  {own added' added : List Constraint} {initial : Nat → TypeInfo} {profile : Profile} {t : Classes}
  {s₀' s₀ s₁ : Classes} {watched : List Nat}

/-- What is computed of a clause is so of the states around it. -/
theorem Rejoined.spares_iff
    (h : Rejoined ρ made before behind result' run' result run own added' added)
    (hcarries : ∀ step ∈ equationsOf run.constraints, step.Carries initial)
    (w : AroundClause profile ρ (initialOf made) initial before behind own added t s₀' s₀ s₁) :
    (ClauseReading.mk before behind result run).spares profile watched = true ↔
      s₀.Spares profile (· ∈ watched) (equationsOf own) := by
  rw [h.second, h.clause, equationsOf_append, equationsOf_append] at hcarries
  obtain ⟨forest, hforest, hrepresents⟩ := ((Represents.nil initial).run profile fun step hstep =>
    hcarries step (List.mem_append_left _ (List.mem_append_left _ hstep))).to_ok w.second
  unfold ClauseReading.spares ClauseReading.own
  simp only [hforest, h.clause, List.drop_left]
  exact hrepresents.spares_iff fun step hstep =>
    hcarries step (List.mem_append_left _ (List.mem_append_right _ hstep))

/-- What has been computed of the rest of a query holds of the state behind the clause. -/
theorem Rejoined.keepsApart
    (h : Rejoined ρ made before behind result' run' result run own added' added)
    (hcarries : ∀ step ∈ equationsOf run.constraints, step.Carries initial)
    (w : AroundClause profile ρ (initialOf made) initial before behind own added t s₀' s₀ s₁)
    (hkeeps : (ClauseReading.mk before behind result run).keepsApart profile watched = true) :
    s₁.KeepsApart profile (· ∈ watched) (equationsOf added) := by
  have hbehind : (Classes.start initial).run profile (equationsOf behind.constraints) = .ok s₁ := by
    rw [h.clause, equationsOf_append, Classes.run_append, w.second]
    exact w.clause
  rw [h.second, equationsOf_append] at hcarries
  obtain ⟨forest, hforest, hrepresents⟩ := ((Represents.nil initial).run profile fun step hstep =>
    hcarries step (List.mem_append_left _ hstep)).to_ok hbehind
  unfold ClauseReading.keepsApart ClauseReading.later at hkeeps
  simp only [hforest, h.second, List.drop_left] at hkeeps
  exact hrepresents.keepsApart (fun step hstep => hcarries step (List.mem_append_right _ hstep))
    hkeeps

end

/-! ## Solved queries -/

/-- A query that is solved and the query without a clause: their walks, and what is known of the whole
query around the clause and in the end. -/
structure Parting.Solved (p : Parting setting q c result run) (solution : Solution) where
  ρ : Renaming
  made : List TypeInfo
  whole : List TypeInfo
  result' : QueryResult
  run' : Run
  own : List Constraint
  added' : List Constraint
  added : List Constraint
  last : Classes
  before' : Classes
  before : Classes
  behind : Classes
  walk' : (inferQuery setting [] (q.without c)).outcome .start = .ok (result', run')
  rejoined : Rejoined ρ made p.before p.behind result' run' result run own added' added
  around : AroundClause setting.profile ρ (initialOf made) (initialOf whole) p.before p.behind own
    added last before' before behind
  carries : ∀ step ∈ equationsOf run.constraints, step.Carries (initialOf whole)
  carries' : ∀ step ∈ equationsOf run'.constraints, step.Carries (initialOf made)
  known : ∀ v : TypeVar, v.Carries (initialOf whole) → solution.infoOf v = last.infoOf v.id
  columns : QueryResult.Matches .none whole result result

theorem Parting.exists_solved (p : Parting setting q c result run)
    (hwalk : (inferQuery setting [] q).outcome .start = .ok (result, run)) {solution : Solution}
    (hsolve : solve setting.profile run.constraints = .ok solution) :
    Nonempty (p.Solved solution) := by
  rcases p.rejoined with ⟨ρ, made, result', run', own, added', added, hwalk', hr⟩
  rcases Run.Sound.start.query nothing_outer hwalk with ⟨whole, -, hsound, -, -, hself⟩
  rcases exists_classes hsound.carries hsolve with ⟨t, ht, hsolution⟩
  rcases hr.around hsound.carries ht with ⟨s₀', s₀, s₁, w⟩
  exact ⟨⟨ρ, made, whole, result', run', own, added', added, t, s₀', s₀, s₁, hwalk', hr, w,
    hsound.carries, fun step hstep => (hr.steps step hstep).carries, hsolution, hself⟩⟩

/-! ## Simple clauses -/

theorem Parting.goesAside (p : Parting setting q c result run) {clause : Analyze Unit} {before : Run}
    (hupTo : (inferUpTo setting q c).outcome .start = .ok (clause, before))
    (haside : StaysAside before.issued clause) : p.before.GoesAside p.behind := by
  have hsame := hupTo.symm.trans p.upTo
  simp only [Except.ok.injEq, Prod.mk.injEq] at hsame
  rcases hsame with ⟨rfl, rfl⟩
  exact haside _ _ _ (Nat.le_refl _) p.asks

/-- The walk over a simple clause goes aside of what there has been before. -/
theorem exists_parting_aside (hwalk : (inferQuery setting [] q).outcome .start = .ok (result, run))
    (hsimple : q.isSimpleAt c = true) :
    ∃ p : Parting setting q c result run, p.before.GoesAside p.behind := by
  cases c with
  | order =>
    rcases exists_headWalk hwalk with ⟨w⟩
    rcases w.parting_order with ⟨p⟩
    have hscope := (orderScope_matches w.first w.columns).among (Nat.le_of_eq w.sound.issued.symm)
    exact ⟨p, p.goesAside w.upTo_order (.orderBy hscope hsimple)⟩
  | limit =>
    rcases exists_headWalk hwalk with ⟨w⟩
    rcases w.parting_limit with ⟨p⟩
    exact ⟨p, p.goesAside w.upTo_limit (.limitTo hsimple)⟩
  | group i =>
    rcases (Option.any_eq_true _ _).1 hsimple with ⟨b, hb, hgroup⟩
    rcases exists_branchWalk hb hwalk with ⟨w⟩
    rcases w.parting_group with ⟨p⟩
    have hscope := w.scope.among (Nat.le_of_eq w.sound.issued.symm)
    exact ⟨p, p.goesAside w.upTo_group (.bind (.all hscope hgroup) fun _ => .pure _)⟩
  | having i =>
    rcases (Option.any_eq_true _ _).1 hsimple with ⟨b, hb, hhaving⟩
    rcases exists_branchWalk hb hwalk with ⟨w⟩
    rcases w.parting_having with ⟨p⟩
    rcases w.behindGroupSound with ⟨made, hgrows, hsound, -, -⟩
    have hscope := (w.scope.mono hgrows).among (Nat.le_of_eq hsound.issued.symm)
    exact ⟨p, p.goesAside w.upTo_having (.bind (.some hscope hhaving) fun _ => .pure _)⟩

/-- A simple clause spares all variables that there have been before it. -/
theorem sparesAll_of_simple {d : Description} (h : describe setting (.select q) = .ok d)
    (hsimple : q.isSimpleAt c = true) {x : ClauseReading}
    (hx : q.readClause setting c = .ok x) : x.sparesAll setting.profile = true := by
  rcases describe_select_iff.1 h with ⟨result, run, solution, hwalk, hsolve, rfl⟩
  rcases exists_parting_aside hwalk hsimple with ⟨p, own, hown, haside⟩
  cases (outcome_readClause p.upTo p.asks hwalk).symm.trans hx
  rcases p.exists_solved hwalk hsolve with ⟨w⟩
  rw [List.append_cancel_left (hown.symm.trans w.rejoined.clause)] at haside
  refine (w.rejoined.spares_iff w.carries w.around).2 ?_
  have hfresh := (Classes.Fresh.start p.before.issued (initialOf w.whole)).run w.rejoined.early
    w.around.second
  refine hfresh.spares_of_aside haside (fun step hstep => w.carries step ?_) fun x hx => ?_
  · rw [w.rejoined.second, w.rejoined.clause, equationsOf_append, equationsOf_append]
    exact List.mem_append_left _ (List.mem_append_right _ hstep)
  · have hrange : 1 ≤ x ∧ x < 1 + p.before.issued := List.mem_range'_1.1 hx
    omega

/-! ## Queries without a clause -/

/-- A query without a clause has the columns of the whole query, if the clause spares all variables
before it. -/
theorem exists_columns_of_sparesAll {d : Description} (h : describe setting (.select q) = .ok d)
    {x : ClauseReading} (hx : q.readClause setting c = .ok x)
    (hspares : x.sparesAll setting.profile = true) :
    ∃ d', describe setting (.select (q.without c)) = .ok d' ∧ d'.columns = d.columns := by
  rcases describe_select_iff.1 h with ⟨result, run, solution, hwalk, hsolve, rfl⟩
  rcases exists_parting hwalk c with ⟨hsame, -⟩ | ⟨⟨p⟩⟩
  · rw [hsame]
    exact ⟨_, h, rfl⟩
  cases (outcome_readClause p.upTo p.asks hwalk).symm.trans hx
  rcases p.exists_solved hwalk hsolve with ⟨w⟩
  -- the clause spares every variable that the walk had made before it
  have hall : w.before.Spares setting.profile (fun x => 0 < x ∧ x ≤ w.ρ.kept)
      (equationsOf w.own) := by
    have hwatched := (w.rejoined.spares_iff w.carries w.around).1 hspares
    have hnumbers : (fun x => x ∈ List.range' 1 p.before.issued) =
        fun x => 0 < x ∧ x ≤ w.ρ.kept := by
      funext x
      rw [w.rejoined.kept, List.mem_range'_1]
      exact propext ⟨fun hx => ⟨hx.1, by omega⟩, fun hx => ⟨hx.1, by omega⟩⟩
    rwa [hnumbers] at hwatched
  rcases w.rejoined.solved_of_spares w.carries w.around hall with ⟨t', ht', hagree⟩
  rcases exists_solution w.carries' ht' with ⟨solution', hsolve', hsolution'⟩
  have hagree : Agree w.ρ.apply
      (fun x => w.ρ.Shared (initialOf w.made) (initialOf w.whole) x ∧ True) t' w.last :=
    hagree.mono fun _ hx => hx.1
  refine ⟨_, describe_select_iff.2 ⟨w.result', w.run', solution', w.walk', hsolve', rfl⟩, ?_⟩
  exact List.ext_getElem? fun _ => columns_eq_of_agree setting.profile hagree hsolution' w.known
    w.rejoined.results w.columns fun _ _ _ _ => trivial

/-- A query without a simple clause has the columns of the whole query. -/
theorem columns_without_simple_clause {d : Description} (h : describe setting (.select q) = .ok d)
    (hsimple : q.isSimpleAt c = true) :
    ∃ d', describe setting (.select (q.without c)) = .ok d' ∧ d'.columns = d.columns := by
  rcases describe_select_iff.1 h with ⟨result, run, solution, hwalk, -, -⟩
  rcases exists_parting_aside hwalk hsimple with ⟨p, -⟩
  have hx := outcome_readClause p.upTo p.asks hwalk
  exact exists_columns_of_sparesAll h hx (sparesAll_of_simple h hsimple hx)

/-- A query without a clause has the columns of the whole query, unless it is refused for a clash. A
column has the same type if the clause does not reach it, and all do if the clause spares all
variables before it; then there is no clash, either. -/
theorem columns_without_clause {d : Description} (h : describe setting (.select q) = .ok d)
    (c : Clause) :
    ∃ x, q.readClause setting c = .ok x ∧
      (∀ e, describe setting (.select (q.without c)) = .error e → ∃ clash, e = .clash clash) ∧
      (∀ d', describe setting (.select (q.without c)) = .ok d' →
        d'.columns.map ResultColumn.shape = d.columns.map ResultColumn.shape ∧
        ∀ watched i, x.beyondReach setting.profile watched i = true →
          d'.columns[i]? = d.columns[i]?) ∧
      (x.sparesAll setting.profile = true →
        ∃ d', describe setting (.select (q.without c)) = .ok d' ∧ d'.columns = d.columns) := by
  rcases describe_select_iff.1 h with ⟨result, run, solution, hwalk, hsolve, rfl⟩
  rcases exists_parting hwalk c with ⟨hsame, r, hmissing⟩ | ⟨⟨p⟩⟩
  -- without such a clause, nothing is taken away
  · refine ⟨_, outcome_readClause hmissing rfl hwalk, ?_⟩
    rw [hsame, h]
    refine ⟨fun e he => (nomatch he), ?_, fun _ => ⟨_, rfl, rfl⟩⟩
    rintro _ ⟨⟩
    exact ⟨rfl, fun _ _ _ => rfl⟩
  -- the two walks part at the clause and meet again behind it
  have hx := outcome_readClause p.upTo p.asks hwalk
  refine ⟨_, hx, ?_⟩
  rcases p.exists_solved hwalk hsolve with ⟨w⟩
  refine ⟨fun e he => clash_of_walk w.walk' he, ?_, exists_columns_of_sparesAll h hx⟩
  intro d' hd'
  rcases describe_select_iff.1 hd' with ⟨result'', run'', solution', hwalk'', hsolve', rfl⟩
  have hsame := w.walk'.symm.trans hwalk''
  simp only [Except.ok.injEq, Prod.mk.injEq] at hsame
  rcases hsame with ⟨rfl, rfl⟩
  refine ⟨shapes_eq w.rejoined.results setting.profile solution' solution,
    fun watched i hreach => ?_⟩
  unfold ClauseReading.beyondReach at hreach
  simp only [Bool.and_eq_true] at hreach
  rcases hreach with ⟨⟨hspares, hkeeps⟩, hwatched⟩
  rcases exists_classes w.carries' hsolve' with ⟨t', ht', hsolution'⟩
  have hagree := w.rejoined.agree_beyondReach w.carries w.around
    ((w.rejoined.spares_iff w.carries w.around).1 hspares)
    (w.rejoined.keepsApart w.carries w.around hkeeps) ht'
  refine columns_eq_of_agree setting.profile hagree hsolution' w.known w.rejoined.results
    w.columns ?_
  intro column hcolumn
  simpa only [hcolumn, Option.any_some, List.all_eq_true, List.contains_iff_mem] using hwatched

end

/-- `SELECT id AS a FROM mytable1 ORDER BY a`. -/
def idsInOrder : Select := { idAsA with order := [⟨.column ⟨none, "a"⟩, false⟩] }

theorem columns_without_clause_idsInOrder :
    ∃ d d', describe ⟨oneTable, .mysql⟩ (.select idsInOrder) = .ok d ∧
      describe ⟨oneTable, .mysql⟩ (.select (idsInOrder.without .order)) = .ok d' ∧
      d'.columns = d.columns := by
  have hq : (describe ⟨oneTable, .mysql⟩ (.select idsInOrder)).isOk = true := by decide +kernel
  have hx : ((idsInOrder.readClause ⟨oneTable, .mysql⟩ .order).toOption.any
      fun x => x.sparesAll .mysql) = true := by decide +kernel
  rcases exists_of_isOk hq with ⟨d, hd⟩
  rcases columns_without_clause hd .order with ⟨x, hread, -, -, hspares⟩
  rw [hread] at hx
  rcases hspares hx with ⟨d', hd', hcolumns⟩
  exact ⟨d, d', hd, hd', hcolumns⟩

/-- `SELECT id AS a FROM mytable1 ORDER BY a + 1`. -/
def idsInOrderOfNext : Select :=
  { idAsA with order := [⟨.arithmetic .add (.column ⟨none, "a"⟩) (.literal (.int 1)), false⟩] }

/-- `SELECT 'x' AS a HAVING a + 1 ORDER BY a = 5`. -/
def textAsNumber : Select :=
  ⟨[], [⟨false, [.expr (.literal (.string "x")) (some "a")], [], [], none, [],
    some (.arithmetic .add (.column ⟨none, "a"⟩) (.literal (.int 1)))⟩],
    [⟨.compare .eq (.column ⟨none, "a"⟩) (.literal (.int 5)), false⟩], none⟩

/-- An ORDER BY that computes with a column changes its type, and a HAVING may be what makes a later
comparison possible. -/
theorem order_reaches_column :
    (describe ⟨oneTable, .mysql⟩ (.select idsInOrderOfNext)).toOption.map (·.columns) =
        some [⟨"a", .double, true, "mytable1"⟩] ∧
      (describe ⟨oneTable, .mysql⟩ (.select (idsInOrderOfNext.without .order))).toOption.map
        (·.columns) = some [⟨"a", .int, true, "mytable1"⟩] ∧
      (describe ⟨oneTable, .mysql⟩ (.select textAsNumber)).isOk = true ∧
      (describe ⟨oneTable, .mysql⟩ (.select (textAsNumber.without (.having 0)))).isOk = false := by
  refine ⟨?_, ?_, ?_, ?_⟩
  · decide +kernel
  · decide +kernel
  · decide +kernel
  · decide +kernel

end QuerySignature
