import QuerySignature.Proofs.Mirrored.Crossing
import QuerySignature.Proofs.Pinned.Forms

namespace QuerySignature

/-! # Steps that lead past a comparison

Two steps lead past a comparison and its mirror if one comes to the comparison and the other to the
mirror. What comes before it is the same text for both walks: they take the same steps there, and what
these give in one walk stands for what they give in the other. What comes behind it goes on alike.

- `Passing.Leads`: such steps, from two runs.
- `Passing.Leads.after`, `Passing.Leads.bind`: behind a step before the comparison, and before a step
  behind it.
- `Passing.Leads.aside`, `Passing.Leads.afterAside`: with the placeholders of a step set aside.
- `Passing.leads_comparison`: the comparison and its mirror.
- `Common.expr`, `Common.all`, `Common.arguments`: expressions before a comparison.
- `Common.commonTables`, `Common.union`, `Common.projected`: parts of queries before it.
- `exists_unionOf`: the columns of all branches of a query.
-/

/-- From two runs, two steps lead past a comparison and its mirror: if the first gives a value, the
second gives a related one, and the runs have crossed. -/
def Passing.Leads {α β : Type} {setting : Setting} (p : Passing setting) (N : Naming)
    (R : α → β → Prop) (r r' : Run) (step : Analyze α) (step' : Analyze β) : Prop :=
  ∀ a s, step.outcome r = .ok (a, s) → ∃ b s' p', step'.outcome r' = .ok (b, s') ∧ R a b ∧
    p.Traded p' ∧ p.Crossed p' N r s s'

/-- What a comparison leaves behind its operands, and what it hands on. -/
theorem outcome_inferCompare (setting : Setting) (label : String) (left right : Inferred) (r : Run) :
    ∃ ps : List Placeholder, ps.map (·.var) = r.vars ∧
      (inferCompare setting label left right).outcome r =
        .ok (.ofVar ⟨r.issued + 1, label, .exact setting.profile.predicateType, false, false⟩ true,
          { r with
            issued := r.issued + 1
            constraints := r.constraints ++ [.strict label (.var left.var) (.var right.var)]
            placeholders := ps }) := by
  have hforce : ∀ (e : Inferred) (r : Run), ∃ ps : List Placeholder, ps.map (·.var) = r.vars ∧
      (forceNotNull e).outcome r = .ok ((), { r with placeholders := ps }) := by
    intro e r
    unfold forceNotNull
    cases e.placeholder with
    | none => exact ⟨r.placeholders, rfl, rfl⟩
    | some index => exact ⟨_, map_modify_notNull r.placeholders index true fun _ => rfl, rfl⟩
  obtain ⟨ps, hps, hleft⟩ := hforce left { r with
    constraints := r.constraints ++ [.strict label (.var left.var) (.var right.var)] }
  obtain ⟨qs, hqs, hright⟩ := hforce right { r with
    constraints := r.constraints ++ [.strict label (.var left.var) (.var right.var)]
    placeholders := ps }
  refine ⟨qs, hqs.trans hps, ?_⟩
  unfold inferCompare
  rw [Analyze.outcome_bind, Analyze.outcome_of_runFrom (runFrom_demand _ r), ok_bind,
    Analyze.outcome_bind, hleft, ok_bind, Analyze.outcome_bind, hright, ok_bind]
  rfl

namespace Passing

namespace Leads

variable {α β γ δ : Type} {setting : Setting} {p : Passing setting} {N : Naming}
  {made : List TypeInfo} {R : α → β → Prop} {Q : γ → δ → Prop} {r r' s : Run} {step : Analyze α}
  {step' : Analyze β} {next : α → Analyze γ} {next' : β → Analyze δ}

/-- What comes behind the comparison goes on alike, without a word of its operands. -/
theorem bind (hbefore : Before N made r r') (h : p.Leads N R r r' step step')
    (hnext : made.length ≤ p.before.issued →
      ∀ a b, R a b → Onward (p.outlook N) Q (next a) (next' b)) :
    p.Leads N Q r r' (step >>= next) (step' >>= next') := by
  intro c t hrun
  rw [Analyze.outcome_bind] at hrun
  rcases bind_eq_ok.1 hrun with ⟨⟨a, s⟩, hfirst, hsecond⟩
  obtain ⟨b, s', p', hfirst', hab, htraded, hcrossed⟩ := h a s hfirst
  have hmade : made.length ≤ p.before.issued := hbefore.sound.issued ▸ hcrossed.issued
  obtain ⟨d, t', hsecond', hcd, hadded⟩ := hnext hmade a b hab s s' hcrossed.runs c t hsecond
  refine ⟨d, t', p', ?_, hcd, htraded, hcrossed.onward hadded⟩
  rw [Analyze.outcome_bind, hfirst']
  exact hsecond'

/-- What comes before the comparison. -/
theorem after {P : List TypeInfo → α → Prop} (hbefore : Before N made r r')
    (hstep : Common N made P R step step') {a : α} (hrun : step.outcome r = .ok (a, s))
    (hnext : ∀ made₁ b s', made <+: made₁ → Before N made₁ s s' → P made₁ a → R a b →
      p.Leads N Q s s' (next a) (next' b)) :
    p.Leads N Q r r' (step >>= next) (step' >>= next') := by
  obtain ⟨made₁, b, s', hgrows, hrun', hbefore', ha, hab, hissued, hvars⟩ :=
    hbefore.step hstep hrun
  intro c t hsecond
  rw [Analyze.outcome_bind, hrun] at hsecond
  obtain ⟨d, t', p', hsecond', hcd, htraded, hcrossed⟩ :=
    hnext made₁ b s' hgrows hbefore' ha hab c t hsecond
  refine ⟨d, t', p', ?_, hcd, htraded, hcrossed.earlier hissued hvars⟩
  rw [Analyze.outcome_bind, hrun']
  exact hsecond'

/-- Steps that come to the same as two others. -/
theorem congr {first : Analyze α} {second : Analyze β} (h : p.Leads N R r r' first second)
    (hfirst : step.outcome r = first.outcome r) (hsecond : step'.outcome r' = second.outcome r') :
    p.Leads N R r r' step step' := by
  intro a s hrun
  rw [hfirst] at hrun
  rw [hsecond]
  exact h a s hrun

/-- The placeholders of the comparison come behind those of what follows. -/
theorem aside (hbefore : Before N made r r') (h : p.Leads N R r r' step step')
    (hnext : made.length ≤ p.before.issued →
      ∀ a b, R a b → Onward (p.outlook N) Q (next a) (next' b)) :
    p.Leads N Q r r' (Analyze.aside step next) (Analyze.aside step' next') := by
  intro c t hrun
  obtain ⟨a, s, u, hfirst, hsecond, rfl⟩ := Analyze.of_outcome_aside hrun
  obtain ⟨b, s', p', hfirst', hab, htraded, hcrossed⟩ := h a s hfirst
  have hmade : made.length ≤ p.before.issued := hbefore.sound.issued ▸ hcrossed.issued
  have hfront : (s'.placeholders.take r'.placeholders.length).length =
      (s.placeholders.take r.placeholders.length).length := by
    rw [List.length_take, List.length_take, hcrossed.runs.places, hbefore.onward.runs.places]
  have hcut := hcrossed.runs.withOthers s.constraints s'.constraints hfront
  obtain ⟨d, u', hsecond', hcd, hadded⟩ := hnext hmade a b hab _ _ hcut _ _ hsecond
  refine ⟨d, _, p', ?_, hcd, htraded, hcrossed.aside hbefore.onward.runs.places hadded⟩
  rw [Analyze.outcome_aside, hfirst', ok_bind, hsecond']
  rfl

/-- The placeholders of the comparison come before those of a step that precedes it. -/
theorem afterAside {P : List TypeInfo → α → Prop} (hbefore : Before N made r r')
    (hstep : Common N made P R step step') {a : α} (hrun : step.outcome r = .ok (a, s))
    (hnext : ∀ made₁ b s', made <+: made₁ →
      Before N made₁ { s with placeholders := s.placeholders.take r.placeholders.length } s' →
      P made₁ a → R a b →
      p.Leads N Q { s with placeholders := s.placeholders.take r.placeholders.length } s' (next a)
        (next' b)) :
    p.Leads N Q r r' (Analyze.aside step next) (Analyze.aside step' next') := by
  obtain ⟨made₁, hgrows, hs, ha⟩ := hstep.soundly r a s hbefore.sound hrun
  obtain ⟨b, s', hrun', hab, hadded⟩ := hstep.onward r r' hbefore.onward.runs a s hrun
  have hcut := hbefore.cut hs hadded
  obtain ⟨vs, vs', hvs, hvs', hvars⟩ := hadded.vars
  obtain ⟨hkept, hlater⟩ := map_cut hvs
  obtain ⟨-, hlater'⟩ := map_cut hvs'
  intro c t hall
  rw [Analyze.outcome_aside, hrun, ok_bind] at hall
  rcases bind_eq_ok.1 hall with ⟨⟨_, u⟩, hsecond, hends⟩
  cases hends
  obtain ⟨d, u', p', hsecond', hcd, htraded, hcrossed⟩ :=
    hnext made₁ b _ hgrows hcut ha hab _ _ hsecond
  have hmade : made₁.length ≤ p.before.issued := hcut.sound.issued ▸ hcrossed.issued
  -- the placeholders that were set aside have been made before the comparison
  have hissued : ∀ v ∈ vs, v.Issued made₁ := by
    intro v hv
    rw [← hlater] at hv
    obtain ⟨placeholder, hmem, rfl⟩ := List.mem_map.1 hv
    exact hs.placeholders placeholder (List.mem_of_mem_drop hmem)
  have hback : List.Forall₂ (TypeVar.Stands (p.outlook N))
      ((s.placeholders.drop r.placeholders.length).map (·.var))
      ((s'.placeholders.drop r'.placeholders.length).map (·.var)) := by
    rw [hlater, hlater']
    exact narrow_vars hmade hvars hissued
  refine ⟨d, _, p', ?_, hcd, htraded, (hcrossed.earlier ?_ ?_).putBack hback⟩
  · rw [Analyze.outcome_aside, hrun', ok_bind, hsecond']
    rfl
  · rw [hbefore.sound.issued, hcut.sound.issued]
    exact hgrows.length_le
  · exact ⟨[], (List.append_nil _).trans hkept.symm⟩

/-- A query forgets the common tables that it has declared. -/
theorem keepingCtes (hbefore : Before N made r r') (h : p.Leads N R r r' step step') :
    p.Leads N R r r' (QuerySignature.keepingCtes step) (QuerySignature.keepingCtes step') := by
  intro a s hrun
  rw [Parallel.outcome_keepingCtes] at hrun ⊢
  cases hstep : step.outcome r with
  | error e =>
    rw [hstep] at hrun
    cases hrun
  | ok q =>
    rw [hstep] at hrun
    cases hrun
    obtain ⟨b, s', p', hstep', hab, htraded, hcrossed⟩ := h q.1 q.2 hstep
    have hmade : made.length ≤ p.before.issued := hbefore.sound.issued ▸ hcrossed.issued
    rw [hstep']
    exact ⟨b, _, p', rfl, hab, htraded,
      hcrossed.withCtes (hbefore.sound.narrow_ctes hmade hbefore.onward.runs.ctes)⟩

end Leads

/-! ## The comparison -/

variable {setting : Setting} {p p' : Passing setting} {N : Naming} {made : List TypeInfo}

/-- What the walk over the comparison finds. -/
def found (p : Passing setting) : Inferred :=
  .ofVar ⟨p.behind.issued + 1, p.comparison.text, .exact setting.profile.predicateType, false, false⟩
    true

/-- The run behind the comparison, with its placeholders. -/
def passed (p : Passing setting) (ps : List Placeholder) : Run :=
  { p.behind with issued := p.behind.issued + 1, constraints := p.asked, placeholders := ps }

/-- The walk over a comparison. -/
theorem outcome_comparison (p : Passing setting) :
    ∃ ps : List Placeholder, ps.map (·.var) = p.behind.vars ∧
      (inferExpr setting p.scope p.comparison).outcome p.before = .ok (p.found, p.passed ps) := by
  obtain ⟨ps, hps, hcompare⟩ :=
    outcome_inferCompare setting p.comparison.text p.leftFound p.rightFound p.behind
  refine ⟨ps, hps, ?_⟩
  show (inferExpr setting p.scope p.left >>= fun l => inferExpr setting p.scope p.right >>= fun r =>
    inferCompare setting p.comparison.text l r).outcome p.before = _
  rw [Analyze.outcome_bind, p.walkLeft, ok_bind, Analyze.outcome_bind, p.walkRight, ok_bind]
  exact hcompare

theorem Orderly.vars (h : p.Orderly) :
    p.behind.vars = p.before.vars ++ (p.leftVars ++ p.rightVars) := by
  rw [h.behindVars, h.middleVars, List.append_assoc]

/-- A comparison and its mirror collect as many placeholders. -/
theorem Traded.length_vars (h : p.Traded p') : p'.behind.vars.length = p.behind.vars.length := by
  rw [h.orderly.vars, h.orderly'.vars, h.before]
  simp only [List.length_append, ← h.leftVars.length_eq, ← h.rightVars.length_eq]
  omega

/-- What is found of the comparison, is found of its mirror. -/
theorem Traded.found (h : p.Traded p') {b : Inferred} (hb : p'.found.Stands (.all N) b) :
    p.found.Stands (p.outlook N) b := by
  obtain ⟨hvar, hnotNull, hplaceholder, hsource, haggregate⟩ := hb
  have hid : b.var.id = p.behind.issued + 1 :=
    hvar.relabelled.id.trans (congrArg (· + 1) h.issued)
  refine ⟨⟨.inr (Nat.lt_succ_self _), hid, hvar.relabelled.info, hvar.relabelled.list,
    hvar.relabelled.projected⟩, hnotNull, hplaceholder, ?_, haggregate⟩
  generalize b.source = source at hsource
  cases hsource
  exact .none

/-- Behind the comparison and its mirror two walks have crossed, if they have come to them alike. -/
theorem Traded.crossed (h : p.Traded p') {r' s' : Run} {ps qs : List Placeholder}
    (hbefore : Before N made p.before r') (hps : ps.map (·.var) = p.behind.vars)
    (hqs : qs.map (·.var) = p'.behind.vars)
    (hadded : Run.Onward (.all N) p.before r' (p'.passed qs) s') :
    p.Crossed p' N p.before (p.passed ps) s' := by
  have hmade : made.length ≤ p.before.issued := Nat.le_of_eq hbefore.sound.issued.symm
  have hissued : s'.issued = p.behind.issued + 1 :=
    hadded.runs.issued.trans (congrArg (· + 1) h.issued)
  have hplaces : s'.placeholders.length = ps.length := by
    calc
      s'.placeholders.length = qs.length := hadded.runs.places
      _ = p'.behind.vars.length := by rw [← hqs, List.length_map]
      _ = p.behind.vars.length := h.length_vars
      _ = ps.length := by rw [← hps, List.length_map]
  have hctes : List.Forall₂ (fun cte cte' => cte'.1 = cte.1 ∧ Level.Stands (.all N) cte.2 cte'.2)
      p.before.ctes s'.ctes := by
    have hctes := hadded.runs.ctes
    dsimp only [passed] at hctes
    rwa [h.orderly'.ctes, h.before] at hctes
  obtain ⟨cs, cs', hcs, hcs', hconstraints⟩ := (hbefore.onward.trans hadded).constraints
  obtain ⟨vs, vs', hvs, hvs', hfront⟩ := hbefore.onward.vars
  obtain ⟨ws, ws', hws, hws', hcrossed⟩ := hadded.vars
  obtain rfl : p'.leftVars ++ p'.rightVars = ws := by
    have hall : p'.behind.vars = p.before.vars ++ ws := hqs.symm.trans hws
    rw [h.orderly'.vars, h.before] at hall
    exact List.append_cancel_left hall
  have hissuedVars : ∀ v ∈ vs, v.Issued made := by
    rw [← show p.before.vars = vs from hvs]
    exact hbefore.sound.issuedVars
  -- nothing has been added behind the comparison yet
  refine ⟨Nat.le_refl _, ⟨hissued, fun id hid => .inr (Nat.lt_of_succ_lt hid), hplaces, ?_⟩,
    ⟨s'.constraints, [], [], (List.append_nil _).symm, (List.append_nil _).symm, ?_, .nil⟩,
    ⟨p.before.vars, r'.vars, ws', [], [], ?_, ?_, ?_, hcrossed, .nil, Nat.le_refl _⟩⟩
  · exact h.orderly.ctes ▸ hbefore.sound.narrow_ctes hmade hctes
  · rw [show p'.asked = cs from hcs, show s'.constraints = cs' from hcs']
    exact hconstraints
  · rw [List.append_nil, ← h.orderly.vars]
    exact hps
  · rw [List.append_nil]
    exact hws'
  · rw [show p.before.vars = vs from hvs, show r'.vars = vs' from hvs']
    exact narrow_vars hmade hfront hissuedVars

/-- The comparison and its mirror, where both walks come to them. -/
theorem leads_comparison {r' : Run} {scope' : Scope} (hbefore : Before N made p.before r')
    (hs : SharedLevels N made p.scope.levels scope'.levels) (hspelled : p.comparison.Spelled N) :
    p.Leads N (Inferred.Stands (p.outlook N)) p.before r' (inferExpr setting p.scope p.comparison)
      (inferExpr setting scope' p.mirrored) := by
  intro a s hrun
  obtain ⟨ps, hps, hcomparison⟩ := p.outcome_comparison
  rw [hcomparison] at hrun
  cases hrun
  -- the mirrored comparison can be analysed from the run before the comparison
  obtain ⟨p', htraded⟩ := p.exists_traded hbefore.sound hs.beside
  obtain ⟨qs, hqs, hmirrored⟩ := p'.outcome_comparison
  rw [htraded.comparison, htraded.scope, htraded.before] at hmirrored
  -- and the second walk goes over it like a walk from there
  have honward : Onward (.all N) (Inferred.Stands (.all N)) (inferExpr setting p.scope p.mirrored)
      (inferExpr setting scope' p.mirrored) :=
    .expr setting p.mirrored ⟨hspelled.2, hspelled.1⟩ hs.related
  obtain ⟨b, s', hrun', hfound, hadded⟩ := honward p.before r' hbefore.onward.runs _ _ hmirrored
  exact ⟨b, s', p', hrun', htraded.found hfound, htraded, htraded.crossed hbefore hps hqs hadded⟩

end Passing

/-! ## What comes before a comparison -/

/-- What a step leads to, with the placeholders of another one put back behind its own. -/
theorem Soundly.aside {α β : Type} {made : List TypeInfo} {P : List TypeInfo → α → Prop}
    {Q : List TypeInfo → β → Prop} {step : Analyze α} {next : α → Analyze β} (h : Soundly made P step)
    (hnext : ∀ made', made <+: made' → ∀ a, P made' a → Soundly made' Q (next a)) :
    Soundly made Q (Analyze.aside step next) := by
  intro r b t hr hrun
  obtain ⟨a, s, u, hfirst, hsecond, rfl⟩ := Analyze.of_outcome_aside hrun
  obtain ⟨made₁, hgrows₁, hs, ha⟩ := h r a s hr hfirst
  have hcut := hs.withPlaceholders
    (hs.placeholders.subset (List.take_subset r.placeholders.length s.placeholders))
  obtain ⟨made₂, hgrows₂, hu, hb⟩ := hnext made₁ hgrows₁ a ha _ _ _ hcut hsecond
  have hlater := (hs.placeholders.subset (List.drop_subset r.placeholders.length _)).mono hgrows₂
  exact ⟨made₂, hgrows₁.trans hgrows₂, hu.withPlaceholders (hu.placeholders.append hlater), hb⟩

/-- A front of which the variables have been made. -/
structure FrontMade (made : List TypeInfo) (front : Sources × List OutputColumn) : Prop where
  sources : front.1.Matches .none made front.1
  columns : List.Forall₂ (OutputColumn.Matches .none made) front.2 front.2

namespace Common

variable {setting : Setting} {N : Naming} {made : List TypeInfo} {scope scope' : Scope}
  {outer outer' : List Level}

/-! ## Expressions -/

section

variable (hs : SharedLevels N made scope.levels scope'.levels)

include hs

theorem expr {e : Expr} (he : e.Spelled N) :
    Common N made (fun made a => a.Matches .none made a) (Inferred.Stands (.all N))
      (inferExpr setting scope e) (inferExpr setting scope' e) :=
  ⟨.of_parallel fun _ => .expr setting e (Parallel.reads_all _) hs.beside,
    .expr setting e he hs.related⟩

theorem all {es : List Expr} (hes : SpelledAll N es) :
    Common N made (fun made as => List.Forall₂ (Inferred.Matches .none made) as as)
      (List.Forall₂ (Inferred.Stands (.all N))) (inferAll setting scope es)
      (inferAll setting scope' es) :=
  ⟨.of_parallel (R := fun made => List.Forall₂ (Inferred.Matches .none made)) fun _ =>
    .all setting es (Parallel.reads_all _) hs.beside, .all setting es hes hs.related⟩

theorem arguments {es : List Expr} (hes : SpelledAll N es) :
    Common N made (fun made as => List.Forall₂ (Inferred.Matches .none made) as as)
      (List.Forall₂ (Inferred.Stands (.all N))) (inferArguments setting scope es)
      (inferArguments setting scope' es) :=
  ⟨.of_parallel (R := fun made => List.Forall₂ (Inferred.Matches .none made)) fun _ =>
    .arguments setting es (Parallel.reads_all _) hs.beside, .arguments setting es hes hs.related⟩

theorem some {o : Option Expr} (ho : SpelledSome N o) :
    Common N made (fun made a => Option.Rel (Inferred.Matches .none made) a a)
      (Option.Rel (Inferred.Stands (.all N))) (inferSome setting scope o)
      (inferSome setting scope' o) :=
  ⟨.of_parallel (R := fun made => Option.Rel (Inferred.Matches .none made)) fun _ =>
    .some setting o (Parallel.reads_all _) hs.beside, .some setting o ho hs.related⟩

theorem caseBranches {bs : List WhenThen} (hbs : SpelledBranches N bs) {o o' : Option Inferred}
    (hmade : Option.Rel (Inferred.Matches .none made) o o)
    (ho : Option.Rel (Inferred.Stands (.all N)) o o') {v v' : TypeVar} (hissued : v.Issued made)
    (hv : v.Stands (.all N) v') :
    Common N made (fun _ _ => True) (fun b b' => b' = b) (inferBranches setting scope o v bs)
      (inferBranches setting scope' o' v' bs) :=
  ⟨(Soundly.of_parallel (R := fun _ b b' => b' = b) fun _ => .caseBranches setting bs
    (Parallel.reads_all _) hs.beside hmade ⟨hissued, (Renaming.none_var v).symm⟩).mono
      fun _ _ _ => trivial, .caseBranches setting bs hbs hs.related ho hv⟩

theorem orderBy {terms : List OrderTerm} (hterms : SpelledOrder N terms) :
    Common N made (fun _ _ => True) Done (inferOrder setting scope terms)
      (inferOrder setting scope' terms) :=
  ⟨.of_parallel (R := Parallel.Done) fun _ =>
    .orderBy setting terms (Parallel.reads_all _) hs.beside, .orderBy setting terms hterms hs.related⟩

theorem items {is : List Item} (his : SpelledItems N is) :
    Common N made (fun made cs => List.Forall₂ (OutputColumn.Matches .none made) cs cs)
      (List.Forall₂ (OutputColumn.Stands (.all N))) (inferItems setting scope is)
      (inferItems setting scope' is) :=
  ⟨.of_parallel (R := fun made => List.Forall₂ (OutputColumn.Matches .none made)) fun _ =>
    .items setting is (Parallel.reads_all _) hs.beside, .items setting is his hs.related⟩

end

theorem fresh (label label' : String) (info : TypeInfo) :
    Common N made (fun made v => v.Issued made) (TypeVar.Stands (.all N))
      (QuerySignature.fresh label info) (QuerySignature.fresh label' info) :=
  ⟨(Soundly.of_parallel (R := TypeVar.Matches .none) fun _ => Parallel.fresh label info).mono
    fun _ _ hv => hv.issued, .fresh label label' info⟩

section

variable {e e' : Inferred} (hmade : e.Matches .none made e) (he : e.Stands (.all N) e')

include hmade he

theorem forceNotNull :
    Common N made (fun _ _ => True) Done (QuerySignature.forceNotNull e)
      (QuerySignature.forceNotNull e') :=
  ⟨.of_parallel (R := Parallel.Done) fun _ => .forceNotNull hmade.placeholder,
    (Outlook.all N).comparison.forceNotNull he⟩

theorem bound (label label' : String) :
    Common N made (fun _ _ => True) Done (inferBound setting label e)
      (inferBound setting label' e') :=
  ⟨.of_parallel (R := Parallel.Done) fun _ => .bound setting label hmade,
    (Outlook.all N).comparison.bound setting trivial he⟩

theorem when (label label' : String) {o o' : Option Inferred}
    (hoMade : Option.Rel (Inferred.Matches .none made) o o)
    (ho : Option.Rel (Inferred.Stands (.all N)) o o') :
    Common N made (fun _ _ => True) Done (inferWhen setting label o e)
      (inferWhen setting label' o' e') :=
  ⟨.of_parallel (R := Parallel.Done) fun _ => .when setting label hoMade hmade,
    (Outlook.all N).comparison.when setting trivial ho he⟩

end

/-! ## Queries -/

section

variable (ho : SharedLevels N made outer outer')

include ho

theorem commonTables {ctes : List Cte} (hctes : SpelledCtes N ctes) :
    Common N made (fun _ _ => True) Done (inferCtes setting outer ctes)
      (inferCtes setting outer' ctes) := by
  refine ⟨fun r _ s hr hrun => ?_, .commonTables setting ctes hctes ho.stands⟩
  obtain ⟨made', hgrows, hs, -⟩ := hr.commonTables ho.issued hrun
  exact ⟨made', hgrows, hs, trivial⟩

theorem union {bs : List Branch} (hbs : SpelledUnion N bs) :
    Common N made (fun made found => List.Forall₂ (BranchResult.Matches .none made) found found)
      (List.Forall₂ (BranchResult.Stands (.all N))) (inferUnion setting outer bs)
      (inferUnion setting outer' bs) :=
  ⟨.of_parallel (R := fun made => List.Forall₂ (BranchResult.Matches .none made)) fun _ =>
    .union setting bs (Parallel.reads_all _) (.beside ho.issued), .union setting bs hbs ho.stands⟩

theorem fromClause {b : Branch} (hb : b.Spelled N) :
    Common N made (fun made joined => joined.Matches .none made joined) (Sources.Stands (.all N))
      (inferFrom setting outer b) (inferFrom setting outer' b) := by
  refine ⟨?_, .fromClause setting hb ho.stands⟩
  refine .of_parallel fun _ => Parallel.bind (.sourceList setting b.sources (Parallel.reads_all _)
    (.empty made)) fun made₁ hgrows listed listed' hlisted => ?_
  have hlevels : LevelsMatch .none made outer outer := .beside ho.issued
  exact .joinList setting b.joins (Parallel.reads_all _) (hlevels.mono hgrows) hlisted _

theorem projected {b : Branch} (hb : b.Spelled N) :
    Common N made FrontMade (FrontStands (.all N)) (inferProjected setting outer b)
      (inferProjected setting outer' b) := by
  refine ⟨?_, .projected setting hb ho.stands⟩
  refine (fromClause ho hb).soundly.aside fun made₁ hgrows joined hjoined => ?_
  have hscope : Scope.Matches .none made₁ ⟨joined.columns, outer⟩ ⟨joined.columns, outer⟩ :=
    .beside hjoined.issued (ho.mono hgrows).issued
  refine (Soundly.of_parallel (R := fun made => List.Forall₂ (OutputColumn.Matches .none made))
    fun _ => .items setting b.items (Parallel.reads_all _) hscope).bind
      fun made₂ hgrows₂ columns hcolumns => .pure ⟨hjoined.mono hgrows₂, hcolumns⟩

theorem joins {done done' : Sources} (hmade : done.Matches .none made done)
    (hdone : done.Stands (.all N) done') (previous : String) {js : List Join}
    (hjs : SpelledJoins N js) :
    Common N made (fun made joined => joined.Matches .none made joined) (Sources.Stands (.all N))
      (inferJoins setting outer done previous js) (inferJoins setting outer' done' previous js) :=
  ⟨.of_parallel fun _ => .joinList setting js (Parallel.reads_all _) (.beside ho.issued) hmade previous,
    .joinList setting js hjs ho.stands hdone previous previous⟩

end

theorem sources {xs : List Source} (hxs : SpelledSources N xs) :
    Common N made (fun made listed => listed.Matches .none made listed) (Sources.Stands (.all N))
      (inferSources setting .empty xs) (inferSources setting .empty xs) :=
  ⟨.of_parallel fun _ => .sourceList setting xs (Parallel.reads_all _) (.empty made),
    .sourceList setting xs hxs .nil⟩

theorem source {x : Source} (hx : x.Spelled N) :
    Common N made Level.Issued (Level.Stands (.all N)) (inferSource setting x)
      (inferSource setting x) :=
  ⟨(Soundly.of_parallel (R := fun made l l' => Level.Issued made l ∧ l' = Renaming.none.level l)
    fun _ => .source setting x (Parallel.reads_all _)).mono fun _ _ hl => hl.1, .source setting x hx⟩

end Common

end QuerySignature
