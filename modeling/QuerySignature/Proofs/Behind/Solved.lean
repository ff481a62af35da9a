import QuerySignature.Proofs.Abreast.Solved
import QuerySignature.Proofs.Behind.Steps
import QuerySignature.Proofs.Solver.Interleaving

namespace QuerySignature

/-! # Solving what stands behind a run

The constraints that a walk adds behind a run speak of its own variables only. So they are solved as if
the run were not there, and the constraints of the run as if nothing followed.

A statement analyses its criteria behind whatever it reads and writes before them. Where that has no
placeholders of its own and can be solved, the criteria are told from it by nothing but the numbers
of their variables, so that their placeholders are reported as if the criteria were all there is.

- `Run.Ahead.solve_isOk_iff`: a run and what stands behind it can be solved when both can be solved
  alone.
- `Run.Ahead.infoOf_lead`, `Run.Ahead.infoOf_behind`: then every variable has the type that it has alone.
- `Run.Ahead.solve_alike`: behind a run that can be solved, constraints clash as they clash alone.
- `Behind.exists_leg`, `Behind.take_leg`: so a walk that can be solved is made of legs that can be, and the
  other way round.
- `OutputColumn.Behind.result`: an output column is described behind a run as it is alone.
- `Run.Ahead.parameters`: placeholders behind a run without any are reported as they are alone.
- `Run.Ready.criteria`: so are those of criteria, and criteria are refused for the same reasons.
-/

/-! ## Equations -/

theorem TypeVar.Behind.id {n : Nat} {v v' : TypeVar} (h : v.Behind n v') : v'.id = v.id + n := by
  rw [h.eq]
  rfl

theorem separates_add (n : Nat) : Separates (· + n) := fun _ _ _ _ => Nat.add_right_cancel

/-! ## Solving -/

section Steps

variable {n : Nat} {first steps steps' : List Equation}

theorem occurrences_le (hfirst : ∀ step ∈ first, step.Within (· ≤ n)) :
    ∀ v ∈ occurrences first, v.id ≤ n := by
  intro v hv
  rcases mem_occurrences hv with ⟨step, hstep, rfl | rfl⟩
  · exact (hfirst step hstep).1
  · exact (hfirst step hstep).2

theorem lt_occurrences (hsteps : List.Forall₂ (Equation.Paired (· + n)) steps steps') :
    ∀ v ∈ occurrences steps', n < v.id := by
  intro v hv
  rcases mem_occurrences hv with ⟨step, hstep, hv⟩
  rcases exists_partner hsteps hstep with ⟨_, _, hpair⟩
  rcases hv with rfl | rfl
  · exact hpair.beyond.1
  · exact hpair.beyond.2

/-- Equations behind other variables, solved together with equations between these: both are solved as
they are alone. -/
theorem run_behind (profile : Profile) (initial : Nat → TypeInfo)
    (hfirst : ∀ step ∈ first, step.Within (· ≤ n))
    (hsteps : List.Forall₂ (Equation.Paired (· + n)) steps steps') :
    Together (fun t t₁ t₂ : Classes =>
        (∀ x, x ≤ n → t.infoOf x = t₁.infoOf x) ∧ ∀ x, 0 < x → t.infoOf (x + n) = t₂.infoOf x)
      ((Classes.start initial).run profile (first ++ steps'))
      ((Classes.start initial).run profile first)
      ((Classes.start fun id => initial (id + n)).run profile steps) := by
  have hsecond : ∀ step ∈ steps', step.Within (n < ·) := by
    intro step hstep
    rcases exists_partner hsteps hstep with ⟨_, _, hpair⟩
    exact hpair.beyond
  have hdivided := (Divided.start (A := (· ≤ n)) (B := (n < ·)) initial fun x => Nat.not_lt.2).run
    profile (.append first steps') hfirst hsecond
  have halike := run_paired (separates_add n) profile initial hsteps
  refine ⟨?_, fun t t₁ t₂ ht ht₁ ht₂ => ?_⟩
  · rw [hdivided.1, halike.isOk_eq]
  · rcases halike.of_ok ht₂ with ⟨t', ht', hagree⟩
    have hparts := hdivided.2 t t₁ t' ht ht₁ ht'
    refine ⟨fun x hx => hparts.left.info x hx, fun x hx => ?_⟩
    calc
      t.infoOf (x + n) = t'.infoOf (x + n) := hparts.right.info _ (by omega)
      _ = t₂.infoOf x := (hagree.info x hx).symm

/-- What first occurrences carry in all equations, they carry in the two parts. -/
theorem firstsCarry_behind {initial : Nat → TypeInfo}
    (hfirst : ∀ step ∈ first, step.Within (· ≤ n))
    (hsteps : List.Forall₂ (Equation.Paired (· + n)) steps steps')
    (h : FirstsCarry initial (occurrences (first ++ steps'))) :
    FirstsCarry initial (occurrences first) ∧
      FirstsCarry (fun id => initial (id + n)) (occurrences steps) := by
  have hmixed := (Interleaved.append first steps').occurrences
  have hapart : ∀ v ∈ occurrences first, ∀ w ∈ occurrences steps', v.id ≠ w.id := by
    intro v hv w hw
    have hle := occurrences_le hfirst v hv
    have hlt := lt_occurrences hsteps w hw
    omega
  have hsecond : FirstsCarry initial (occurrences steps') :=
    h.of_interleaved hmixed.symm fun v hv w hw => (hapart w hw v hv).symm
  exact ⟨h.of_interleaved hmixed hapart,
    hsecond.of_paired (separates_add n) (occurrences_paired hsteps)⟩

end Steps

namespace Run.Ahead

variable {lead r r' : Run} {profile : Profile} {whole first second : Solution}

theorem exists_steps (h : lead.Ahead r r') :
    ∃ steps', equationsOf r'.constraints = equationsOf lead.constraints ++ steps' ∧
      List.Forall₂ (Equation.Paired (· + lead.issued)) (equationsOf r.constraints) steps' := by
  rcases h.constraints with ⟨added, hadded, hbehind⟩
  refine ⟨equationsOf added, ?_, equationsOf_paired ?_⟩
  · rw [hadded, equationsOf_append]
  · exact hbehind.imp fun _ _ => Constraint.behind_iff_paired.1

/-- A variable that occurs in the whole occurs in the run, or behind it. -/
theorem mem_occurrences (h : lead.Ahead r r') {w : TypeVar}
    (hw : w ∈ occurrences (equationsOf r'.constraints)) :
    w ∈ occurrences (equationsOf lead.constraints) ∨
      ∃ u ∈ occurrences (equationsOf r.constraints), u.Behind lead.issued w := by
  rcases h.exists_steps with ⟨steps', hwhole, hsteps⟩
  rw [hwhole] at hw
  refine ((Interleaved.append _ steps').occurrences.mem_iff.1 hw).imp id fun hw => ?_
  rcases exists_partner (occurrences_paired hsteps) hw with ⟨u, hu, hpair⟩
  exact ⟨u, hu, TypeVar.behind_iff_paired.2 hpair⟩

/-- The types with which the whole meets its variables are those with which its parts do. -/
theorem firstsCarry (h : lead.Ahead r r') (hlead : lead.Closed) (other : TypeInfo) :
    let initial := firstType (occurrences (equationsOf r'.constraints)) other
    FirstsCarry initial (occurrences (equationsOf r'.constraints)) ∧
      FirstsCarry initial (occurrences (equationsOf lead.constraints)) ∧
      FirstsCarry (fun id => initial (id + lead.issued))
        (occurrences (equationsOf r.constraints)) := by
  intro initial
  have hfirsts : FirstsCarry initial (occurrences (equationsOf r'.constraints)) :=
    firstsCarry_firstType _ other
  rcases h.exists_steps with ⟨steps', hwhole, hsteps⟩
  refine ⟨hfirsts, firstsCarry_behind hlead hsteps ?_⟩
  rw [← hwhole]
  exact hfirsts

theorem run (h : lead.Ahead r r') (hlead : lead.Closed) (profile : Profile)
    (initial : Nat → TypeInfo) :
    Together (fun t t₁ t₂ : Classes => (∀ x, x ≤ lead.issued → t.infoOf x = t₁.infoOf x) ∧
        ∀ x, 0 < x → t.infoOf (x + lead.issued) = t₂.infoOf x)
      ((Classes.start initial).run profile (equationsOf r'.constraints))
      ((Classes.start initial).run profile (equationsOf lead.constraints))
      ((Classes.start fun id => initial (id + lead.issued)).run profile
        (equationsOf r.constraints)) := by
  rcases h.exists_steps with ⟨steps', hwhole, hsteps⟩
  rw [hwhole]
  exact run_behind profile initial hlead hsteps

theorem solve_isOk_iff (h : lead.Ahead r r') (hlead : lead.Closed) (profile : Profile) :
    (solve profile r'.constraints).isOk = true ↔
      (solve profile lead.constraints).isOk = true ∧ (solve profile r.constraints).isOk = true := by
  rcases h.firstsCarry hlead .unknown with ⟨hall, hfirst, hsecond⟩
  rw [(solve_alike_firsts profile hall).isOk_eq, (solve_alike_firsts profile hfirst).isOk_eq,
    (solve_alike_firsts profile hsecond).isOk_eq]
  exact (h.run hlead profile _).1

/-- A variable of the run has the type that it has in the run alone. -/
theorem infoOf_lead (h : lead.Ahead r r') (hlead : lead.Closed)
    (hw : solve profile r'.constraints = .ok whole)
    (h₁ : solve profile lead.constraints = .ok first) {v : TypeVar} (hv : v.id ≤ lead.issued) :
    whole.infoOf v = first.infoOf v := by
  rcases h.firstsCarry hlead v.info with ⟨hall, hfirst, hsecond⟩
  rcases (solve_alike_firsts profile hall).of_ok hw with ⟨t, ht, hinfo⟩
  rcases (solve_alike_firsts profile hfirst).of_ok h₁ with ⟨t₁, ht₁, hinfo₁⟩
  have hok := (h.run hlead profile _).1.1 (by rw [ht]; rfl)
  rcases exists_of_isOk hok.2 with ⟨t₂, ht₂⟩
  -- a variable that the run does not speak of is not spoken of behind it, either
  have hunmet : (¬ ∃ w ∈ occurrences (equationsOf lead.constraints), w.id = v.id) →
      v.Carries (firstType (occurrences (equationsOf r'.constraints)) v.info) := by
    refine fun hnot => carries_firstType ?_
    rintro ⟨w, hw, heq⟩
    rcases h.mem_occurrences hw with hw | ⟨u, -, hu⟩
    · exact hnot ⟨w, hw, heq⟩
    · have hmade := hu.made
      rw [hu.id] at heq
      omega
  calc
    whole.infoOf v = t.infoOf v.id := hinfo v carries_firstType
    _ = t₁.infoOf v.id := ((h.run hlead profile _).2 t t₁ t₂ ht ht₁ ht₂).1 v.id hv
    _ = first.infoOf v := (hinfo₁ v hunmet).symm

/-- A variable behind the run has the type that it has when the run is not there. -/
theorem infoOf_behind (h : lead.Ahead r r') (hlead : lead.Closed)
    (hw : solve profile r'.constraints = .ok whole)
    (h₂ : solve profile r.constraints = .ok second) {v v' : TypeVar}
    (hv : v.Behind lead.issued v') : whole.infoOf v' = second.infoOf v := by
  rcases h.firstsCarry hlead v'.info with ⟨hall, hfirst, hsecond⟩
  rcases (solve_alike_firsts profile hall).of_ok hw with ⟨t, ht, hinfo⟩
  rcases (solve_alike_firsts profile hsecond).of_ok h₂ with ⟨t₂, ht₂, hinfo₂⟩
  have hok := (h.run hlead profile _).1.1 (by rw [ht]; rfl)
  rcases exists_of_isOk hok.1 with ⟨t₁, ht₁⟩
  -- a variable that no equation of the second run speaks of is in none of the two together
  have hunmet : (¬ ∃ w ∈ occurrences (equationsOf r.constraints), w.id = v.id) →
      v'.Carries (firstType (occurrences (equationsOf r'.constraints)) v'.info) := by
    refine fun hnot => carries_firstType ?_
    rintro ⟨w, hw, heq⟩
    have hmade := hv.made
    rw [hv.id] at heq
    rcases h.mem_occurrences hw with hw | ⟨u, hu, hbehind⟩
    · have hle := occurrences_le hlead w hw
      omega
    · refine hnot ⟨u, hu, ?_⟩
      rw [hbehind.id] at heq
      omega
  calc
    whole.infoOf v' = t.infoOf v'.id := hinfo v' carries_firstType
    _ = t.infoOf (v.id + lead.issued) := by rw [hv.id]
    _ = t₂.infoOf v.id := ((h.run hlead profile _).2 t t₁ t₂ ht ht₁ ht₂).2 v.id hv.made
    _ = second.infoOf v := (hinfo₂ v fun hnot =>
        (TypeVar.behind_iff_paired.1 hv).carries (hunmet hnot)).symm

/-- Behind a run that can be solved, equations fail as they do alone. -/
theorem run_alike (h : lead.Ahead r r') (hlead : lead.Closed) {profile : Profile}
    {initial : Nat → TypeInfo} {t₁ : Classes}
    (ht₁ : (Classes.start initial).run profile (equationsOf lead.constraints) = .ok t₁) :
    Alike (Agree (· + lead.issued) (0 < ·))
      ((Classes.start fun id => initial (id + lead.issued)).run profile (equationsOf r.constraints))
      ((Classes.start initial).run profile (equationsOf r'.constraints)) := by
  rcases h.exists_steps with ⟨steps', hwhole, hsteps⟩
  have hfresh := (Classes.Fresh.start lead.issued initial).run hlead ht₁
  have hbeyond : ∀ x, 0 < x → lead.issued < x + lead.issued := fun x hx => by omega
  -- solving the run has left every variable behind it alone
  have hagree : Agree (· + lead.issued) (0 < ·)
      (Classes.start fun id => initial (id + lead.issued)) t₁ := by
    refine ⟨fun x y hx hy => ?_, fun x hx => (hfresh.infoOf (hbeyond x hx)).symm⟩
    rw [(hfresh.alone _ (hbeyond x hx)).1, (hfresh.alone _ (hbeyond y hy)).1]
    exact Nat.add_right_cancel_iff.symm
  rw [hwhole, Classes.run_append, ht₁]
  refine hagree.run profile (hsteps.imp fun _ _ hstep => hstep.renumbered) fun step hstep => ?_
  rcases exists_partner hsteps.flip hstep with ⟨_, -, hpair⟩
  exact hpair.made

/-- Behind a run that can be solved, constraints clash where they clash alone, and else every variable
has the type that it has alone. -/
theorem solve_alike (h : lead.Ahead r r') (hlead : lead.Closed)
    (hok : (solve profile lead.constraints).isOk = true) :
    Alike (fun second whole => ∀ v v', v.Behind lead.issued v' → whole.infoOf v' = second.infoOf v)
      (solve profile r.constraints) (solve profile r'.constraints) := by
  cases hw : solve profile r'.constraints with
  | ok whole =>
    rcases exists_of_isOk ((h.solve_isOk_iff hlead profile).1 (by rw [hw]; rfl)).2 with ⟨second, h₂⟩
    rw [h₂]
    exact fun v v' hv => h.infoOf_behind hlead hw h₂ hv
  | error clash =>
    rcases h.firstsCarry hlead .unknown with ⟨hall, hfirst, hsecond⟩
    rcases exists_of_isOk hok with ⟨first, h₁⟩
    rcases (solve_alike_firsts profile hfirst).of_ok h₁ with ⟨t₁, ht₁, -⟩
    have hwhole := (solve_alike_firsts profile hall).of_error hw
    have hown := (h.run_alike hlead ht₁).to_error hwhole
    rw [(solve_alike_firsts profile hsecond).to_error hown]
    exact rfl

end Run.Ahead

/-! ## Legs -/

/-- A leg of a walk: a run that can be solved alone, taken behind a run that can be solved. The whole
knows of the variables of each what each knows of them. -/
structure Leg (profile : Profile) (lead own run : Run) (first second whole : Solution) : Prop where
  runs : lead.Ahead own run
  firstSolved : solve profile lead.constraints = .ok first
  ownSolved : solve profile own.constraints = .ok second
  wholeSolved : solve profile run.constraints = .ok whole
  infoOf_lead : ∀ v : TypeVar, v.id ≤ lead.issued → whole.infoOf v = first.infoOf v
  infoOf_own : ∀ v v', v.Behind lead.issued v' → whole.infoOf v' = second.infoOf v

theorem Run.Ahead.leg {lead own run : Run} (h : lead.Ahead own run) (hlead : lead.Closed)
    {profile : Profile} {first second whole : Solution}
    (hw : solve profile run.constraints = .ok whole)
    (h₁ : solve profile lead.constraints = .ok first)
    (h₂ : solve profile own.constraints = .ok second) :
    Leg profile lead own run first second whole :=
  ⟨h, h₁, h₂, hw, fun _ hv => h.infoOf_lead hlead hw h₁ hv,
    fun _ _ hv => h.infoOf_behind hlead hw h₂ hv⟩

section Legs

variable {α β : Type} {lead : Run} {R : α → β → Prop} {step : Analyze α} {step' : Analyze β}
  {profile : Profile}

/-- A step behind a run that ends in a run that can be solved is a leg. -/
theorem Behind.exists_leg (h : Behind lead R step step') (hlead : lead.Closed)
    (hctes : lead.ctes = []) {b : β} {run : Run} {whole : Solution}
    (hstep : step'.outcome lead = .ok (b, run)) (hw : solve profile run.constraints = .ok whole) :
    ∃ a own first second, step.outcome .start = .ok (a, own) ∧ R a b ∧
      Leg profile lead own run first second whole := by
  rcases (h .start lead (.start hctes)).to_ok hstep with ⟨⟨a, own⟩, hown, hpassed⟩
  have hok := (hpassed.runs.solve_isOk_iff hlead profile).1 (by rw [hw]; rfl)
  rcases exists_of_isOk hok.1 with ⟨first, hfirst⟩
  rcases exists_of_isOk hok.2 with ⟨second, hsecond⟩
  exact ⟨a, own, first, second, hown, hpassed.values, hpassed.runs.leg hlead hw hfirst hsecond⟩

/-- A step that ends alone in a run that can be solved can be taken behind any run that can. -/
theorem Behind.take_leg (h : Behind lead R step step') (hlead : lead.Closed)
    (hctes : lead.ctes = []) {a : α} {own : Run} {first second : Solution}
    (hfirst : solve profile lead.constraints = .ok first)
    (hstep : step.outcome .start = .ok (a, own))
    (hsecond : solve profile own.constraints = .ok second) :
    ∃ b run whole, step'.outcome lead = .ok (b, run) ∧ R a b ∧
      Leg profile lead own run first second whole := by
  rcases (h .start lead (.start hctes)).of_ok hstep with ⟨⟨b, run⟩, hrun, hpassed⟩
  have hok := (hpassed.runs.solve_isOk_iff hlead profile).2
    ⟨by rw [hfirst]; rfl, by rw [hsecond]; rfl⟩
  rcases exists_of_isOk hok with ⟨whole, hw⟩
  exact ⟨b, run, whole, hrun, hpassed.values, hpassed.runs.leg hlead hw hfirst hsecond⟩

end Legs

/-! ## Descriptions -/

/-- An output column is described behind a run as it is alone, when the same is known of its
variables. -/
theorem OutputColumn.Behind.result {lead : Run} {c c' : OutputColumn} (h : c.Behind lead c')
    {whole own : Solution} (hinfo : ∀ v v', v.Behind lead.issued v' → whole.infoOf v' = own.infoOf v)
    (profile : Profile) : c'.result whole profile = c.result own profile :=
  (OutputColumn.behind_iff_abreast.1 h).result fun v v' hv =>
    hinfo v v' (TypeVar.behind_iff_paired.2 hv)

/-! ## Placeholders of criteria -/

/-- What is reported of the placeholders of a run. -/
def Run.reported (run : Run) (solution : Solution) (profile : Profile) : List ResultParameter :=
  run.placeholders.zipIdx.map fun (p, index) => p.result index solution profile

/-- What is reported of the placeholders of a run, unless its constraints clash. -/
def Run.parameters (run : Run) (profile : Profile) :
    Except AnalysisError (List ResultParameter) :=
  ((solve profile run.constraints).mapError AnalysisError.clash).map fun solution =>
    run.reported solution profile

/-- What is reported of the placeholders of criteria when nothing else is analysed. -/
def criteriaParameters (setting : Setting) (scope : Scope) (criteria : Option Expr) :
    Except AnalysisError (List ResultParameter) :=
  ((inferSome setting scope criteria).outcome .start).bind fun found =>
    found.2.parameters setting.profile

/-- A run that takes no part in what is reported of the placeholders behind it. -/
structure Run.Ready (profile : Profile) (lead : Run) : Prop where
  closed : lead.Closed
  solvable : (solve profile lead.constraints).isOk = true
  ctes : lead.ctes = []
  placeholders : lead.placeholders = []

/-- A run that has made nothing but variables. -/
theorem Run.Ready.of_issued (profile : Profile) (n : Nat) :
    Run.Ready profile { Run.start with issued := n } :=
  ⟨fun _ hstep => absurd hstep List.not_mem_nil, rfl, rfl, rfl⟩

variable {profile : Profile} {lead : Run}

/-- A placeholder is reported as it is alone, when the same is known of its variable. -/
theorem Placeholder.result_moved {n : Nat} {p : Placeholder} (hp : 0 < p.var.id)
    {own whole : Solution} (hinfo : ∀ v v', v.Behind n v' → whole.infoOf v' = own.infoOf v)
    (index : Nat) (profile : Profile) :
    (p.moved n).result index whole profile = p.result index own profile := by
  have htype : whole.typeOf profile (p.var.moved n) = own.typeOf profile p.var :=
    typeOf_eq (hinfo p.var _ ⟨hp, rfl⟩)
  unfold Placeholder.result Placeholder.moved
  rw [htype]
  rfl

theorem Run.Ahead.reported {own run : Run} (h : lead.Ahead own run) (hlead : lead.placeholders = [])
    {second whole : Solution}
    (hinfo : ∀ v v', v.Behind lead.issued v' → whole.infoOf v' = second.infoOf v)
    (profile : Profile) : run.reported whole profile = own.reported second profile := by
  unfold Run.reported
  rw [h.placeholders, hlead, List.nil_append, List.zipIdx_map, List.map_map]
  refine List.map_congr_left fun entry hentry => ?_
  have hmade := (h.numbered entry.1 (List.fst_mem_of_mem_zipIdx hentry)).1
  exact Placeholder.result_moved hmade hinfo entry.2 profile

theorem Run.Ahead.parameters {own run : Run} (h : lead.Ahead own run) (hlead : lead.Ready profile) :
    run.parameters profile = own.parameters profile := by
  have hsolved := h.solve_alike hlead.closed hlead.solvable
  unfold Run.parameters
  cases hown : solve profile own.constraints with
  | error clash =>
    rw [hsolved.of_error hown]
    rfl
  | ok second =>
    obtain ⟨whole, hwhole, hinfo⟩ := hsolved.of_ok hown
    rw [hwhole]
    exact congrArg Except.ok (h.reported hlead.placeholders hinfo profile)

/-- Criteria behind a run are refused for the reasons for which they are refused alone, or else their
placeholders are reported alike. -/
theorem Run.Ready.criteria {setting : Setting} (h : lead.Ready setting.profile) {scope : Scope}
    (hscope : scope.Behind lead.issued scope) (criteria : Option Expr) :
    (((inferSome setting scope criteria).outcome lead).bind fun found =>
      found.2.parameters setting.profile) = criteriaParameters setting scope criteria := by
  have halike := Behind.some setting criteria hscope .start lead (.start h.ctes)
  unfold criteriaParameters
  cases halone : (inferSome setting scope criteria).outcome .start with
  | error e => rw [halike.of_error halone]
  | ok found =>
    -- behind the run, the criteria leave what they leave alone, under other numbers
    obtain ⟨behind, hbehind, hpassed⟩ := halike.of_ok halone
    rw [hbehind, ok_bind, ok_bind]
    exact hpassed.runs.parameters h

end QuerySignature
