import QuerySignature.Proofs.Mirrored.Traded
import QuerySignature.Proofs.Walk.Writes

namespace QuerySignature

/-! # Past a comparison and its mirror

Two walks over texts that differ in the sides of one comparison go alike up to it, though the labels of
constraints may differ. They cross at the comparison: one analyses the operands in one order, the other in
the other order. From there on they go on alike again, and never speak of the variables of the operands.

- `Before`: two runs before the comparison.
- `Before.step`: steps that both walks take before it.
- `Passing.Crossed`: two runs behind it.
- `Passing.Crossed.onward`: what both walks add behind it.
-/

/-- An outlook from which every variable may be spoken of. -/
def Outlook.all (N : Naming) : Outlook := ⟨fun _ => True, N⟩

/-- What may be spoken of behind a comparison: all but the variables of its operands. -/
def Passing.outlook {setting : Setting} (p : Passing setting) (N : Naming) : Outlook :=
  ⟨fun id => id ≤ p.before.issued ∨ p.behind.issued < id, N⟩

/-! ## Before the comparison -/

/-- Runs that two walks have come to before the comparison. -/
structure Before (N : Naming) (made : List TypeInfo) (r r' : Run) : Prop where
  sound : r.Sound made
  onward : Run.Onward (.all N) .start .start r r'

/-- A step that both walks take before the comparison: it leads from sound runs to sound runs and goes
on alike. -/
structure Common {α β : Type} (N : Naming) (made : List TypeInfo) (P : List TypeInfo → α → Prop)
    (R : α → β → Prop) (step : Analyze α) (step' : Analyze β) : Prop where
  soundly : Soundly made P step
  onward : Onward (.all N) R step step'

/-- Levels of variables that have been made, with the same columns in two walks. -/
structure SharedLevels (N : Naming) (made : List TypeInfo) (levels levels' : List Level) : Prop where
  issued : ∀ l ∈ levels, Level.Issued made l
  stands : List.Forall₂ (Level.Stands (.all N)) levels levels'

section Narrow

variable {setting : Setting} {p : Passing setting} {N : Naming} {made : List TypeInfo}
  (hmade : made.length ≤ p.before.issued)

include hmade

theorem TypeVar.Stands.narrow {v v' : TypeVar} (h : v.Stands (.all N) v') (hv : v.Issued made) :
    v.Stands (p.outlook N) v' :=
  ⟨.inl (Nat.le_trans hv.le hmade), h.relabelled⟩

theorem narrow_vars {vs vs' : List TypeVar} (h : List.Forall₂ (TypeVar.Stands (.all N)) vs vs')
    (hvs : ∀ v ∈ vs, v.Issued made) : List.Forall₂ (TypeVar.Stands (p.outlook N)) vs vs' :=
  ((List.forall₂_and_left _ _).2 ⟨hvs, h⟩).imp fun _ _ hv => hv.2.narrow hmade hv.1

theorem SourceColumn.Stands.narrow {c c' : SourceColumn} (h : c.Stands (.all N) c')
    (hc : c.var.Issued made) : c.Stands (p.outlook N) c' :=
  ⟨h.var.narrow hmade hc, h.name, h.eq⟩

theorem Level.Stands.narrow {l l' : Level} (h : l.Stands (.all N) l') (hl : l.Issued made) :
    l.Stands (p.outlook N) l' :=
  ((List.forall₂_and_left _ _).2 ⟨hl, h⟩).imp fun _ _ hc => hc.2.narrow hmade hc.1

theorem SharedLevels.narrow {levels levels' : List Level} (h : SharedLevels N made levels levels') :
    List.Forall₂ (Level.Stands (p.outlook N)) levels levels' :=
  ((List.forall₂_and_left _ _).2 ⟨h.issued, h.stands⟩).imp fun _ _ hl => hl.2.narrow hmade hl.1

theorem Inferred.Compared.narrow {e e' : Inferred} (h : e.Stands (.all N) e')
    (he : e.Matches .none made e) : e.Stands (p.outlook N) e' where
  var := h.var.narrow hmade he.var.issued
  notNull := h.notNull
  placeholder := h.placeholder
  source := by
    have hsource := h.source
    have hissued := he.sourceIssued
    generalize e.source = source, e'.source = source' at hsource hissued
    cases hsource with
    | none => exact .none
    | some hc => exact .some (hc.narrow hmade (hissued _ rfl))
  aggregate := h.aggregate

theorem narrow_inferred {es es' : List Inferred} (h : List.Forall₂ (Inferred.Stands (.all N)) es es')
    (hes : List.Forall₂ (Inferred.Matches .none made) es es) :
    List.Forall₂ (Inferred.Stands (p.outlook N)) es es' :=
  ((List.forall₂_and_left _ _).2 ⟨List.forall₂_same.1 hes, h⟩).imp fun _ _ he => he.2.narrow hmade he.1

theorem narrow_option {o o' : Option Inferred} (h : Option.Rel (Inferred.Stands (.all N)) o o')
    (ho : Option.Rel (Inferred.Matches .none made) o o) :
    Option.Rel (Inferred.Stands (p.outlook N)) o o' := by
  cases h with
  | none => exact .none
  | some he =>
    cases ho with
    | some hmatches => exact .some (he.narrow hmade hmatches)

theorem OutputColumn.Compared.narrow {c c' : OutputColumn} (h : c.Stands (.all N) c')
    (hc : c.Matches .none made c) : c.Stands (p.outlook N) c' where
  name := h.name
  var := h.var.narrow hmade hc.var.issued
  unionVars := narrow_vars hmade h.unionVars fun v hv =>
    (List.forall₂_same.1 hc.unionVars v hv).issued
  notNull := h.notNull
  table := h.table
  source := by
    have hsource := h.source
    have hissued := hc.sourceIssued
    generalize c.source = source, c'.source = source' at hsource hissued
    cases hsource with
    | none => exact .none
    | some hd => exact .some (hd.narrow hmade (hissued _ rfl))
  placeholder := h.placeholder
  aggregate := h.aggregate

theorem narrow_columns {cs cs' : List OutputColumn}
    (h : List.Forall₂ (OutputColumn.Stands (.all N)) cs cs')
    (hcs : List.Forall₂ (OutputColumn.Matches .none made) cs cs) :
    List.Forall₂ (OutputColumn.Stands (p.outlook N)) cs cs' :=
  ((List.forall₂_and_left _ _).2 ⟨List.forall₂_same.1 hcs, h⟩).imp fun _ _ hc => hc.2.narrow hmade hc.1

theorem BranchResult.Stands.narrow {b b' : BranchResult} (h : b.Stands (.all N) b')
    (hb : b.Matches .none made b) : b.Stands (p.outlook N) b' :=
  ⟨narrow_columns hmade h.columns hb.columns, h.visible.narrow hmade hb.issued⟩

theorem narrow_branches {bs bs' : List BranchResult}
    (h : List.Forall₂ (BranchResult.Stands (.all N)) bs bs')
    (hbs : List.Forall₂ (BranchResult.Matches .none made) bs bs) :
    List.Forall₂ (BranchResult.Stands (p.outlook N)) bs bs' :=
  ((List.forall₂_and_left _ _).2 ⟨List.forall₂_same.1 hbs, h⟩).imp fun _ _ hb => hb.2.narrow hmade hb.1

theorem Run.Sound.narrow_ctes {r : Run} (h : r.Sound made) {ctes' : List (String × Level)}
    (hctes : List.Forall₂ (fun cte cte' => cte'.1 = cte.1 ∧ Level.Stands (.all N) cte.2 cte'.2) r.ctes
      ctes') :
    List.Forall₂ (fun cte cte' => cte'.1 = cte.1 ∧ Level.Stands (p.outlook N) cte.2 cte'.2) r.ctes
      ctes' :=
  ((List.forall₂_and_left _ _).2 ⟨h.ctes, hctes⟩).imp fun _ _ hcte =>
    ⟨hcte.2.1, hcte.2.2.narrow hmade hcte.1⟩

end Narrow

theorem SourceColumn.Stands.refl (N : Naming) (c : SourceColumn) : c.Stands (.all N) c :=
  ⟨⟨trivial, ⟨rfl, rfl, rfl, rfl⟩⟩, Naming.Blurs.refl N c.name, rfl⟩

theorem Level.Stands.refl (N : Naming) (l : Level) : l.Stands (.all N) l :=
  List.forall₂_same.2 fun c _ => .refl N c

namespace SharedLevels

variable {N : Naming} {made made' : List TypeInfo} {scope scope' : Scope} {l l' : Level}
  {levels levels' : List Level}

theorem mono (h : SharedLevels N made levels levels') (hgrows : made <+: made') :
    SharedLevels N made' levels levels' :=
  ⟨fun l hl => (h.issued l hl).mono hgrows, h.stands⟩

theorem nil (N : Naming) (made : List TypeInfo) : SharedLevels N made [] [] :=
  ⟨nothing_outer, .nil⟩

theorem cons (hissued : l.Issued made) (hstands : l.Stands (.all N) l')
    (h : SharedLevels N made levels levels') : SharedLevels N made (l :: levels) (l' :: levels') :=
  ⟨List.forall_mem_cons.2 ⟨hissued, h.issued⟩, .cons hstands h.stands⟩

theorem beside (h : SharedLevels N made scope.levels scope'.levels) :
    scope.Matches .none made scope :=
  .beside (List.forall_mem_cons.1 h.issued).1 (List.forall_mem_cons.1 h.issued).2

theorem related (h : SharedLevels N made scope.levels scope'.levels) :
    Scope.Stands (.all N) scope scope' :=
  ⟨(List.forall₂_cons.1 h.stands).1, (List.forall₂_cons.1 h.stands).2⟩

/-- What the walks see before the comparison, they see behind it. -/
theorem narrowScope {setting : Setting} {p : Passing setting}
    (h : SharedLevels N made scope.levels scope'.levels) (hmade : made.length ≤ p.before.issued) :
    Scope.Stands (p.outlook N) scope scope' :=
  ⟨(List.forall₂_cons.1 (h.narrow hmade)).1, (List.forall₂_cons.1 (h.narrow hmade)).2⟩

end SharedLevels

theorem Run.Sound.issuedVars {made : List TypeInfo} {r : Run} (h : r.Sound made) :
    ∀ v ∈ r.vars, v.Issued made := by
  intro v hv
  obtain ⟨placeholder, hplaceholder, rfl⟩ := List.mem_map.1 hv
  exact h.placeholders placeholder hplaceholder

namespace Before

variable {N : Naming} {made : List TypeInfo} {r r' s : Run}

/-- Walks over one text from one run. -/
theorem same (h : r.Sound made) : Before N made r r := by
  refine ⟨h, ⟨⟨rfl, fun _ _ => trivial, rfl, ?_⟩, ⟨r.constraints, r.constraints, rfl, rfl, ?_⟩,
    ⟨r.vars, r.vars, rfl, rfl, ?_⟩⟩⟩
  · exact List.forall₂_same.2 fun cte _ => ⟨rfl, .refl N cte.2⟩
  · refine List.forall₂_same.2 fun c _ => ⟨trivial, rfl, rfl, ?_⟩
    exact List.forall₂_same.2 fun _ _ => ⟨⟨trivial, ⟨rfl, rfl, rfl, rfl⟩⟩, trivial, ⟨rfl, rfl, rfl, rfl⟩⟩
  · exact List.forall₂_same.2 fun _ _ => ⟨trivial, ⟨rfl, rfl, rfl, rfl⟩⟩

/-- A step that both walks take before the comparison. -/
theorem step {α β : Type} {P : List TypeInfo → α → Prop} {R : α → β → Prop} {step : Analyze α}
    {step' : Analyze β} (h : Before N made r r') (hstep : Common N made P R step step') {a : α}
    (hrun : step.outcome r = .ok (a, s)) :
    ∃ made₁ b s', made <+: made₁ ∧ step'.outcome r' = .ok (b, s') ∧ Before N made₁ s s' ∧
      P made₁ a ∧ R a b ∧ r.issued ≤ s.issued ∧ r.vars <+: s.vars := by
  obtain ⟨made₁, hgrows, hs, ha⟩ := hstep.soundly r a s h.sound hrun
  obtain ⟨b, s', hrun', hab, hadded⟩ := hstep.onward r r' h.onward.runs a s hrun
  refine ⟨made₁, b, s', hgrows, hrun', ⟨hs, h.onward.trans hadded⟩, ha, hab, ?_, ?_⟩
  · rw [h.sound.issued, hs.issued]
    exact hgrows.length_le
  · obtain ⟨added, -, hvars, -⟩ := hadded.vars
    exact ⟨added, hvars.symm⟩

/-- The placeholders of a step before the comparison are set aside. -/
theorem cut {made₁ : List TypeInfo} {s' : Run} (h : Before N made r r') (hs : s.Sound made₁)
    (hadded : Run.Onward (.all N) r r' s s') :
    Before N made₁ { s with placeholders := s.placeholders.take r.placeholders.length }
      { s' with placeholders := s'.placeholders.take r'.placeholders.length } := by
  obtain ⟨vs, vs', hvs, hvs', -⟩ := hadded.vars
  obtain ⟨hkept, -⟩ := map_cut hvs
  obtain ⟨hkept', -⟩ := map_cut hvs'
  obtain ⟨ws, ws', hws, hws', hvars⟩ := h.onward.vars
  refine ⟨hs.withPlaceholders (hs.placeholders.subset (List.take_subset _ _)),
    ⟨hadded.runs.withOthers _ _ ?_, (h.onward.trans hadded).constraints, ws, ws', ?_, ?_, hvars⟩⟩
  · rw [List.length_take, List.length_take, hadded.runs.places, h.onward.runs.places]
  · exact hkept.trans hws
  · exact hkept'.trans hws'

end Before

/-! ## Behind the comparison -/

namespace Passing

/-- Runs that two walks have come to behind the comparison, from a run before it. -/
structure Crossed {setting : Setting} (p p' : Passing setting) (N : Naming) (r s s' : Run) : Prop where
  issued : r.issued ≤ p.before.issued
  runs : s.Alongside (p.outlook N) s'
  constraints : ∃ asked' later later', s.constraints = p.asked ++ later ∧
    s'.constraints = asked' ++ later' ∧
    List.Forall₂ (Constraint.Stands (.all N)) p'.asked asked' ∧
    List.Forall₂ (Constraint.Stands (p.outlook N)) later later'
  vars : ∃ front front' crossed' back back',
    s.vars = front ++ (p.leftVars ++ p.rightVars) ++ back ∧ s'.vars = front' ++ crossed' ++ back' ∧
    List.Forall₂ (TypeVar.Stands (p.outlook N)) front front' ∧
    List.Forall₂ (TypeVar.Stands (.all N)) (p'.leftVars ++ p'.rightVars) crossed' ∧
    List.Forall₂ (TypeVar.Stands (p.outlook N)) back back' ∧ r.vars.length ≤ front.length

namespace Crossed

variable {setting : Setting} {p p' : Passing setting} {N : Naming} {r s s' t t' : Run}

/-- From a run earlier on the way. -/
theorem earlier (h : p.Crossed p' N s t t') (hissued : r.issued ≤ s.issued)
    (hvars : r.vars <+: s.vars) : p.Crossed p' N r t t' := by
  obtain ⟨front, front', crossed', back, back', hs, hs', hfront, hcrossed, hback, hle⟩ := h.vars
  exact ⟨Nat.le_trans hissued h.issued, h.runs, h.constraints, front, front', crossed', back, back',
    hs, hs', hfront, hcrossed, hback, Nat.le_trans hvars.length_le hle⟩

/-- What follows the comparison. -/
theorem onward (h : p.Crossed p' N r s s') (h' : Run.Onward (p.outlook N) s s' t t') :
    p.Crossed p' N r t t' := by
  obtain ⟨asked', later, later', hs, hs', hasked, hlater⟩ := h.constraints
  obtain ⟨cs, cs', hcs, hcs', hpairs⟩ := h'.constraints
  obtain ⟨front, front', crossed', back, back', hv, hv', hfront, hcrossed, hback, hle⟩ := h.vars
  obtain ⟨vs, vs', hvs, hvs', hvars⟩ := h'.vars
  refine ⟨h.issued, h'.runs, ⟨asked', later ++ cs, later' ++ cs', ?_, ?_, hasked,
    List.rel_append hlater hpairs⟩, ⟨front, front', crossed', back ++ vs, back' ++ vs', ?_, ?_,
    hfront, hcrossed, List.rel_append hback hvars, hle⟩⟩
  · rw [hcs, hs, List.append_assoc]
  · rw [hcs', hs', List.append_assoc]
  · rw [hvs, hv, List.append_assoc]
  · rw [hvs', hv', List.append_assoc]

/-- Placeholders are set aside, the comparison's among them, while others are added in front of them. -/
theorem aside {r' : Run} (h : p.Crossed p' N r s s')
    (hplaces : r'.placeholders.length = r.placeholders.length)
    (h' : Run.Onward (p.outlook N)
      { s with placeholders := s.placeholders.take r.placeholders.length }
      { s' with placeholders := s'.placeholders.take r'.placeholders.length } t t') :
    p.Crossed p' N r
      { t with placeholders := t.placeholders ++ s.placeholders.drop r.placeholders.length }
      { t' with placeholders := t'.placeholders ++ s'.placeholders.drop r'.placeholders.length } := by
  obtain ⟨asked', later, later', hs, hs', hasked, hlater⟩ := h.constraints
  obtain ⟨cs, cs', hcs, hcs', hpairs⟩ := h'.constraints
  obtain ⟨front, front', crossed', back, back', hv, hv', hfront, hcrossed, hback, hle⟩ := h.vars
  obtain ⟨vs, vs', hvs, hvs', hvars⟩ := h'.vars
  have hkept : r.placeholders.length ≤ front.length := by
    unfold Run.vars at hle
    rwa [List.length_map] at hle
  have hkept' : r'.placeholders.length ≤ front'.length := by
    rw [hplaces, ← hfront.length_eq]
    exact hkept
  refine ⟨h.issued, h'.runs.withOthers _ _ ?_, ⟨asked', later ++ cs, later' ++ cs', ?_, ?_, hasked,
    List.rel_append hlater hpairs⟩, ⟨front.take r.placeholders.length ++ vs ++
      front.drop r.placeholders.length, front'.take r'.placeholders.length ++ vs' ++
      front'.drop r'.placeholders.length, crossed', back, back', ?_, ?_, ?_, hcrossed, hback, ?_⟩⟩
  · rw [List.length_append, List.length_append, List.length_drop, List.length_drop, h'.runs.places,
      h.runs.places, hplaces]
  · exact hcs.trans (by rw [hs, List.append_assoc])
  · exact hcs'.trans (by rw [hs', List.append_assoc])
  · unfold Run.vars at hv hvs ⊢
    rw [List.map_append, hvs, List.map_take, List.map_drop, hv, List.append_assoc front,
      List.take_append_of_le_length hkept, List.drop_append_of_le_length hkept]
    simp only [List.append_assoc]
  · unfold Run.vars at hv' hvs' ⊢
    rw [List.map_append, hvs', List.map_take, List.map_drop, hv', List.append_assoc front',
      List.take_append_of_le_length hkept', List.drop_append_of_le_length hkept']
    simp only [List.append_assoc]
  · rw [hplaces]
    exact List.rel_append (List.rel_append (List.forall₂_take _ hfront) hvars)
      (List.forall₂_drop _ hfront)
  · unfold Run.vars
    simp only [List.length_append, List.length_take, List.length_drop, List.length_map]
    omega

/-- Placeholders that were set aside before the comparison come behind all others. -/
theorem putBack (h : p.Crossed p' N r s s') {ps ps' : List Placeholder}
    (hps : List.Forall₂ (TypeVar.Stands (p.outlook N)) (ps.map (·.var)) (ps'.map (·.var))) :
    p.Crossed p' N r { s with placeholders := s.placeholders ++ ps }
      { s' with placeholders := s'.placeholders ++ ps' } := by
  obtain ⟨front, front', crossed', back, back', hv, hv', hfront, hcrossed, hback, hle⟩ := h.vars
  have hlength := hps.length_eq
  rw [List.length_map, List.length_map] at hlength
  refine ⟨h.issued, h.runs.withOthers _ _ ?_, h.constraints, ⟨front, front', crossed',
    back ++ ps.map (·.var), back' ++ ps'.map (·.var), ?_, ?_, hfront, hcrossed,
    List.rel_append hback hps, hle⟩⟩
  · rw [List.length_append, List.length_append, h.runs.places, hlength]
  · unfold Run.vars at hv ⊢
    rw [List.map_append, hv, List.append_assoc]
  · unfold Run.vars at hv' ⊢
    rw [List.map_append, hv', List.append_assoc]

/-- Common tables are forgotten that were declared on the way. -/
theorem withCtes (h : p.Crossed p' N r s s') {ctes ctes' : List (String × Level)}
    (hctes : List.Forall₂
      (fun cte cte' => cte'.1 = cte.1 ∧ Level.Stands (p.outlook N) cte.2 cte'.2) ctes ctes') :
    p.Crossed p' N r { s with ctes } { s' with ctes := ctes' } :=
  ⟨h.issued, { h.runs with ctes := hctes }, h.constraints, h.vars⟩

end Crossed

end Passing

end QuerySignature
