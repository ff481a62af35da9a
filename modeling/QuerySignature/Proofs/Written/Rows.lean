import QuerySignature.Proofs.Pinned.Asked
import QuerySignature.Proofs.Pinned.Walk
import QuerySignature.Proofs.Written.Cells

namespace QuerySignature

/-! # Rows of a walk

The values of a row are analysed one after the other, each with a variable of its own. Of the variable
of a placeholder, of a literal and of a column of a table no constraint speaks until the row is bound.
What the row is bound to is made afterwards; so the constraint that binds the row ties each of these
variables to its column, and is the only one that does.

- `Run.Frees.before`, `Run.Frees.behind`: a variable of which nothing is said, in a longer walk;
- `ReadsRow.cons`: a value in front of a row;
- `FreeRow.tied`: the constraint that binds a row ties its free variables.
-/

/-! ## Walks that say nothing of a variable -/

namespace Run

/-- A walk from one run to another speaks of `V` and of what it makes, and collects placeholders. -/
structure Spans (V : Nat → Prop) (r s : Run) (added : List Constraint) (slots : List TypeVar) :
    Prop where
  issued : r.issued ≤ s.issued
  constraints : s.constraints = r.constraints ++ added
  within : ∀ u ∈ variablesOf added, V u.id ∨ r.Makes s u.id
  vars : s.vars = r.vars ++ slots
  made : ∀ v ∈ slots, r.Makes s v.id

/-- A walk makes a variable, and says nothing of it. -/
def Frees (r s : Run) (added : List Constraint) (v : TypeVar) : Prop :=
  r.Makes s v.id ∧ ∀ u ∈ variablesOf added, u.id ≠ v.id

variable {V W : Nat → Prop} {r s t : Run} {added later : List Constraint} {slots rest : List TypeVar}
  {v : TypeVar} {id : Nat}

theorem Spans.refl (V : Nat → Prop) (r : Run) : r.Spans V r [] [] where
  issued := Nat.le_refl _
  constraints := (List.append_nil _).symm
  within _ hu := absurd hu List.not_mem_nil
  vars := (List.append_nil _).symm
  made _ hv := absurd hv List.not_mem_nil

theorem Spans.bounds (h : r.Spans V s added slots) (hV : ∀ id, V id → id ≤ r.issued) :
    ∀ u ∈ variablesOf added, u.id ≤ s.issued := by
  intro u hu
  rcases h.within u hu with hlive | hmade
  · exact Nat.le_trans (hV _ hlive) h.issued
  · exact hmade.2

theorem Spans.live_bounds (h : r.Spans V s added slots) (hV : ∀ id, V id → id ≤ r.issued)
    (hW : ∀ id, W id → V id ∨ r.Makes s id) : ∀ id, W id → id ≤ s.issued := by
  intro id hid
  rcases hW id hid with hlive | hmade
  · exact Nat.le_trans (hV id hlive) h.issued
  · exact hmade.2

/-- A walk behind another, which speaks of no more than it has been given or has been made. -/
theorem Spans.trans (h : r.Spans V s added slots) (hW : ∀ id, W id → V id ∨ r.Makes s id)
    (h' : s.Spans W t later rest) : r.Spans V t (added ++ later) (slots ++ rest) := by
  have hgrows : ∀ id, V id ∨ r.Makes s id → V id ∨ r.Makes t id := fun id hid =>
    hid.imp_right fun hmade => hmade.before h'.issued
  refine ⟨Nat.le_trans h.issued h'.issued, ?_, ?_, ?_, ?_⟩
  · rw [h'.constraints, h.constraints, List.append_assoc]
  · intro u hu
    rcases List.mem_append.1 (variablesOf_append added later ▸ hu) with hu | hu
    · exact hgrows _ (h.within u hu)
    · rcases h'.within u hu with hlive | hmade
      · exact hgrows _ (hW _ hlive)
      · exact .inr (hmade.behind h.issued)
  · rw [h'.vars, h.vars, List.append_assoc]
  · intro v hv
    rcases List.mem_append.1 hv with hv | hv
    · exact (h.made v hv).before h'.issued
    · exact (h'.made v hv).behind h.issued

/-- With other placeholders a run is reached by the same constraints. -/
theorem Spans.copy (h : r.Spans V s added slots) {ps qs : List Placeholder}
    (hvars : qs.map (·.var) = ps.map (·.var) ++ rest) (hmade : ∀ v ∈ rest, r.Makes s v.id) :
    Spans V { r with placeholders := ps } { s with placeholders := qs } added rest :=
  ⟨h.issued, h.constraints, h.within, hvars, hmade⟩

/-- The placeholders of a walk may be cut off, and put back behind those of the next one. -/
theorem Spans.aside (h : r.Spans V s added slots) (hW : ∀ id, W id → V id ∨ r.Makes s id)
    (h' : Spans W { s with placeholders := s.placeholders.take r.placeholders.length } t later rest) :
    r.Spans V { t with placeholders := t.placeholders ++ s.placeholders.drop r.placeholders.length }
      (added ++ later) (rest ++ slots) := by
  obtain ⟨hkept, hcut⟩ := map_cut h.vars
  -- cut off they are out of the way of the next walk, which speaks of none of them
  have hnone : ∀ v ∈ ([] : List TypeVar), r.Makes s v.id := fun v hv => absurd hv List.not_mem_nil
  have hboth := (h.copy (hkept.trans (List.append_nil _).symm) hnone).trans hW h'
  refine hboth.copy ?_ fun v hv => ?_
  · rw [List.map_append, hcut]
    show t.vars ++ slots = r.vars ++ (rest ++ slots)
    rw [hboth.vars, List.nil_append, List.append_assoc]
  · rcases List.mem_append.1 hv with hv | hv
    · exact hboth.made v hv
    · exact (h.made v hv).before h'.issued

/-- A walk that comes after does not speak of a variable that it has not been given. -/
theorem Frees.before (h : r.Frees s added v) (hV : ¬ V v.id) (h' : s.Spans V t later rest) :
    r.Frees t (added ++ later) v := by
  refine ⟨h.1.before h'.issued, fun u hu => ?_⟩
  rcases List.mem_append.1 (variablesOf_append added later ▸ hu) with hu | hu
  · exact h.2 u hu
  · intro heq
    rcases h'.within u hu with hlive | hmade
    · exact hV (heq ▸ hlive)
    · exact absurd (heq ▸ h.1.2) (Nat.not_le.2 hmade.1)

/-- A walk that came before could not speak of the variable yet. -/
theorem Frees.behind (h : s.Frees t later v) (hissued : r.issued ≤ s.issued)
    (hbound : ∀ u ∈ variablesOf added, u.id ≤ s.issued) : r.Frees t (added ++ later) v := by
  refine ⟨h.1.behind hissued, fun u hu => ?_⟩
  rcases List.mem_append.1 (variablesOf_append added later ▸ hu) with hu | hu
  · exact Nat.ne_of_lt (Nat.lt_of_le_of_lt (hbound u hu) h.1.1)
  · exact h.2 u hu

end Run

namespace Collects

variable {V W : Nat → Prop} {r s : Run} {pins : List (Option SqlType)}

theorem made (h : Collects V W r s pins) : ∀ id, W id → V id ∨ r.Makes s id := by
  obtain ⟨collected, hreaches, -⟩ := h
  exact hreaches.made

theorem spans (h : Collects V W r s pins) :
    ∃ added slots, r.Spans V s added slots ∧ slots.length = pins.length := by
  obtain ⟨collected, hreaches, rfl, hvars⟩ := h
  obtain ⟨added, hadded, hwithin, -⟩ := hreaches.constraints
  refine ⟨added, collected.map Prod.fst, ⟨hreaches.issued, hadded, hwithin, hvars, ?_⟩, ?_⟩
  · exact List.forall_mem_map.2 hreaches.own
  · rw [List.length_map, List.length_map]

end Collects

/-- A step that collects placeholders, seen from the run in which it begins. -/
theorem Local.spans {α : Type} {V : Nat → Prop} {known : List (String × Level)} {step : Analyze α}
    {pins : List (Option SqlType)} {P : (Nat → Prop) → α → Prop} (h : Local V known step pins P)
    {r s : Run} {a : α} (hknown : TablesShown V known r.ctes)
    (hrun : step.outcome r = .ok (a, s)) :
    ∃ W added slots, r.Spans V s added slots ∧ slots.length = pins.length ∧ s.ctes = r.ctes ∧
      (∀ id, V id → W id) ∧ (∀ id, W id → V id ∨ r.Makes s id) ∧ P W a := by
  obtain ⟨W, hcollects, hctes, hpost⟩ := h r a s hknown hrun
  obtain ⟨added, slots, hspans, hlength⟩ := hcollects.spans
  exact ⟨W, added, slots, hspans, hlength, hctes, hcollects.keeps, hcollects.made, hpost⟩

/-! ## Rows -/

/-- The variables of a row with the placeholders that the row has collected. Where `info?` says of a cell
what its variable is made with, nothing but what the cell is written into has a say in its type: the
variable is free, and no other place of the row has it. -/
inductive FreeRow (info? : Cell → Option TypeInfo) (Free : TypeVar → Prop) :
    List Cell → List TypeVar → List TypeVar → Prop where
  | nil : FreeRow info? Free [] [] []
  | cons {cell : Cell} {v : TypeVar} {slots : List TypeVar} {cells : List Cell}
      {vars rest : List TypeVar}
      (hfree : ∀ info, info? cell = some info → v.info = info ∧ Free v)
      (hapart : ∀ (k : Nat) (other : Cell) (w : TypeVar), cells[k]? = some other → vars[k]? = some w →
        (info? cell).isSome = true ∨ (info? other).isSome = true → v.id ≠ w.id)
      (hbare : cell.isParameter = true → slots = [v])
      (hcount : slots.length = (cell.writes none).length)
      (hrest : FreeRow info? Free cells vars rest) :
      FreeRow info? Free (cell :: cells) (v :: vars) (slots ++ rest)

namespace FreeRow

variable {info? : Cell → Option TypeInfo} {Free Free' : TypeVar → Prop} {cells : List Cell}
  {vars slots : List TypeVar} {j k : Nat} {cell : Cell} {v w : TypeVar}

theorem mono (h : FreeRow info? Free cells vars slots) (hFree : ∀ v, Free v → Free' v) :
    FreeRow info? Free' cells vars slots := by
  induction h with
  | nil => exact .nil
  | cons hfree hapart hbare hcount _ ih =>
    exact .cons (fun info hinfo => (hfree info hinfo).imp_right (hFree _)) hapart hbare hcount ih

theorem length_eq (h : FreeRow info? Free cells vars slots) : cells.length = vars.length := by
  induction h with
  | nil => rfl
  | cons _ _ _ _ _ ih => exact congrArg (· + 1) ih

theorem free_at (h : FreeRow info? Free cells vars slots) (hcell : cells[j]? = some cell)
    (hv : vars[j]? = some v) {info : TypeInfo} (hinfo : info? cell = some info) :
    v.info = info ∧ Free v := by
  induction h generalizing j with
  | nil => cases hcell
  | cons hfree _ _ _ _ ih =>
    cases j with
    | zero =>
      cases hcell
      cases hv
      exact hfree info hinfo
    | succ j => exact ih hcell hv

theorem apart_at (h : FreeRow info? Free cells vars slots) (hcell : cells[j]? = some cell)
    (hv : vars[j]? = some v) (hinfo : (info? cell).isSome = true) (hw : vars[k]? = some w)
    (hne : k ≠ j) : w.id ≠ v.id := by
  induction h generalizing j k with
  | nil => cases hcell
  | @cons first x _ cells vars _ _ hapart _ _ hrest ih =>
    cases j with
    | zero =>
      cases hcell
      cases hv
      cases k with
      | zero => exact absurd rfl hne
      | succ k =>
        have hw : vars[k]? = some w := hw
        have hk : k < cells.length := hrest.length_eq ▸ (List.getElem?_eq_some_iff.1 hw).1
        exact (hapart k _ w (List.getElem?_eq_getElem hk) hw (.inl hinfo)).symm
    | succ j =>
      cases k with
      | zero =>
        cases hw
        exact hapart j cell v hcell hv (.inr hinfo)
      | succ k => exact ih hcell hv hw fun heq => hne (congrArg (· + 1) heq)

/-- What holds of the variable of every bare placeholder, holds of it where it has been collected. -/
theorem slots_written {Good : ColumnRecord → TypeVar → Prop} (h : FreeRow info? Free cells vars slots)
    {records : List (Option ColumnRecord)}
    (hgood : ∀ (j : Nat) (cell : Cell) (v : TypeVar) (record : ColumnRecord),
      cells[j]? = some cell → vars[j]? = some v → records[j]? = some (some record) →
      cell.isParameter = true → Good record v) :
    List.Forall₂ (fun written v => ∀ record, written = some record → Good record v)
      (rowWrites records cells) slots := by
  induction h generalizing records with
  | nil => exact .nil
  | @cons cell v slots cells vars rest _ _ hbare hcount _ ih =>
    refine List.rel_append ?_ (ih fun j other w record hother hw hrecord =>
      hgood (j + 1) other w record hother hw (by rwa [List.getElem?_tail] at hrecord))
    cases hparameter : cell.isParameter with
    | true =>
      rw [hbare hparameter]
      rw [Cell.writes_of_isParameter hparameter]
      refine .cons (fun record hrecord => ?_) .nil
      refine hgood 0 _ v record rfl rfl ?_ hparameter
      rw [← List.head?_eq_getElem?]
      exact Option.join_eq_some_iff.1 hrecord
    | false =>
      -- the placeholders of the cell are written nowhere
      rw [Cell.writes_of_not_isParameter hparameter, ← hcount]
      refine List.forall₂_iff_zip.2 ⟨List.length_replicate, fun {written v} hmem record hrecord => ?_⟩
      rw [List.eq_of_mem_replicate (List.of_mem_zip hmem).1] at hrecord
      cases hrecord

end FreeRow

/-- A walk over one cell. -/
structure ReadsCell (info? : Cell → Option TypeInfo) (V : Nat → Prop) (r s : Run) (cell : Cell)
    (v : TypeVar) (added : List Constraint) (slots : List TypeVar) : Prop where
  spans : r.Spans V s added slots
  known : V v.id ∨ r.Makes s v.id
  free : ∀ info, info? cell = some info → v.info = info ∧ r.Frees s added v
  bare : cell.isParameter = true → slots = [v]
  count : slots.length = (cell.writes none).length
  ctes : s.ctes = r.ctes

/-- A walk over a row. -/
structure ReadsRow (info? : Cell → Option TypeInfo) (V : Nat → Prop) (r s : Run) (cells : List Cell)
    (vars : List TypeVar) (added : List Constraint) (slots : List TypeVar) : Prop where
  spans : r.Spans V s added slots
  known : ∀ v ∈ vars, V v.id ∨ r.Makes s v.id
  row : FreeRow info? (r.Frees s added) cells vars slots
  ctes : s.ctes = r.ctes

namespace ReadsRow

variable {info? : Cell → Option TypeInfo} {V : Nat → Prop} {r s t : Run} {cell : Cell} {v : TypeVar}
  {added later : List Constraint} {slots rest vars : List TypeVar} {cells : List Cell}

theorem nil (r : Run) : ReadsRow info? V r r [] [] [] [] :=
  ⟨.refl V r, fun _ hv => absurd hv List.not_mem_nil, .nil, rfl⟩

/-- A cell in front of a row: what the row makes, it makes behind what the cell has made. -/
theorem cons (hV : ∀ id, V id → id ≤ r.issued) (h : ReadsCell info? V r s cell v added slots)
    (h' : ReadsRow info? V s t cells vars later rest) :
    ReadsRow info? V r t (cell :: cells) (v :: vars) (added ++ later) (slots ++ rest) := by
  have hsame := h.spans.live_bounds hV fun _ => id
  have hlater : ∀ u ∈ vars, V u.id ∨ s.Makes t u.id := h'.known
  refine ⟨h.spans.trans (fun _ => .inl) h'.spans, ?_, ?_, h'.ctes.trans h.ctes⟩
  · intro u hu
    rcases List.mem_cons.1 hu with rfl | hu
    · exact h.known.imp_right fun hmade => hmade.before h'.spans.issued
    · exact (hlater u hu).imp_right fun hmade => hmade.behind h.spans.issued
  · refine .cons (fun info hinfo => ?_) ?_ h.bare h.count ?_
    · obtain ⟨hv, hfrees⟩ := h.free info hinfo
      exact ⟨hv, hfrees.before (hfrees.1.not_given hV) h'.spans⟩
    -- what the row shows has been given, and is older than the cell, or is made behind it
    · rintro k other w hother hw (hsome | hsome) heq
      · obtain ⟨info, hinfo⟩ := Option.isSome_iff_exists.1 hsome
        have hmade := (h.free info hinfo).2.1
        rcases hlater w (List.mem_of_getElem? hw) with hlive | hother
        · exact absurd (hV _ hlive) (Nat.not_le.2 (heq ▸ hmade.1))
        · exact absurd hmade.2 (Nat.not_le.2 (heq ▸ hother.1))
      · obtain ⟨info, hinfo⟩ := Option.isSome_iff_exists.1 hsome
        have hmade := (h'.row.free_at hother hw hinfo).2.1
        exact absurd (hsame _ h.known) (Nat.not_le.2 (heq ▸ hmade.1))
    · exact h'.row.mono fun u hu => hu.behind h.spans.issued (h.spans.bounds hV)

end ReadsRow

/-! ## Rows that are bound -/

/-- A row of variables is bound to columns: variables with their types are made, and one constraint ties
both rows place by place. -/
structure Run.Binds (s t : Run) (records : List (Option ColumnRecord)) (vars targets : List TypeVar)
    (c : Constraint) : Prop where
  issued : s.issued ≤ t.issued
  constraints : t.constraints = s.constraints ++ [c]
  collected : t.vars = s.vars
  ctes : t.ctes = s.ctes
  split : ∃ label, c.split = (targets.zip vars).map fun pair =>
    Constraint.strict label (.var pair.1) (.var pair.2)
  speaks : ∀ u ∈ c.vars, u ∈ targets ∨ u ∈ vars
  made : ∀ w ∈ targets, s.Makes t w.id
  distinct : targets.Pairwise fun w w' => w.id ≠ w'.id
  declared : List.Forall₂ (fun written w => ∃ record, written = some record ∧
    w.info = .exact record.type) records targets

/-- Of the parts of a constraint one ties two variables, and the others do not speak of these. -/
theorem Tied.of_part {c tie : Constraint} {parts : List Constraint} {v w : TypeVar} {j : Nat}
    (hsplit : c.split = parts) (htie : parts[j]? = some tie) (h : Ties v w tie) (hne : v.id ≠ w.id)
    (hothers : ∀ (k : Nat) (part : Constraint), k ≠ j → parts[k]? = some part →
      ∀ u ∈ part.vars, u.id ≠ v.id ∧ u.id ≠ w.id) : Tied [c] v w := by
  refine ⟨parts.take j, tie, parts.drop (j + 1), ?_, h, hne, fun u hu => ?_⟩
  · rw [List.flatMap_singleton, hsplit]
    exact split_at htie
  · obtain ⟨part, hpart, hu⟩ := List.mem_flatMap.1 hu
    rcases List.mem_append.1 hpart with hpart | hpart
    · obtain ⟨k, hk, rfl⟩ := List.mem_take_iff_getElem.1 hpart
      refine hothers k _ ?_ (List.getElem?_eq_getElem _) u hu
      exact Nat.ne_of_lt (Nat.lt_of_lt_of_le hk (Nat.min_le_left _ _))
    · obtain ⟨k, hk, rfl⟩ := List.mem_drop_iff_getElem.1 hpart
      exact hothers (j + 1 + k) _ (by omega) (List.getElem?_eq_getElem _) u hu

/-- The constraint that binds a row ties the free variables of the row to what they are bound to. -/
theorem FreeRow.tied {info? : Cell → Option TypeInfo} {Free : TypeVar → Prop} {cells : List Cell}
    {vars slots targets : List TypeVar} {s t : Run} {records : List (Option ColumnRecord)}
    {c : Constraint} (h : FreeRow info? Free cells vars slots) (hbinds : s.Binds t records vars targets c)
    (hvars : ∀ v ∈ vars, v.id ≤ s.issued) {j : Nat} {cell : Cell} {v w : TypeVar}
    (hcell : cells[j]? = some cell) (hv : vars[j]? = some v) (hw : targets[j]? = some w)
    (hinfo : (info? cell).isSome = true) : Tied [c] v w := by
  obtain ⟨label, hsplit⟩ := hbinds.split
  have hnever : ∀ v ∈ vars, ∀ w ∈ targets, v.id ≠ w.id := fun v hv w hw =>
    Nat.ne_of_lt (Nat.lt_of_le_of_lt (hvars v hv) (hbinds.made w hw).1)
  have hzip : (targets.zip vars)[j]? = some (w, v) := List.getElem?_zip_eq_some.2 ⟨hw, hv⟩
  have hmemv := List.mem_of_getElem? hv
  have hmemw := List.mem_of_getElem? hw
  refine Tied.of_part hsplit (j := j) (by rw [List.getElem?_map, hzip]; rfl) (.right label)
    (hnever v hmemv w hmemw) ?_
  -- at another place stand another column and the variable of another cell
  intro k part hne hk u hu
  obtain ⟨⟨w', v'⟩, hpair, rfl⟩ := Option.map_eq_some_iff.1 (List.getElem?_map ▸ hk)
  obtain ⟨hw', hv'⟩ := List.getElem?_zip_eq_some.1 hpair
  rcases List.mem_pair.1 hu with rfl | rfl
  · refine ⟨(hnever v hmemv _ (List.mem_of_getElem? hw')).symm, ?_⟩
    obtain ⟨hlast, rfl⟩ := List.getElem?_eq_some_iff.1 hw'
    obtain ⟨hfirst, rfl⟩ := List.getElem?_eq_some_iff.1 hw
    have hdistinct := List.pairwise_iff_getElem.1 hbinds.distinct
    rcases Nat.lt_or_gt_of_ne hne with hlt | hlt
    · exact hdistinct k j hlast hfirst hlt
    · exact (hdistinct j k hfirst hlast hlt).symm
  · exact ⟨h.apart_at hcell hv hinfo hv' hne, hnever _ (List.mem_of_getElem? hv') w hmemw⟩

/-- So does it behind the walk over the row, which says nothing of them. -/
theorem FreeRow.tied_behind {info? : Cell → Option TypeInfo} {cells : List Cell}
    {vars slots targets : List TypeVar} {r s t : Run} {records : List (Option ColumnRecord)}
    {added : List Constraint} {c : Constraint} (h : FreeRow info? (r.Frees s added) cells vars slots)
    (hbinds : s.Binds t records vars targets c) (hvars : ∀ v ∈ vars, v.id ≤ s.issued)
    (hbound : ∀ u ∈ variablesOf added, u.id ≤ s.issued) {j : Nat} {cell : Cell} {v : TypeVar}
    {record : ColumnRecord} (hcell : cells[j]? = some cell) (hv : vars[j]? = some v)
    (hrecord : records[j]? = some (some record)) {info : TypeInfo} (hinfo : info? cell = some info) :
    ∃ w, Tied (added ++ [c]) v w ∧ v.info = info ∧ w.info = .exact record.type ∧ s.Makes t w.id := by
  obtain ⟨w, hw, record', hsame, hexact⟩ := exists_partner_at hbinds.declared.flip hrecord
  cases hsame
  obtain ⟨hvinfo, -, hsilent⟩ := h.free_at hcell hv hinfo
  have hmade := hbinds.made w (List.mem_of_getElem? hw)
  have htied := h.tied hbinds hvars hcell hv hw (by rw [hinfo]; rfl)
  have hbefore : ∀ u ∈ variablesOf added, u.id ≠ v.id ∧ u.id ≠ w.id := fun u hu =>
    ⟨hsilent u hu, Nat.ne_of_lt (Nat.lt_of_le_of_lt (hbound u hu) hmade.1)⟩
  exact ⟨w, htied.behind hbefore, hvinfo, hexact, hmade⟩

/-- A row that is read and then bound: its bare placeholders are pinned to the columns. -/
theorem ReadsRow.collects {profile : Profile} {scope₀ : Scope} {V : Nat → Prop} {r s t : Run}
    {cells : List Cell} {vars slots targets : List TypeVar} {added : List Constraint}
    {records : List (Option ColumnRecord)} {c : Constraint} (hV : ∀ id, V id → id ≤ r.issued)
    (h : ReadsRow (Cell.info? profile scope₀) V r s cells vars added slots)
    (hbinds : s.Binds t records vars targets c) :
    Collects V V r t ((rowWrites records cells).map (Option.map (·.type))) := by
  have hvars : ∀ v ∈ vars, v.id ≤ s.issued := fun v hv =>
    h.spans.live_bounds hV (fun _ => id) _ (h.known v hv)
  have hbound := h.spans.bounds hV
  have hissued := Nat.le_trans h.spans.issued hbinds.issued
  have hpinned : ∀ (j : Nat) (cell : Cell) (v : TypeVar) (record : ColumnRecord),
      cells[j]? = some cell → vars[j]? = some v → records[j]? = some (some record) →
      cell.isParameter = true →
      Pinned (fun id => r.Makes t id ∧ ¬ V id) (added ++ [c]) v record.type := by
    intro j cell v record hcell hv hrecord hparameter
    have hinfo : Cell.info? profile scope₀ cell = some .unknown := if_pos hparameter
    obtain ⟨w, htied, hopen, hexact, hmade⟩ :=
      h.row.tied_behind hbinds hvars hbound hcell hv hrecord hinfo
    obtain ⟨-, hfrees⟩ := h.row.free_at hcell hv hinfo
    -- the walk makes both ends of the tie, so that nothing around it speaks of them
    have hown : ∀ id, r.Makes t id → r.Makes t id ∧ ¬ V id := fun id hid => ⟨hid, hid.not_given hV⟩
    exact ⟨w, htied, hopen, hexact, hown _ (hfrees.1.before hbinds.issued),
      hown _ (hmade.behind h.spans.issued)⟩
  have hwrites := h.row.slots_written hpinned
  have hlength := hwrites.length_eq
  have hsame : slots.length = ((rowWrites records cells).map (Option.map (·.type))).length := by
    rw [List.length_map, hlength]
  refine ⟨slots.zip ((rowWrites records cells).map (Option.map (·.type))), ⟨hissued, fun _ => id,
    fun _ => .inl, ?_, added ++ [c], ?_, ?_, ?_⟩, List.map_snd_zip (Nat.le_of_eq hsame.symm), ?_⟩
  · exact fun p hp => (h.spans.made _ (List.of_mem_zip hp).1).before hbinds.issued
  · rw [hbinds.constraints, h.spans.constraints, List.append_assoc]
  · intro u hu
    rcases List.mem_append.1 (variablesOf_append added [c] ▸ hu) with hu | hu
    · exact (h.spans.within u hu).imp_right fun hmade => hmade.before hbinds.issued
    · unfold variablesOf at hu
      rw [List.flatMap_singleton] at hu
      rcases hbinds.speaks u hu with hu | hu
      · exact .inr ((hbinds.made u hu).behind h.spans.issued)
      · exact (h.known u hu).imp_right fun hmade => hmade.before hbinds.issued
  · intro _ v type hmem
    rw [List.zip_map_right] at hmem
    obtain ⟨⟨v', written⟩, hpair, heq⟩ := List.mem_map.1 hmem
    obtain ⟨rfl, hsome⟩ := Prod.mk.inj heq
    obtain ⟨record, rfl, rfl⟩ := Option.map_eq_some_iff.1 hsome
    exact (List.forall₂_iff_zip.1 hwrites.flip).2 hpair record rfl
  · rw [hbinds.collected, h.spans.vars, List.map_fst_zip (Nat.le_of_eq hsame)]

end QuerySignature
