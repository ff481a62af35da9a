import QuerySignature.Proofs.Mirrored.Places
import QuerySignature.Proofs.Mirrored.Solved
import QuerySignature.Proofs.Placeholders.Reported

namespace QuerySignature

/-! # Comparisons are described from either side

A statement is described with the same types when the sides of a comparison in it are exchanged, if the
order in which the solver comes to the two sides does not count. The types of the placeholders in the
operands change places with these.

- `Passing.Crossed.vars_exchanged`: the placeholders of two walks that have crossed.
- `describe_mirrored`: descriptions of a statement and of the statement with a comparison mirrored.
-/

namespace Passing

variable {setting : Setting} {p p' : Passing setting} {N : Naming} {r s s' : Run}
  {made : List TypeInfo} {solution solution' : Solution}

/-- The types that two solutions give to one variable in two walks. -/
abbrev Typed (profile : Profile) (solution solution' : Solution) (v v' : TypeVar) : Prop :=
  solution'.typeOf profile v' = solution.typeOf profile v

namespace Traded

variable (hinfo : ∀ v v' : TypeVar, v.Paired p.number v' → p.Told v.id → v'.Carries (initialOf made) →
    solution'.infoOf v' = solution.infoOf v)

include hinfo

/-- What is spoken of behind the comparison has one type in both walks. -/
theorem typed_of_stands (h : p.Traded p') {v v' : TypeVar} (hv : v.Stands (p.outlook N) v')
    (hv' : v'.Issued made) : Typed setting.profile solution solution' v v' := by
  have hmade : 0 < v.id := hv.relabelled.id ▸ hv'.1
  have htold : p.Told v.id := hv.seen.imp (fun hid => ⟨hmade, .inl hid⟩) id
  have hpaired : v.Paired p.number v := by
    refine ⟨hmade, ?_⟩
    rw [h.orderly.number_eq hv.seen]
  calc
    solution'.typeOf setting.profile v' = solution'.typeOf setting.profile v :=
      solution'.typeOf_relabelled hv.relabelled setting.profile
    _ = solution.typeOf setting.profile v :=
      typeOf_eq (hinfo v v hpaired htold (hv.relabelled.carries_iff.1 hv'.carries))

/-- So has a placeholder in an operand. -/
theorem typed_of_paired {v w v' : TypeVar} (hv : v.Paired p.number w)
    (hmem : v ∈ p.leftVars ++ p.rightVars) (hw : w.Stands (.all N) v') (hv' : v'.Issued made) :
    Typed setting.profile solution solution' v v' := by
  have htold : p.Told v.id := .inl ⟨hv.made, .inr ⟨v, hmem, rfl⟩⟩
  calc
    solution'.typeOf setting.profile v' = solution'.typeOf setting.profile w :=
      solution'.typeOf_relabelled hw.relabelled setting.profile
    _ = solution.typeOf setting.profile v :=
      typeOf_eq (hinfo v w hv htold (hw.relabelled.carries_iff.1 hv'.carries))

/-- The placeholders that two walks have collected, those of the operands in the order of the second
walk. -/
theorem vars_exchanged (h : p.Traded p') (hcrossed : p.Crossed p' N r s s')
    (hsound : s'.Sound made) :
    ∃ front back, s.vars = front ++ (p.leftVars ++ p.rightVars) ++ back ∧
      List.Forall₂ (Typed setting.profile solution solution')
        (front ++ (p.rightVars ++ p.leftVars) ++ back) s'.vars := by
  obtain ⟨front, front', crossed', back, back', hvars, hvars', hfront, hcrossed', hback, -⟩ :=
    hcrossed.vars
  have hissued := hsound.issuedVars
  rw [hvars'] at hissued ⊢
  have hstands : ∀ {vs vs' : List TypeVar}, List.Forall₂ (TypeVar.Stands (p.outlook N)) vs vs' →
      (∀ v' ∈ vs', v'.Issued made) →
      List.Forall₂ (Typed setting.profile solution solution') vs vs' := by
    intro vs vs' hvs hvs'
    exact (((List.forall₂_and_left _ _).2 ⟨hvs', hvs.flip⟩).imp
      fun _ _ hv => typed_of_stands hinfo h hv.2 hv.1).flip
  have hoperands : List.Forall₂ (TypeVar.Paired p.number) (p.rightVars ++ p.leftVars)
      (p'.leftVars ++ p'.rightVars) := List.rel_append h.rightVars h.leftVars
  have hmem : ∀ v ∈ p.rightVars ++ p.leftVars, v ∈ p.leftVars ++ p.rightVars := by
    intro v hv
    exact List.mem_append.2 (List.mem_append.1 hv).symm
  have hcrossedTypes : List.Forall₂ (Typed setting.profile solution solution')
      (p.rightVars ++ p.leftVars) crossed' := by
    have hpairs := (List.forall₂_and_left _ _).2 ⟨hmem, hoperands⟩
    have hends := ((List.forall₂_and_left _ _).2
      ⟨fun v' hv' => hissued v' (by simp [hv']), hcrossed'.flip⟩).flip
    exact rel_trans (fun v w v' hv hw => typed_of_paired hinfo hv.2 hv.1 hw.2 hw.1) hpairs hends
  refine ⟨front, back, hvars, ?_⟩
  exact List.rel_append (List.rel_append (hstands hfront fun v' hv' => hissued v' (by simp [hv']))
    hcrossedTypes) (hstands hback fun v' hv' => hissued v' (by simp [hv']))

end Traded

end Passing

/-- The columns of two descriptions have the same types, and so have the placeholders of the two
statements; those in the operands of a comparison have changed places. -/
def Passing.TypedAlike {setting : Setting} (p : Passing setting) (st : Statement)
    (d d' : Description) : Prop :=
  d'.columns.map (·.type) = d.columns.map (·.type) ∧
    ∃ (front back : List TypeVar) (type : TypeVar → SqlType),
      (st.lastRun setting).vars = front ++ (p.leftVars ++ p.rightVars) ++ back ∧
      (d.data ++ d.parameters).map (·.type) =
        (front ++ (p.leftVars ++ p.rightVars) ++ back).map type ∧
      (d'.data ++ d'.parameters).map (·.type) =
        (front ++ (p.rightVars ++ p.leftVars) ++ back).map type

/-- A statement is described alike with the sides of a comparison in it exchanged, if the order of these
does not count. -/
theorem typedAlike_of_mirrored {setting : Setting} {p : Passing setting} {N : Naming}
    {st st' : Statement} (h : MirroredStatement N p st st') (hspelled : st.Spelled N)
    (hoperands : p.Interchangeable) (hsides : p.Indifferent) {d : Description}
    (hd : describe setting st = .ok d) :
    ∃ d', describe setting st' = .ok d' ∧ p.TypedAlike st d d' := by
  obtain ⟨analysis, solution, hwalk, hsolve, htypes⟩ := types_of_described hd
  obtain ⟨analysis', run', p', hwalk', hresult, htraded, hcrossed⟩ :=
    h.leads hspelled analysis _ hwalk
  obtain ⟨made, hsound, hissued⟩ := Run.Sound.statement hwalk'
  obtain ⟨solution', hsolve', hinfo⟩ := hcrossed.solve htraded hsound hoperands hsides hsolve
  rw [describe_eq, hwalk, ok_bind, hsolve] at hd
  cases hd
  have hd' : describe setting st' = .ok (.of setting.profile st' analysis' run' solution') := by
    rw [describe_eq, hwalk', ok_bind, hsolve']
    rfl
  refine ⟨_, hd', ?_, ?_⟩
  · have hcolumns := (List.forall₂_and_left _ _).2 ⟨hissued, hresult.flip⟩
    unfold Description.of
    rw [List.map_map, List.map_map]
    exact map_eq_of_rel hcolumns.flip fun c c' hc =>
      hc.2.type fun v v' hv hmem => Passing.Traded.typed_of_stands hinfo htraded hv (hc.1 v' hmem)
  · obtain ⟨analysis'', solution'', hwalk'', hsolve'', htypes'⟩ := types_of_described hd'
    obtain ⟨-, hrun⟩ := Prod.mk.inj (Except.ok.inj (hwalk'.symm.trans hwalk''))
    rw [← hrun, hsolve'] at hsolve''
    cases hsolve''
    obtain ⟨front, back, hvars, hexchanged⟩ :=
      Passing.Traded.vars_exchanged hinfo htraded hcrossed hsound
    refine ⟨front, back, solution.typeOf setting.profile, hvars, ?_, ?_⟩
    · rw [← hvars]
      exact map_eq_of_rel htypes fun _ _ htype => htype
    · rw [← hrun] at htypes'
      rw [map_eq_of_rel htypes' fun _ _ htype => htype]
      exact map_eq_of_rel hexchanged fun _ _ htype => htype

/-- A comparison may have either operand on its left. The walk over a statement that is described comes
to each comparison in it. With the operands of this comparison exchanged the statement is described,
too, with the same types of columns and placeholders; the placeholders in the operands change places
with these. This holds if what the operands ask for comes to the same in either order, and the equation
between them does not tell its sides apart. -/
theorem describe_mirrored {setting : Setting} {N : Naming} {st : Statement} (hst : st.Spelled N)
    {d : Description} (hd : describe setting st = .ok d) (st' : Statement) :
    (∀ op left right,
      ReplacedStatement N (.compare op left right) (.compare op.mirror right left) st st' →
        ∃ p : Passing setting, p.comparison = .compare op left right ∧
          MirroredStatement N p st st') ∧
    ∀ p : Passing setting, MirroredStatement N p st st' → p.Interchangeable → p.Indifferent →
      ∃ d', describe setting st' = .ok d' ∧ p.TypedAlike st d d' := by
  obtain ⟨analysis, solution, hwalk, -, -⟩ := types_of_described hd
  exact ⟨fun op left right h => h.exists_mirrored ⟨analysis, _, hwalk⟩,
    fun p h hoperands hsides => typedAlike_of_mirrored h hst hoperands hsides hd⟩

/-! ## Two tests -/

/-- `SELECT id AS x FROM mytable1, others WHERE criteria`. -/
def idWhere (others : List Source) (criteria : Expr) : Statement :=
  .select ⟨[], [⟨false, [.expr (.column ⟨none, "id"⟩) (some "x")], .table "mytable1" none :: others,
    [], some criteria, [], none⟩], [], none⟩

/-- `(? = id)`. -/
def idTest : Expr := .paren (.compare .eq (.parameter none) (.column ⟨none, "id"⟩))

/-- `(? = 'x')`. -/
def textTest : Expr := .paren (.compare .eq (.parameter none) (.literal (.string "x")))

/-- The variable of a placeholder. -/
def openVar (id : Nat) : TypeVar := ⟨id, "?", .unknown, false, false⟩

/-- What a test asks of its placeholder and of the variable that is made next. -/
def testOf (label : String) (id : Nat) (other : String) (type : SqlType) : Constraint :=
  .strict label (.var (openVar id)) (.var ⟨id + 1, other, .exact type, false, false⟩)

/-- The walk over `(? = id) = (? = 'x')`. -/
def twoTests : Passing ⟨oneTable, .mysql⟩ where
  op := .eq
  left := idTest
  right := textTest
  scope := ⟨[⟨"mytable1", "", "id", ⟨1, "id", .exact .int, false, false⟩, .primary, true⟩], []⟩
  before := ⟨2, [], [], []⟩
  leftFound := .ofVar ⟨5, "? = id", .exact .tinyInt, false, false⟩ true
  middle := ⟨5, [testOf "? = id" 3 "mytable1.id" .int], [⟨openVar 3, none, true⟩], []⟩
  rightFound := .ofVar ⟨8, "? = 'x'", .exact .tinyInt, false, false⟩ true
  behind := ⟨8, [testOf "? = id" 3 "mytable1.id" .int, testOf "? = 'x'" 6 "'x'" .varchar],
    [⟨openVar 3, none, true⟩, ⟨openVar 6, none, true⟩], []⟩
  walkLeft := rfl
  walkRight := rfl

/-- All names and all names of placeholders. -/
def Naming.any : Naming := ⟨fun _ => True, fun _ => True⟩

theorem mirrored_twoTests :
    MirroredStatement .any twoTests (idWhere [] twoTests.comparison)
      (idWhere [] twoTests.mirrored) := by
  have hctes : (inferCtes ⟨oneTable, .mysql⟩ [] []).outcome .start = .ok ((), .start) := rfl
  have hunion : (inferUnion ⟨oneTable, .mysql⟩ [] []).outcome .start = .ok ([], .start) := rfl
  exact .select (.union [] [] none hctes hunion (.criteria false [] none rfl .here))

theorem interchangeable_twoTests : twoTests.Interchangeable := by
  refine Passing.interchangeable_of_apart fun initial s hs step hstep => ?_
  obtain rfl : Classes.start initial = s := Except.ok.inj hs.run
  obtain rfl := List.mem_singleton.1 hstep
  have haway : ∀ id ∈ [3, 4],
      ¬ (Classes.start initial).Meets (equationsOf twoTests.rightAsked) id := by
    rintro id hid ⟨other, hother, hmeets⟩
    obtain rfl := List.mem_singleton.1 hother
    have htext : id = 6 ∨ id = 7 := hmeets
    simp only [List.mem_cons, List.not_mem_nil, or_false] at hid
    omega
  exact ⟨haway 3 (by simp), haway 4 (by simp)⟩

theorem indifferent_twoTests : twoTests.Indifferent := by
  refine Passing.indifferent_of_balanced rfl rfl fun solution hsolve a b ha hb _ => ?_
  have hsolution : solve .mysql twoTests.behind.constraints =
      .ok ⟨[(3, .exact .int), (4, .exact .int), (6, .exact .varchar), (7, .exact .varchar)]⟩ := by
    decide +kernel
  obtain rfl := Except.ok.inj (hsolution.symm.trans hsolve)
  cases ha
  cases hb
  rfl

/-- Here the two placeholders have different types, and change places. -/
theorem describe_mirrored_twoTests :
    ∃ d d', describe ⟨oneTable, .mysql⟩ (idWhere [] twoTests.comparison) = .ok d ∧
      describe ⟨oneTable, .mysql⟩ (idWhere [] twoTests.mirrored) = .ok d' ∧
      d'.columns.map (·.type) = d.columns.map (·.type) ∧
      (d.data ++ d.parameters).map (·.type) = [.int, .varchar] ∧
      (d'.data ++ d'.parameters).map (·.type) = [.varchar, .int] := by
  have hst : (idWhere [] twoTests.comparison).Spelled .any := by
    simp [idWhere, twoTests, Passing.comparison, idTest, textTest, Naming.any, Statement.Spelled,
      Select.Spelled, SpelledCtes, SpelledUnion, Branch.Spelled, SpelledItems, Item.Spelled,
      SpelledSources, Source.Spelled, SpelledJoins, SpelledSome, SpelledAll, SpelledLimit,
      SpelledOrder, Expr.Spelled, ColumnRef.Spelled]
  have htypes : (describe ⟨oneTable, .mysql⟩ (idWhere [] twoTests.comparison)).map
      (fun d => (d.data ++ d.parameters).map (·.type)) = .ok [.int, .varchar] := by decide +kernel
  cases hd : describe ⟨oneTable, .mysql⟩ (idWhere [] twoTests.comparison) with
  | error e =>
    rw [hd] at htypes
    cases htypes
  | ok d =>
    rw [hd] at htypes
    have htypes : (d.data ++ d.parameters).map (·.type) = [.int, .varchar] :=
      Except.ok.inj htypes
    obtain ⟨d', hd', hcolumns, front, back, type, -, hfound, hfound'⟩ :=
      (describe_mirrored hst hd _).2 twoTests mirrored_twoTests interchangeable_twoTests
        indifferent_twoTests
    have hvars : twoTests.leftVars ++ twoTests.rightVars = [openVar 3, openVar 6] := rfl
    have hvars' : twoTests.rightVars ++ twoTests.leftVars = [openVar 6, openVar 3] := rfl
    -- these are all placeholders: there are none in front of them and behind them
    have hall := hfound.symm.trans htypes
    rw [hvars] at hall
    have hlength := congrArg List.length hall
    rw [List.length_map, List.length_append, List.length_append] at hlength
    simp only [List.length_cons, List.length_nil] at hlength
    obtain rfl : front = [] := List.length_eq_zero_iff.1 (by omega)
    obtain rfl : back = [] := List.length_eq_zero_iff.1 (by omega)
    obtain ⟨hleft, hright⟩ : type (openVar 3) = .int ∧ type (openVar 6) = .varchar := by
      simpa using hall
    refine ⟨d, d', rfl, hd', hcolumns, htypes, hfound'.trans ?_⟩
    simp [hvars', hleft, hright]

/-! ## Sides that are told apart -/

/-- `coalesce(?, id)`. -/
def coalesced : Expr := .call "coalesce" false [.parameter none, .column ⟨none, "id"⟩]

/-- `(SELECT ? AS a) AS d`. -/
def openTable : Source :=
  .derived ⟨[], [⟨false, [.expr (.parameter none) (some "a")], [], [], none, [], none⟩], [], none⟩ "d"

/-- `(d.a = value)`. -/
def columnTest (value : Expr) : Expr := .paren (.compare .eq (.column ⟨some "d", "a"⟩) value)

/-- A reference to the column `id = 1` of `(SELECT test FROM mytable1) AS d`. -/
def namedByText (test : Expr) : Statement :=
  .select ⟨[], [⟨false, [.expr (.column ⟨some "d", "id = 1"⟩) (some "x")],
    [.derived ⟨[], [⟨false, [.expr test none], [.table "mytable1" none], [], none, [], none⟩], [],
      none⟩ "d"], [], none, [], none⟩], [], none⟩

/-- Which operand is on the left shows in three ways. An equation between two types of one family keeps
its left side, so that a placeholder that has been taken for the same as `id` has the type of `id` or of
`10`. So has one that both operands speak of, whichever does so first. And a column that goes by the text
of a comparison is not found by the text of its mirror. -/
theorem sides_told_apart :
    let types := fun st => (describe ⟨oneTable, .mysql⟩ st).toOption.map Description.types
    types (idWhere [] (.compare .eq coalesced (.literal (.int 10)))) = some ⟨["int"], ["int"]⟩ ∧
    types (idWhere [] (.compare .eq (.literal (.int 10)) coalesced)) = some ⟨["int"], ["bigint"]⟩ ∧
    types (idWhere [openTable] (.compare .eq (columnTest (.column ⟨none, "id"⟩))
      (columnTest (.literal (.int 10))))) = some ⟨["int"], ["int"]⟩ ∧
    types (idWhere [openTable] (.compare .eq (columnTest (.literal (.int 10)))
      (columnTest (.column ⟨none, "id"⟩)))) = some ⟨["int"], ["bigint"]⟩ ∧
    types (namedByText (.compare .eq (.column ⟨none, "id"⟩) (.literal (.int 1)))) =
      some ⟨["tinyint"], []⟩ ∧
    types (namedByText (.compare .eq (.literal (.int 1)) (.column ⟨none, "id"⟩))) = none := by
  decide +kernel

end QuerySignature
