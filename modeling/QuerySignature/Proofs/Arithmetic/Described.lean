import QuerySignature.Proofs.Arithmetic.Walk
import QuerySignature.Proofs.Placeholders.Reported
import QuerySignature.Proofs.Walk.Writes

namespace QuerySignature

/-! # The types of operands

A placeholder that is an operand of arithmetic is described with the type of the result. This is
numeric, unless a CASE, a COALESCE or an IFNULL of the statement takes it out of the numeric types for
good: these widen what they choose from as it is.

- `operands_of_statement`: the walk over a statement widens its operands with results of arithmetic.
- `describes_of_isOperand`: a solution gives an operand the type of its result.
- `describe_operands`: a description gives operands numeric types, but for those that outgrow them.
-/

/-- An operand of arithmetic is described as the result that it is widened with: it has the type of
the result, which is numeric if and only if no choice takes the result out of the numeric types. -/
def DescribesOperand (profile : Profile) (choices : List String) (constraints : List Constraint)
    (v : TypeVar) (type : SqlType) : Prop :=
  ∃ label result, result.info = .number ∧
    Constraint.widest label (some .sum) result v ∈ constraints ∧
    typeBy profile constraints result = some type ∧
    (type.isNumeric = true ↔ ¬ Outgrows profile choices constraints result)

/-- Where nothing is chosen, operands are numeric. -/
theorem DescribesOperand.isNumeric {profile : Profile} {constraints : List Constraint} {v : TypeVar}
    {type : SqlType} (h : DescribesOperand profile [] constraints v type) :
    type.isNumeric = true := by
  obtain ⟨label, result, -, -, -, hnumeric⟩ := h
  apply hnumeric.2
  rintro ⟨n, c, -, -, hchoice, -⟩
  exact absurd hchoice List.not_mem_nil

/-! ## The walk -/

/-- The walk over a statement widens its operands with results of arithmetic, and asks for plain
widenings for its choices alone. -/
theorem operands_of_statement {setting : Setting} {s : Statement} {analysis : Analysis} {run : Run}
    (h : (inferStatement setting s).outcome .start = .ok (analysis, run)) :
    List.Forall₂ (fun operand v => operand = true → IsOperand run.constraints v) s.operands run.vars ∧
      ∀ c ∈ run.constraints, c.isPlainWidening = true → c.label ∈ s.choices := by
  have hrecords := Records.statement setting s .start analysis run h run.constraints
    (List.Subset.refl _)
  obtain ⟨vars, hvars, hoperands⟩ := hrecords.vars
  obtain ⟨added, hadded, hchoices⟩ := hrecords.constraints
  have hown : run.vars = vars := hvars
  have hconstraints : run.constraints = added := hadded
  exact ⟨hown ▸ hoperands, hconstraints ▸ hchoices⟩

/-- A solution of what a sound run asks for gives an operand the type of its result. -/
theorem describes_of_isOperand {profile : Profile} (hprofile : profile.CountsInNumbers) {run : Run}
    {made : List TypeInfo} (hsound : run.Sound made) {choices : List String}
    (hchoices : ∀ c ∈ run.constraints, c.isPlainWidening = true → c.label ∈ choices)
    {solution : Solution} (hsolve : solve profile run.constraints = .ok solution) {v : TypeVar}
    (hv : IsOperand run.constraints v) :
    DescribesOperand profile choices run.constraints v (solution.typeOf profile v) := by
  obtain ⟨label, result, hnumber, hmem⟩ := hv
  obtain ⟨hcarries, hinfo⟩ := infoOf_of_widening hsound.carries hmem hsolve
  -- the widening has brought the operand into the class of the result
  have htype : solution.typeOf profile v = solution.typeOf profile result := by
    unfold Solution.typeOf
    rw [hinfo]
  rw [htype]
  exact ⟨label, result, hnumber, hmem, typeBy_eq hsolve result,
    isNumeric_typeOf_iff hprofile hsound.carries hcarries hnumber hchoices hsolve⟩

/-! ## Descriptions -/

/-- Each operand of a described statement is described as its result is. -/
theorem describesOperand_of_described {setting : Setting}
    (hprofile : setting.profile.CountsInNumbers) {s : Statement} {d : Description}
    (h : describe setting s = .ok d) :
    s.operands.length = (d.data ++ d.parameters).length ∧
      ∀ (i : Nat) (p : ResultParameter), s.operands[i]? = some true →
        (d.data ++ d.parameters)[i]? = some p → ∃ v, (s.lastRun setting).vars[i]? = some v ∧
          DescribesOperand setting.profile s.choices (s.lastRun setting).constraints v p.type := by
  obtain ⟨analysis, solution, hwalk, hsolve, htypes⟩ := types_of_described h
  obtain ⟨made, hsound, -⟩ := Run.Sound.statement hwalk
  obtain ⟨hoperands, hchoices⟩ := operands_of_statement hwalk
  refine ⟨hoperands.length_eq.trans htypes.length_eq, fun i p hoperand hp => ?_⟩
  obtain ⟨v, hv, htype⟩ := exists_partner_at htypes hp
  obtain ⟨operand, hoperand', hisOperand⟩ := exists_partner_at hoperands hv
  obtain rfl : true = operand := Option.some.inj (hoperand.symm.trans hoperand')
  rw [htype]
  exact ⟨v, hv, describes_of_isOperand hprofile hsound hchoices hsolve (hisOperand rfl)⟩

/-- By the profiles of both dialects, each placeholder that is an operand of arithmetic is described
with the type of a result. This is numeric, unless a choice of the statement takes it out of the
numeric types for good; it always is in a statement without CASE, COALESCE and IFNULL. -/
theorem describe_operands {schema : Schema} {dialect : Dialect} {s : Statement} {d : Description}
    (h : describe ⟨schema, .ofDialect dialect⟩ s = .ok d) :
    s.operands.length = (d.data ++ d.parameters).length ∧
      ∀ (i : Nat) (p : ResultParameter), s.operands[i]? = some true →
        (d.data ++ d.parameters)[i]? = some p →
          (s.choices = [] → p.type.isNumeric = true) ∧
          ∃ v, (s.lastRun ⟨schema, .ofDialect dialect⟩).vars[i]? = some v ∧
            DescribesOperand (.ofDialect dialect) s.choices
              (s.lastRun ⟨schema, .ofDialect dialect⟩).constraints v p.type := by
  obtain ⟨hlength, hall⟩ := describesOperand_of_described dialect.countsInNumbers h
  refine ⟨hlength, fun i p hoperand hp => ?_⟩
  obtain ⟨v, hv, hdescribes⟩ := hall i p hoperand hp
  refine ⟨fun hnone => ?_, v, hv, hdescribes⟩
  rw [hnone] at hdescribes
  exact hdescribes.isNumeric

/-- `SELECT (?) * 2 AS a, COALESCE(? + 1, 'a') AS b`. -/
def productAndChoice : Select :=
  ⟨[], [⟨false, [.expr (.arithmetic .mul (.paren (.parameter none)) (.literal (.int 2))) (some "a"),
    .expr (.call "COALESCE" false [.arithmetic .add (.parameter none) (.literal (.int 1)),
      .literal (.string "a")]) (some "b")], [], [], none, [], none⟩], [], none⟩

/-- Of two operands, the one of the product is a double; the sum of the other may give way to a text. -/
theorem describe_operands_productAndChoice :
    ∃ d, describe ⟨oneTable, .ofDialect .mysql⟩ (.select productAndChoice) = .ok d ∧
      (d.data ++ d.parameters).map (·.type) = [.double, .varchar] ∧
      ∀ (i : Nat) (p : ResultParameter), [true, true][i]? = some true →
        (d.data ++ d.parameters)[i]? = some p →
          ∃ v, ((Statement.select productAndChoice).lastRun
              ⟨oneTable, .ofDialect .mysql⟩).vars[i]? = some v ∧
            DescribesOperand (.ofDialect .mysql) ["COALESCE(? + 1, 'a')"]
              ((Statement.select productAndChoice).lastRun
                ⟨oneTable, .ofDialect .mysql⟩).constraints v p.type := by
  have hd : (describe ⟨oneTable, .ofDialect .mysql⟩ (.select productAndChoice)).isOk = true := by
    decide +kernel
  have htypes : (describe ⟨oneTable, .ofDialect .mysql⟩ (.select productAndChoice)).toOption.map
      (fun d => (d.data ++ d.parameters).map (·.type)) = some [.double, .varchar] := by
    decide +kernel
  obtain ⟨d, hd⟩ := exists_of_isOk hd
  rw [hd] at htypes
  have hoperands : (Statement.select productAndChoice).operands = [true, true] := by decide +kernel
  have hchoices : (Statement.select productAndChoice).choices = ["COALESCE(? + 1, 'a')"] := by
    decide +kernel
  obtain ⟨-, hall⟩ := describe_operands hd
  rw [hoperands, hchoices] at hall
  exact ⟨d, hd, Option.some.inj htypes, fun i p hoperand hp => (hall i p hoperand hp).2⟩

/-- `SELECT COALESCE(? + 1, 'a')`. -/
def sumOrText : Select :=
  ⟨[], [⟨false, [.expr (.call "COALESCE" false [.arithmetic .add (.parameter none) (.literal (.int 1)),
    .literal (.string "a")]) none], [], [], none, [], none⟩], [], none⟩

/-- An operand of a sum that may give way to a text is described as a text. -/
theorem operand_beside_text : (Statement.select sumOrText).operands = [true] ∧
    (describe ⟨oneTable, .ofDialect .mysql⟩ (.select sumOrText)).toOption.map
      (fun d => (d.data ++ d.parameters).map (·.type)) = some [.varchar] ∧
    SqlType.varchar.isNumeric = false := by
  refine ⟨?_, ?_, rfl⟩
  · decide +kernel
  · decide +kernel

end QuerySignature
