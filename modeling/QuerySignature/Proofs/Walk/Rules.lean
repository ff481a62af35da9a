import QuerySignature.Analysis.Function
import QuerySignature.Proofs.Alike

namespace QuerySignature

/-! # Rules of functions

A function has a rule for as many arguments as it looks at, and several functions share one. Here the
functions are told apart, once for all: the rules of one function for two lists of arguments have a
relation that their forms have, and so the rule for a single list has one of the forms.

- `RulesAgree.rule?`: a relation of rules from that of their forms.
- `SqlFunction.ruleForm`: the form of a rule.
-/

/-! ## Two lists of arguments -/

/-- A relation of steps that the forms have which the rules of a function may have, for arguments that
are related one by one and may be null alike. -/
structure RulesAgree (profile : Profile) (label label' : String) (f : SqlFunction)
    (R : Inferred → Inferred → Prop) (es es' : List Inferred)
    (S : Analyze Inferred → Analyze Inferred → Prop) : Prop where
  arguments : List.Forall₂ R es es'
  notNull : ∀ {e e' : Inferred}, R e e' → e'.notNull = e.notNull
  placeholder : ∀ {e e' : Inferred}, R e e' → e'.placeholder.isNone = e.placeholder.isNone
  count :
    S (do
        let var ← freshExact label profile.countType
        pure (.ofVar var true))
      (do
        let var ← freshExact label' profile.countType
        pure (.ofVar var true))
  concat : S (inferConcat profile label es) (inferConcat profile label' es')
  choice : f = .coalesce ∨ f = .ifNull → ∀ notNull : Bool,
    S (inferChoice label es notNull) (inferChoice label' es' notNull)
  date : f = .date ∨ f = .time ∨ f = .dateTime ∨ f = .strftime → ∀ {e e' : Inferred}, R e e' →
    S (inferDate profile label e) (inferDate profile label' e')
  sum : ∀ {e e' : Inferred}, R e e' → S (inferSum label e) (inferSum label' e')
  avg : ∀ {e e' : Inferred}, R e e' → S (inferAvg profile label e) (inferAvg profile label' e')
  extreme : ∀ {e e' : Inferred}, R e e' → S (inferExtreme label e) (inferExtreme label' e')
  round : ∀ {e e' : Inferred} {digits digits' : Option Inferred}, R e e' →
    Option.Rel R digits digits' →
    S (inferRound profile label e digits) (inferRound profile label' e' digits')
  floor : ∀ {e e' : Inferred}, R e e' →
    S (inferFloor profile label e) (inferFloor profile label' e')
  text : ∀ {e e' : Inferred}, R e e' → S (inferText profile label e) (inferText profile label' e')
  length : ∀ {e e' : Inferred}, R e e' →
    S (inferLength profile label e) (inferLength profile label' e')

namespace RulesAgree

variable {profile : Profile} {label label' : String} {f : SqlFunction}
  {R : Inferred → Inferred → Prop} {es es' : List Inferred}
  {S : Analyze Inferred → Analyze Inferred → Prop}

/-- The rules of a function for both lists, if it has one for so many arguments. -/
theorem rule? (h : RulesAgree profile label label' f R es es' S) :
    Option.Rel S (f.rule? profile label es) (f.rule? profile label' es') := by
  have harguments := h.arguments
  have hall : allNotNull es' = allNotNull es := all_eq_of_rel harguments fun _ _ => h.notNull
  have hnone : (es'.all fun e => e.notNull && e.placeholder.isNone) =
      es.all fun e => e.notNull && e.placeholder.isNone :=
    all_eq_of_rel harguments fun _ _ he => by rw [h.notNull he, h.placeholder he]
  -- a rule looks at the first arguments, which both lists have or both lack
  cases f with
  | count => exact .some h.count
  | concat | concatWs => exact .some h.concat
  | coalesce =>
    show Option.Rel _ (some (inferChoice label es (allNotNull es)))
      (some (inferChoice label' es' (allNotNull es')))
    rw [hall]
    exact .some (h.choice (.inl rfl) _)
  | ifNull =>
    show Option.Rel _
      (some (inferChoice label es (es.all fun e => e.notNull && e.placeholder.isNone)))
      (some (inferChoice label' es' (es'.all fun e => e.notNull && e.placeholder.isNone)))
    rw [hnone]
    exact .some (h.choice (.inr rfl) _)
  | strftime =>
    cases harguments with
    | nil => exact .none
    | cons _ hrest =>
      cases hrest with
      | nil => exact .none
      | cons he _ => exact .some (h.date (.inr (.inr (.inr rfl))) he)
  | date | time | dateTime =>
    cases harguments with
    | nil => exact .none
    | cons he _ => exact .some (h.date (by simp) he)
  | sum =>
    cases harguments with
    | nil => exact .none
    | cons he _ => exact .some (h.sum he)
  | avg =>
    cases harguments with
    | nil => exact .none
    | cons he _ => exact .some (h.avg he)
  | min | max =>
    cases harguments with
    | nil => exact .none
    | cons he _ => exact .some (h.extreme he)
  | round =>
    cases harguments with
    | nil => exact .none
    | cons he hrest => exact .some (h.round he (rel_head? hrest))
  | floor =>
    cases harguments with
    | nil => exact .none
    | cons he _ => exact .some (h.floor he)
  | upper | lower | trim =>
    cases harguments with
    | nil => exact .none
    | cons he _ => exact .some (h.text he)
  | length =>
    cases harguments with
    | nil => exact .none
    | cons he _ => exact .some (h.length he)

end RulesAgree

/-! ## The form of a rule -/

/-- What the rules of functions are: most make a variable and tie it to one argument, some look at all
arguments. -/
inductive RuleForm (profile : Profile) (label : String) (arguments : List Inferred)
    (f : SqlFunction) : Analyze Inferred → Prop
  | count : RuleForm profile label arguments f do
      let var ← freshExact label profile.countType
      pure (.ofVar var true)
  | concat : RuleForm profile label arguments f (inferConcat profile label arguments)
  | choice (isChoice : f = .coalesce ∨ f = .ifNull) (notNull : Bool) :
    RuleForm profile label arguments f (inferChoice label arguments notNull)
  | date (isDate : f = .date ∨ f = .time ∨ f = .dateTime ∨ f = .strftime) {argument : Inferred}
      (mem : argument ∈ arguments) :
    RuleForm profile label arguments f (inferDate profile label argument)
  | sum {argument : Inferred} (mem : argument ∈ arguments) :
    RuleForm profile label arguments f (inferSum label argument)
  | avg {argument : Inferred} (mem : argument ∈ arguments) :
    RuleForm profile label arguments f (inferAvg profile label argument)
  | extreme {argument : Inferred} (mem : argument ∈ arguments) :
    RuleForm profile label arguments f (inferExtreme label argument)
  | round {argument : Inferred} (mem : argument ∈ arguments) {digits : Option Inferred}
      (digits_mem : ∀ d ∈ digits, d ∈ arguments) :
    RuleForm profile label arguments f (inferRound profile label argument digits)
  | floor {argument : Inferred} (mem : argument ∈ arguments) :
    RuleForm profile label arguments f (inferFloor profile label argument)
  | text {argument : Inferred} (mem : argument ∈ arguments) :
    RuleForm profile label arguments f (inferText profile label argument)
  | length {argument : Inferred} (mem : argument ∈ arguments) :
    RuleForm profile label arguments f (inferLength profile label argument)

/-- An argument, related to itself, is one of the arguments. -/
theorem RuleForm.agree (profile : Profile) (label : String) (f : SqlFunction)
    (arguments : List Inferred) :
    RulesAgree profile label label f (fun e e' => e' = e ∧ e ∈ arguments) arguments arguments
      fun rule _ => RuleForm profile label arguments f rule where
  arguments := List.forall₂_same.2 fun _ he => ⟨rfl, he⟩
  notNull he := by rw [he.1]
  placeholder he := by rw [he.1]
  count := .count
  concat := .concat
  choice isChoice notNull := .choice isChoice notNull
  date isDate _ _ he := .date isDate he.2
  sum he := .sum he.2
  avg he := .avg he.2
  extreme he := .extreme he.2
  round he hdigits := by
    refine .round he.2 fun d hd => ?_
    cases hdigits with
    | none => cases hd
    | some hmem =>
      cases hd
      exact hmem.2
  floor he := .floor he.2
  text he := .text he.2
  length he := .length he.2

/-- The rule of a function has one of the forms. -/
theorem SqlFunction.ruleForm {profile : Profile} {label : String} {f : SqlFunction}
    {arguments : List Inferred} {rule : Analyze Inferred}
    (h : f.rule? profile label arguments = some rule) : RuleForm profile label arguments f rule := by
  have hrules := (RuleForm.agree profile label f arguments).rule?
  rw [h] at hrules
  cases hrules with
  | some hform => exact hform

end QuerySignature
