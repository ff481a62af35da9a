import QuerySignature.Profile
import QuerySignature.TypeVar

namespace QuerySignature

/-! # Merging two types

What is known of a class of variables after two classes become one. An equation keeps the left
type of two compatible ones, except that a point in time wins over text; a widening takes the
wider type, with `number` in the place of the profile's type of doubles.

- `TypeInfo.equate_unknown_left`, `TypeInfo.equate_unknown_right`: the unknown adopts the other
  side.
- `TypeInfo.equate_self`: what is known agrees with itself.
- `TypeInfo.merge?_eq_or`: without a coercion, merging gives one of the two sides.
-/

namespace TypeInfo

/-- What is known of two sides of an equation, if it can hold. -/
def equate : TypeInfo → TypeInfo → Option TypeInfo
  | unknown, other => some other
  | other, unknown => some other
  | number, number => some number
  | number, exact t => if t.isNumeric then some (exact t) else none
  | exact t, number => if t.isNumeric then some (exact t) else none
  | exact a, exact b =>
    if a.compatible b then
      if b.family == .temporal && a.family == .text then some (exact b) else some (exact a)
    else none

@[simp] theorem equate_unknown_left (other : TypeInfo) : equate unknown other = some other := by
  cases other <;> rfl

@[simp] theorem equate_unknown_right (other : TypeInfo) : equate other unknown = some other := by
  cases other <;> rfl

@[simp] theorem equate_self (info : TypeInfo) : equate info info = some info := by
  cases info <;> simp [equate]

theorem equate_eq_or {left right info : TypeInfo} (h : equate left right = some info) :
    info = left ∨ info = right := by
  revert h
  fun_cases equate left right <;> simp +contextual [eq_comm]

/-- The type of a sum of values of a type. -/
def sumType (profile : Profile) : SqlType → SqlType
  | .tinyInt | .smallInt | .mediumInt | .int | .bigInt | .year | .storageInteger =>
    profile.sumIntegerType
  | .decimal => .decimal
  | .storageNumeric => .storageNumeric
  | _ => profile.floatType

/-- A side of a widening, relaxed. -/
def coerce (profile : Profile) (coercion : Option Coercion) (info : TypeInfo) : TypeInfo :=
  match info, coercion with
  | exact t, some .sum => if t.isNumeric then exact t else exact profile.floatType
  | exact t, some .sumFunction => exact (sumType profile t)
  | info, _ => info

@[simp] theorem coerce_none (profile : Profile) (info : TypeInfo) :
    coerce profile none info = info := by
  cases info <;> rfl

/-- Whether a place in the order of widening lies above another; no place lies below every place. -/
def rankAbove : Option Nat → Option Nat → Bool
  | some a, some b => b < a
  | some _, none => true
  | none, _ => false

/-- The wider of two sides. -/
def widest (profile : Profile) : TypeInfo → TypeInfo → TypeInfo
  | unknown, other => other
  | other, unknown => other
  | number, number => number
  | number, exact t => if rankAbove t.rank profile.floatType.rank then exact t else number
  | exact t, number =>
    if t.rank.isNone || rankAbove t.rank profile.floatType.rank then exact t else number
  | exact a, exact b => exact (a.widest b)

theorem widest_eq_or (profile : Profile) (left right : TypeInfo) :
    widest profile left right = left ∨ widest profile left right = right := by
  fun_cases widest profile left right with
  | case8 a b => simpa using a.widest_eq_or b
  | _ => simp

/-- What is known of two sides of a constraint that become one class, if they can. -/
def merge? (profile : Profile) (strength : Strength) (coercion : Option Coercion)
    (left right : TypeInfo) : Option TypeInfo :=
  match strength with
  | .widest => some (widest profile (coerce profile coercion left) (coerce profile coercion right))
  | .strict | .bestEffort => equate left right

theorem merge?_eq_or {profile : Profile} {strength : Strength} {coercion : Option Coercion}
    {left right info : TypeInfo} (hplain : strength = .widest → coercion = none)
    (h : merge? profile strength coercion left right = some info) :
    info = left ∨ info = right := by
  cases strength with
  | strict => exact equate_eq_or h
  | bestEffort => exact equate_eq_or h
  | widest =>
    rw [hplain rfl, merge?, coerce_none, coerce_none, Option.some.injEq] at h
    exact h ▸ widest_eq_or profile left right

end TypeInfo

end QuerySignature
