import QuerySignature.Json.Value

namespace QuerySignature

/-! # Values out of JSON

A record is written as an object of named fields or as the list of its values in order. A choice
among names is written as the name, or as an object whose only field has that name and no content.
-/

namespace Json

/-- The text of a string. -/
def text? : Json → Option String
  | .text s => some s
  | _ => none

/-- The value of a boolean. -/
def bool? : Json → Option Bool
  | .bool b => some b
  | _ => none

/-- The value of a whole number that is not negative. -/
def nat? : Json → Option Nat
  | .int n => if 0 ≤ n then some n.toNat else none
  | _ => none

/-- The name of a choice. -/
def choice? : Json → Option String
  | .text s => some s
  | .object [(name, .null)] => some name
  | _ => none

/-- The items of a list, each read by `item?`. -/
def listOf? {α : Type} (item? : Json → Option α) : Json → Option (List α)
  | .list items => items.mapM item?
  | _ => none

/-- A text that may be null. -/
def nullableText? : Json → Option (Option String)
  | .null => some none
  | .text s => some (some s)
  | _ => none

/-- The value at a field of an object or at a place of a list; `none` for any other value. -/
def member? (value : Json) (name : String) (place : Nat) : Option (Option Json) :=
  match value with
  | .object fields => some (find? name fields)
  | .list items => some items[place]?
  | _ => none

/-- A member that must be there. -/
def required? {α : Type} (read? : Json → Option α) (value : Json) (name : String) (place : Nat) :
    Option α :=
  (value.member? name place).join.bind read?

/-- A member that may be missing. -/
def optional? {α : Type} (read? : Json → Option α) (default : α) (value : Json) (name : String)
    (place : Nat) : Option α :=
  match value.member? name place with
  | none => none
  | some none => some default
  | some (some member) => read? member

/-- Whether a list has at most the given number of items; an object may have any fields. -/
def fits (value : Json) (size : Nat) : Bool :=
  match value with
  | .list items => items.length ≤ size
  | _ => true

end Json

end QuerySignature
