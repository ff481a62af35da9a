import QuerySignature.Decimal.Layout

namespace QuerySignature

/-! # JSON values

Schema records, profiles, fragment lists and the cells of result rows are JSON. An object keeps
its fields sorted by name and each name once; the last value given for a name stays.

- `Json.find?_put`: a name that was put is found with its new value, all others as before.
-/

/-- A JSON value. Whole numbers and doubles are told apart, as are `1` and `1.0`. -/
inductive Json where
  | null
  | bool (value : Bool)
  | int (value : Int)
  | float (value : Float)
  | text (value : String)
  | list (items : List Json)
  | object (fields : List (String × Json))
  deriving Inhabited

namespace Json

/-- Puts a field into a sorted field list, in place of an earlier one of the same name. -/
def put (name : String) (value : Json) : List (String × Json) → List (String × Json)
  | [] => [(name, value)]
  | (other, old) :: rest =>
    if name = other then (name, value) :: rest
    else if name < other then (name, value) :: (other, old) :: rest
    else (other, old) :: put name value rest

/-- The field of a name. -/
def find? (name : String) : List (String × Json) → Option Json
  | [] => none
  | (other, value) :: rest => if name = other then some value else find? name rest

theorem find?_put (name other : String) (value : Json) (fields : List (String × Json)) :
    find? other (put name value fields) =
      if other = name then some value else find? other fields := by
  induction fields with
  | nil => simp [put, find?]
  | cons field rest ih =>
    obtain ⟨key, old⟩ := field
    by_cases hk : name = key
    · subst hk
      by_cases ho : other = name <;> simp [put, find?, ho]
    · by_cases hlt : name < key
      · by_cases ho : other = name <;> simp [put, find?, hk, hlt, ho]
      · by_cases ho : other = key
        · subst ho
          have hne : ¬ other = name := fun h => hk h.symm
          simp [put, find?, hk, hlt, hne]
        · simp [put, find?, hk, hlt, ho, ih]

/-- An object of the given fields; of equal names the last one counts. -/
def ofFields (fields : List (String × Json)) : Json :=
  .object (fields.foldl (fun done (name, value) => put name value done) [])

/-- The value of a field, when the value is an object that has it. -/
def field? (value : Json) (name : String) : Option Json :=
  match value with
  | .object fields => find? name fields
  | _ => none

end Json

end QuerySignature
