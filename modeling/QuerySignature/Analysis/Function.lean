import QuerySignature.Analysis.Run

namespace QuerySignature

/-! # Functions

The functions a statement may call, and what a call says of its arguments and its result. Names
are read in any case.

- `SqlFunction.ofName?_name`: a function is found by its own name.
-/

/-- A built-in function. -/
inductive SqlFunction where
  | avg
  | coalesce
  | concat
  | concatWs
  | count
  | date
  | dateTime
  | floor
  | ifNull
  | length
  | lower
  | max
  | min
  | round
  | strftime
  | sum
  | time
  | trim
  | upper
  deriving DecidableEq, Repr, Inhabited

namespace SqlFunction

/-- All functions, in the order of their names. -/
def all : List SqlFunction :=
  [avg, coalesce, concat, concatWs, count, date, dateTime, floor, ifNull, length, lower, max, min,
    round, strftime, sum, time, trim, upper]

/-- The name of a function. -/
def name : SqlFunction → String
  | avg => "avg"
  | coalesce => "coalesce"
  | concat => "concat"
  | concatWs => "concat_ws"
  | count => "count"
  | date => "date"
  | dateTime => "datetime"
  | floor => "floor"
  | ifNull => "ifnull"
  | length => "length"
  | lower => "lower"
  | max => "max"
  | min => "min"
  | round => "round"
  | strftime => "strftime"
  | sum => "sum"
  | time => "time"
  | trim => "trim"
  | upper => "upper"

/-- The function of a name in any case. -/
def ofName? (name : String) : Option SqlFunction :=
  all.find? fun f => sameName f.name name

/-- How many arguments a function takes. -/
def arity : SqlFunction → Arity
  | count => ⟨0, some 1⟩
  | avg | sum | min | max | floor | length | lower | upper | trim => ⟨1, some 1⟩
  | round => ⟨1, some 2⟩
  | ifNull => ⟨2, some 2⟩
  | concat | coalesce | date | time | dateTime => ⟨1, none⟩
  | concatWs | strftime => ⟨2, none⟩

/-- Whether a function makes one value of a group of rows. -/
def isAggregate : SqlFunction → Bool
  | avg | count | max | min | sum => true
  | _ => false

theorem ofName?_name (f : SqlFunction) : ofName? f.name = some f := by
  cases f <;> rfl

end SqlFunction

/-! ## Rules -/

/-- Whether no argument can be null. -/
def allNotNull (arguments : List Inferred) : Bool := arguments.all (·.notNull)

/-- Asks that every argument have the type of a variable, as far as it can. -/
def demandText (label : String) (var : TypeVar) : List Inferred → Analyze Unit
  | [] => pure ()
  | argument :: rest => do
    demand (.bestEffort label var argument.var)
    demandText label var rest

/-- Widens a variable by every argument. -/
def demandWidest (label : String) (var : TypeVar) : List Inferred → Analyze Unit
  | [] => pure ()
  | argument :: rest => do
    demand (.widest label none var argument.var)
    demandWidest label var rest

/-- A text made of all arguments. -/
def inferConcat (profile : Profile) (label : String) (arguments : List Inferred) :
    Analyze Inferred := do
  let var ← freshExact label profile.textType
  demandText label var arguments
  pure (.ofVar var (allNotNull arguments))

/-- One of the arguments. -/
def inferChoice (label : String) (arguments : List Inferred) (notNull : Bool) :
    Analyze Inferred := do
  let var ← fresh label .unknown
  demandWidest label var arguments
  pure (.ofVar var notNull)

/-- The least or greatest value of the argument. -/
def inferExtreme (label : String) (argument : Inferred) : Analyze Inferred := do
  let var ← fresh label .unknown
  demand (.bestEffort label var argument.var)
  pure (.ofVar var argument.notNull)

/-- A sum; it is null over no rows. -/
def inferSum (label : String) (argument : Inferred) : Analyze Inferred := do
  let var ← fresh label .unknown
  demand (.widest label (some .sumFunction) var argument.var)
  pure (.ofVar var false)

/-- A mean; it is null over no rows. -/
def inferAvg (profile : Profile) (label : String) (argument : Inferred) : Analyze Inferred := do
  let numeric ← fresh label .number
  demand (.bestEffort label argument.var numeric)
  let var ← freshExact label profile.avgType
  pure (.ofVar var false)

/-- The argument rounded, in its own type. -/
def inferRound (profile : Profile) (label : String) (argument : Inferred)
    (digits : Option Inferred) : Analyze Inferred := do
  let var ← fresh label .unknown
  demand (.strict label (.var var) (.var argument.var))
  match digits with
  | none => pure (.ofVar var argument.notNull)
  | some digits =>
    let integer ← freshExact label profile.integerLiteralType
    demand (.bestEffort digits.var.label digits.var integer)
    pure (.ofVar var (argument.notNull && digits.notNull))

/-- The argument rounded down to an integer. -/
def inferFloor (profile : Profile) (label : String) (argument : Inferred) : Analyze Inferred := do
  let float ← freshExact label profile.floatType
  demand (.bestEffort label argument.var float)
  let var ← freshExact label profile.floorType
  pure (.ofVar var argument.notNull)

/-- A date as text; it is null where the argument is no date. -/
def inferDate (profile : Profile) (label : String) (argument : Inferred) : Analyze Inferred := do
  let date ← freshExact argument.var.label profile.dateType
  demand (.bestEffort argument.var.label date argument.var)
  forceNotNull argument
  let var ← freshExact label profile.textType
  pure (.ofVar var false)

/-- A text changed. -/
def inferText (profile : Profile) (label : String) (argument : Inferred) : Analyze Inferred := do
  let var ← freshExact label profile.textType
  demand (.bestEffort label var argument.var)
  pure (.ofVar var argument.notNull)

/-- The length of a text. -/
def inferLength (profile : Profile) (label : String) (argument : Inferred) : Analyze Inferred := do
  let text ← freshExact label profile.textType
  demand (.bestEffort label text argument.var)
  let var ← freshExact label profile.integerLiteralType
  pure (.ofVar var argument.notNull)

/-- What a call of a function says, for arguments in a number that it takes; `none` for any other
number that its rule has no use for. -/
def SqlFunction.rule? (profile : Profile) (label : String) (f : SqlFunction)
    (arguments : List Inferred) : Option (Analyze Inferred) :=
  match f, arguments with
  | .count, _ => some do
    let var ← freshExact label profile.countType
    pure (.ofVar var true)
  | .concat, arguments | .concatWs, arguments => some (inferConcat profile label arguments)
  | .coalesce, arguments => some (inferChoice label arguments (allNotNull arguments))
  | .ifNull, arguments =>
    some (inferChoice label arguments
      (arguments.all fun argument => argument.notNull && argument.placeholder.isNone))
  | .strftime, _ :: argument :: _ => some (inferDate profile label argument)
  | .date, argument :: _ | .time, argument :: _ | .dateTime, argument :: _ =>
    some (inferDate profile label argument)
  | .sum, argument :: _ => some (inferSum label argument)
  | .avg, argument :: _ => some (inferAvg profile label argument)
  | .min, argument :: _ | .max, argument :: _ => some (inferExtreme label argument)
  | .round, argument :: rest => some (inferRound profile label argument rest.head?)
  | .floor, argument :: _ => some (inferFloor profile label argument)
  | .upper, argument :: _ | .lower, argument :: _ | .trim, argument :: _ =>
    some (inferText profile label argument)
  | .length, argument :: _ => some (inferLength profile label argument)
  | _, _ => none

/-- A call: the function must exist and take as many arguments. -/
def inferCall (profile : Profile) (function label : String) (arguments : List Inferred) :
    Analyze Inferred :=
  match SqlFunction.ofName? function with
  | none => throw (.unknownFunction function)
  | some f =>
    let refusal := AnalysisError.wrongArity f.name f.arity arguments.length
    if f.arity.admits arguments.length then
      match f.rule? profile label arguments with
      | some rule => do
        let result ← rule
        pure { result with aggregate := result.aggregate || f.isAggregate }
      | none => throw refusal
    else throw refusal

/-- A call fails, or it is the rule of the function of its name. -/
theorem inferCall_cases (profile : Profile) (function label : String) (arguments : List Inferred) :
    (∃ e, inferCall profile function label arguments = throw e) ∨
    ∃ f rule, SqlFunction.ofName? function = some f ∧
      f.arity.admits arguments.length = true ∧ f.rule? profile label arguments = some rule ∧
      inferCall profile function label arguments =
        (rule >>= fun result => pure { result with aggregate := result.aggregate || f.isAggregate }) := by
  unfold inferCall
  cases hf : SqlFunction.ofName? function with
  | none => exact .inl ⟨_, rfl⟩
  | some f =>
    dsimp only
    by_cases hadmits : f.arity.admits arguments.length = true
    · rw [if_pos hadmits]
      cases hrule : f.rule? profile label arguments with
      | none => exact .inl ⟨_, rfl⟩
      | some rule => exact .inr ⟨f, rule, rfl, hadmits, hrule, rfl⟩
    · rw [if_neg hadmits]
      exact .inl ⟨_, rfl⟩

end QuerySignature
