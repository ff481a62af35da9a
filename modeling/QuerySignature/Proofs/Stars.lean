import QuerySignature.Proofs.Described
import QuerySignature.Proofs.Sources.Resolved

namespace QuerySignature

/-! # Stars in expressions

The star of `COUNT(*)` may stand among the arguments of a call, and nowhere else. It is not counted as
an argument, so that a call with a star is read as the call without it.

- `admits_of_inferCall`: a call is read only if its function takes as many arguments;
- `requires_stars_expr`: an expression is read only if each star stands in a call that is read without
  it;
- `stars_of_inferExpr`: so a star that is the only argument is one that COUNT counts rows by.
-/

/-! ## Where stars stand -/

/-- The place of a star. -/
inductive StarPlace where
  /-- Among the arguments of a call. -/
  | argument (function : String) (arguments : List Expr)
  | elsewhere

namespace StarPlace

/-- The star is all that a call of COUNT is given. -/
def CountsRows : StarPlace → Prop
  | argument function arguments => sameName function "count" = true ∧ arguments = [.star]
  | elsewhere => False

/-- The star is the only argument of a call. -/
def Sole : StarPlace → Prop
  | argument _ arguments => arguments = [.star]
  | elsewhere => False

/-- There is a function for the call, and it takes the arguments that are no stars. -/
def Admitted : StarPlace → Prop
  | argument function arguments => ∃ f, SqlFunction.ofName? function = some f ∧
      f.arity.admits (arguments.filter fun e => !e.isStar).length = true
  | elsewhere => False

/-- No function but COUNT can be called without arguments. -/
theorem Admitted.countsRows_iff {place : StarPlace} (h : place.Admitted) :
    place.CountsRows ↔ place.Sole := by
  cases place with
  | elsewhere => exact h.elim
  | argument function arguments =>
    refine ⟨And.right, fun hsole => ⟨?_, hsole⟩⟩
    obtain ⟨f, hname, hadmits⟩ := h
    obtain rfl : arguments = [.star] := hsole
    have hcount : f = .count := by
      cases f <;> first | rfl | cases hadmits
    have hfound := List.find?_some hname
    rw [hcount] at hfound
    exact sameName_symm hfound

end StarPlace

namespace Expr

mutual

/-- The places of the stars of an expression that stand outside of inner queries. -/
def stars : Expr → List StarPlace
  | .star => [.elsewhere]
  | .literal _ | .column _ | .parameter _ | .scalar _ | .hasRows _ => []
  | .arithmetic _ left right | .compare _ left right | .like _ left right | .and left right
  | .or left right => left.stars ++ right.stars
  | .between _ value low high => value.stars ++ (low.stars ++ high.stars)
  | .inList _ value items => value.stars ++ starsOfAll items
  | .inQuery _ value _ | .isNull _ value | .not value | .paren value => value.stars
  | .call function _ arguments =>
    starsOfArguments arguments ++
      (arguments.filter isStar).map fun _ => .argument function arguments
  | .case operand branches otherwise =>
    starsOfSome operand ++ (starsOfBranches branches ++ starsOfSome otherwise)

/-- The places of the stars of a list. -/
def starsOfAll : List Expr → List StarPlace
  | [] => []
  | e :: rest => e.stars ++ starsOfAll rest

/-- The places of the stars inside of arguments. -/
def starsOfArguments : List Expr → List StarPlace
  | [] => []
  | e :: rest => (if e.isStar then [] else e.stars) ++ starsOfArguments rest

/-- The places of the stars of an expression that may be missing. -/
def starsOfSome : Option Expr → List StarPlace
  | none => []
  | some e => e.stars

/-- The places of the stars of the branches of a CASE. -/
def starsOfBranches : List WhenThen → List StarPlace
  | [] => []
  | ⟨condition, result⟩ :: rest => condition.stars ++ (result.stars ++ starsOfBranches rest)

end

end Expr

/-! ## Calls -/

/-- The arguments of a call are those that are no stars. -/
theorem length_of_inferArguments {setting : Setting} {scope : Scope} {es : List Expr} {r s : Run}
    {inferred : List Inferred}
    (h : (inferArguments setting scope es).outcome r = .ok (inferred, s)) :
    inferred.length = (es.filter fun e => !e.isStar).length := by
  induction es generalizing r s inferred with
  | nil =>
    cases h
    rfl
  | cons e rest ih =>
    unfold inferArguments at h
    rw [List.filter_cons]
    cases hstar : e.isStar with
    | true =>
      rw [if_pos hstar] at h
      exact ih h
    | false =>
      rw [if_neg (by rw [hstar]; exact Bool.false_ne_true)] at h
      simp only [Analyze.outcome_bind] at h
      rcases bind_eq_ok.1 h with ⟨first, -, h⟩
      rcases bind_eq_ok.1 h with ⟨others, hothers, h⟩
      cases h
      exact congrArg (· + 1) (ih hothers)

/-- A call is read only if there is a function of its name that takes as many arguments. -/
theorem admits_of_inferCall {profile : Profile} {function label : String}
    {arguments : List Inferred} {r s : Run} {inferred : Inferred}
    (h : (inferCall profile function label arguments).outcome r = .ok (inferred, s)) :
    ∃ f, SqlFunction.ofName? function = some f ∧ f.arity.admits arguments.length = true := by
  obtain ⟨e, heq⟩ | ⟨f, rule, hf, hadmits, -⟩ := inferCall_cases profile function label arguments
  · rw [heq] at h
    cases h
  · exact ⟨f, hf, hadmits⟩

/-! ## Expressions -/

section

open Analyze.Requires

mutual

theorem requires_stars_expr (setting : Setting) (scope : Scope) (e : Expr) :
    (inferExpr setting scope e).Requires StarPlace.Admitted e.stars := by
  match e with
  | .star => exact throw _
  | .literal _ | .column _ | .parameter _ | .scalar _ | .hasRows _ => exact nil
  | .paren inner => exact requires_stars_expr setting scope inner
  | .arithmetic _ left right | .compare _ left right | .like _ left right | .and left right
  | .or left right =>
    exact (requires_stars_expr setting scope left).bind fun _ =>
      first (requires_stars_expr setting scope right)
  | .between _ value low high =>
    exact (requires_stars_expr setting scope value).bind fun _ =>
      (requires_stars_expr setting scope low).bind fun _ =>
        first (requires_stars_expr setting scope high)
  | .inList _ value items =>
    refine (requires_stars_expr setting scope value).bind fun _ => later fun _ => ?_
    cases hsole : soleParameter? items with
    | none => exact first (requires_stars_all setting scope items)
    | some name =>
      obtain rfl := eq_of_soleParameter? hsole
      exact nil
  | .inQuery _ value _ | .isNull _ value | .not value =>
    exact first (requires_stars_expr setting scope value)
  | .call function distinct arguments =>
    intro r inferred s hrun place hplace
    have hinside := requires_stars_arguments setting scope arguments
    unfold inferExpr at hrun
    rw [Analyze.outcome_bind] at hrun
    rcases bind_eq_ok.1 hrun with ⟨⟨found, t⟩, harguments, hcall⟩
    rcases List.mem_append.1 hplace with hplace | hplace
    · exact hinside r found t harguments place hplace
    · -- a star among the arguments leaves the call to the others
      obtain ⟨-, -, rfl⟩ := List.mem_map.1 hplace
      have hadmits := admits_of_inferCall hcall
      rwa [length_of_inferArguments harguments] at hadmits
  | .case operand branches otherwise =>
    refine (requires_stars_some setting scope operand).bind fun o => later fun result => ?_
    exact (requires_stars_branches setting scope o result branches).bind fun _ =>
      first (requires_stars_else setting scope result otherwise)

theorem requires_stars_all (setting : Setting) (scope : Scope) (es : List Expr) :
    (inferAll setting scope es).Requires StarPlace.Admitted (Expr.starsOfAll es) := by
  match es with
  | [] => exact nil
  | e :: rest =>
    exact (requires_stars_expr setting scope e).bind fun _ =>
      first (requires_stars_all setting scope rest)

theorem requires_stars_arguments (setting : Setting) (scope : Scope) (es : List Expr) :
    (inferArguments setting scope es).Requires StarPlace.Admitted (Expr.starsOfArguments es) := by
  match es with
  | [] => exact nil
  | e :: rest =>
    unfold inferArguments Expr.starsOfArguments
    split
    case isTrue => exact requires_stars_arguments setting scope rest
    case isFalse =>
      exact (requires_stars_expr setting scope e).bind fun _ =>
        first (requires_stars_arguments setting scope rest)

theorem requires_stars_some (setting : Setting) (scope : Scope) (o : Option Expr) :
    (inferSome setting scope o).Requires StarPlace.Admitted (Expr.starsOfSome o) := by
  match o with
  | none => exact nil
  | some e => exact first (requires_stars_expr setting scope e)

theorem requires_stars_branches (setting : Setting) (scope : Scope) (operand : Option Inferred)
    (result : TypeVar) (branches : List WhenThen) :
    (inferBranches setting scope operand result branches).Requires StarPlace.Admitted
      (Expr.starsOfBranches branches) := by
  match branches with
  | [] => exact nil
  | ⟨condition, value⟩ :: rest =>
    refine (requires_stars_expr setting scope condition).bind fun _ => later fun _ => ?_
    exact (requires_stars_expr setting scope value).bind fun _ => later fun _ =>
      first (requires_stars_branches setting scope operand result rest)

theorem requires_stars_else (setting : Setting) (scope : Scope) (result : TypeVar)
    (o : Option Expr) :
    (inferElse setting scope result o).Requires StarPlace.Admitted (Expr.starsOfSome o) := by
  match o with
  | none => exact nil
  | some e => exact first (requires_stars_expr setting scope e)

end

end

/-- In an expression that is read, each star outside of inner queries stands in a call of a function
that takes the other arguments. It is all that a COUNT is given if and only if there is no other
argument. -/
theorem stars_of_inferExpr {setting : Setting} {scope : Scope} {e : Expr} {r s : Run}
    {inferred : Inferred} (h : (inferExpr setting scope e).outcome r = .ok (inferred, s)) :
    ∀ place ∈ e.stars, place.Admitted ∧ (place.CountsRows ↔ place.Sole) := by
  intro place hplace
  have hadmitted := requires_stars_expr setting scope e r inferred s h place hplace
  exact ⟨hadmitted, hadmitted.countsRows_iff⟩

/-- `CASE WHEN COUNT(*) > 1 THEN Count(*) ELSE 0 END`. -/
def countedTwice : Expr :=
  .case none [⟨.compare .gt (.call "COUNT" false [.star]) (.literal (.int 1)),
    .call "Count" false [.star]⟩] (some (.literal (.int 0)))

/-- Both stars of the expression count rows. -/
theorem stars_of_inferExpr_countedTwice : ∃ inferred s,
    (inferExpr ⟨oneTable, .mysql⟩ .empty countedTwice).outcome .start = .ok (inferred, s) ∧
    countedTwice.stars = [.argument "COUNT" [.star], .argument "Count" [.star]] ∧
    ∀ place ∈ countedTwice.stars, place.Admitted ∧ (place.CountsRows ↔ place.Sole) := by
  have hok : ((inferExpr ⟨oneTable, .mysql⟩ .empty countedTwice).outcome .start).isOk = true := by
    decide +kernel
  obtain ⟨⟨inferred, s⟩, hread⟩ := exists_of_isOk hok
  exact ⟨inferred, s, hread, rfl, stars_of_inferExpr hread⟩

/-- A star beside another argument is passed over, whatever is called: `COALESCE(*, 1)` is read. -/
theorem star_beside_argument : ∃ inferred s,
    (inferExpr ⟨oneTable, .mysql⟩ .empty
      (.call "COALESCE" false [.star, .literal (.int 1)])).outcome .start = .ok (inferred, s) ∧
    StarPlace.argument "COALESCE" [.star, .literal (.int 1)] ∈
      (Expr.call "COALESCE" false [.star, .literal (.int 1)]).stars ∧
    ¬ (StarPlace.argument "COALESCE" [.star, .literal (.int 1)]).CountsRows := by
  have hok : ((inferExpr ⟨oneTable, .mysql⟩ .empty
      (.call "COALESCE" false [.star, .literal (.int 1)])).outcome .start).isOk = true := by
    decide +kernel
  obtain ⟨⟨inferred, s⟩, hread⟩ := exists_of_isOk hok
  refine ⟨inferred, s, hread, List.mem_singleton.2 rfl, ?_⟩
  rintro ⟨-, hsole⟩
  cases hsole

end QuerySignature
