import QuerySignature.NotNull
import QuerySignature.Proofs.Criteria.Valuation
import QuerySignature.Proofs.Walk.Renaming

namespace QuerySignature

/-! # Columns proven not null are not null

A criterion that proves a column not null is true of no row in which the column is NULL. The proof
reads references by name, and a column of the innermost level cannot be missed: whatever a
reference finds further out under the same name would have been answered by that column first.

- `exprPlace?_of_refersTo`: an expression that refers to a column of the innermost level stands for
  that very column.
- `column_isSome_of_criteria`: a column proven not null has a value in every row that passes.
-/

namespace SourceColumn

theorem sameAs_comm (c d : SourceColumn) : c.sameAs d = d.sameAs c := by
  unfold sameAs
  rw [sameName_comm c.visibleTable, sameName_comm c.name]

/-- Columns that no name tells apart answer the same references. -/
theorem answers_of_sameAs {c d : SourceColumn} {qualifier name : String}
    (hsame : c.sameAs d = true) (h : c.answers qualifier name = true) :
    d.answers qualifier name = true := by
  simp only [sameAs, Bool.and_eq_true] at hsame
  simp only [answers, isOf, Bool.and_eq_true, Bool.or_eq_true] at h ⊢
  constructor
  · exact sameName_trans (sameName_symm hsame.2) h.1
  · exact h.2.imp id fun htable => sameName_trans (sameName_symm hsame.1) htable

end SourceColumn

namespace Level

/-- No two columns of a level go by one name. -/
def Distinct (level : Level) : Prop := level.Pairwise fun c d => c.sameAs d = false

instance (level : Level) : Decidable level.Distinct :=
  inferInstanceAs (Decidable (level.Pairwise fun c d => c.sameAs d = false))

theorem Distinct.eq_of_sameAs {level : Level} (h : level.Distinct) {i j : Nat}
    {c d : SourceColumn} (hc : level[i]? = some c) (hd : level[j]? = some d)
    (hsame : c.sameAs d = true) : i = j := by
  obtain ⟨hi, rfl⟩ := List.getElem?_eq_some_iff.1 hc
  obtain ⟨hj, rfl⟩ := List.getElem?_eq_some_iff.1 hd
  have hpairs := List.pairwise_iff_getElem.1 h
  rcases Nat.lt_trichotomy i j with hlt | heq | hgt
  · have := hpairs i j hi hj hlt
    simp [hsame] at this
  · exact heq
  · have := hpairs j i hj hi hgt
    rw [SourceColumn.sameAs_comm] at this
    simp [hsame] at this

end Level

namespace Scope

variable {scope : Scope} {index : Nat} {column : SourceColumn}

/-- What refers to a column of the innermost level stands for it. -/
theorem exprPlace?_of_refersTo (hdistinct : scope.columns.Distinct)
    (hcolumn : scope.columns[index]? = some column) {e : Expr}
    (h : scope.refersTo column e = true) : scope.exprPlace? e = some ⟨0, index⟩ := by
  obtain ⟨found, hfound, hsame⟩ := (Option.any_eq_true _ _).1 h
  obtain ⟨c, hc, hlookup⟩ := Option.bind_eq_some_iff.1 hfound
  rw [lookup?_eq_columnAt?] at hlookup
  obtain ⟨place, hplace, hat⟩ := Option.bind_eq_some_iff.1 hlookup
  have hin := placeIn_of_placeOf? hplace
  -- the column itself answers the reference, so nothing further out has been reached
  obtain ⟨answering, hanswering, hanswers⟩ := placeIn_answers hin
  have hfoundAnswers : found.answers c.qualifier c.name = true := by
    have : answering = found := Option.some.inj (hanswering.symm.trans hat)
    rwa [this] at hanswers
  have hown := SourceColumn.answers_of_sameAs hsame hfoundAnswers
  have hdepth : place.depth = 0 := depth_of_placeIn hin (List.mem_of_getElem? hcolumn) hown
  have hindex : place.index = index := by
    have hinner : scope.columns[place.index]? = some found := by
      simpa [columnAt?, columnIn, levels, hdepth] using hat
    exact hdistinct.eq_of_sameAs hinner hcolumn hsame
  have hwhole : place = ⟨0, index⟩ := by
    rw [← hdepth, ← hindex]
  rw [exprPlace?, hc, Option.bind_some, hplace, hwhole]

/-- A column that a criterion proves not null has a value in every row that passes. -/
theorem column_isSome_of_criteria {V : Type} (hdistinct : scope.columns.Distinct)
    (hcolumn : scope.columns[index]? = some column) {criteria : Expr}
    (hproves : scope.provesNotNull column criteria = true) (x : Valuation V)
    (path : List Side) (hholds : x.truth scope path criteria = .holds) :
    (x.column ⟨0, index⟩).isSome = true := by
  have hvalue : ∀ {e : Expr} (path : List Side), scope.refersTo column e = true →
      x.value scope path e = x.column ⟨0, index⟩ := by
    intro e path href
    exact Valuation.value_of_exprPlace? (exprPlace?_of_refersTo hdistinct hcolumn href)
  -- an AND that holds gives both sides where the proof needs one; an OR gives one where it has both
  fun_induction provesNotNull scope column criteria generalizing path with
  | case1 inner ih => exact ih hproves path hholds
  | case2 left right ihl ihr =>
    have hboth := Truth.and_eq_holds.1 hholds
    rcases Bool.or_eq_true _ _ ▸ hproves with hleft | hright
    · exact ihl hleft _ hboth.1
    · exact ihr hright _ hboth.2
  | case3 left right ihl ihr =>
    have hproves := (Bool.and_eq_true _ _).mp hproves
    rcases Truth.or_eq_holds.1 hholds with hleft | hright
    · exact ihl hproves.1 _ hleft
    · exact ihr hproves.2 _ hright
  | case4 op left right =>
    obtain ⟨v, w, hv, hw, -⟩ := Valuation.comparison_eq_holds.1 hholds
    rcases Bool.or_eq_true _ _ ▸ hproves with hleft | hright
    · rw [hvalue _ hleft] at hv
      simp [hv]
    · rw [hvalue _ hright] at hw
      simp [hw]
  | case5 operand =>
    have htest := Truth.ofBool_eq_holds.1 hholds
    rw [hvalue _ hproves] at htest
    simpa using htest
  | case6 => cases hproves

/-- `posts p`, inside a query that reads another table with a title. -/
def titledPosts : Scope :=
  let title (table aliasName : String) (id : Nat) : SourceColumn :=
    ⟨table, aliasName, "title", ⟨id, "title", .exact .varchar, false, false⟩, .plain, false⟩
  ⟨[⟨"posts", "p", "id", ⟨1, "id", .exact .int, false, false⟩, .primary, true⟩,
    title "posts" "p" 2], [[title "books" "" 3]]⟩

/-- `id = ? AND (p.title > ? OR TITLE IS NOT NULL)`. -/
def titledCriteria : Expr :=
  .and (.compare .eq (.column ⟨none, "id"⟩) (.parameter none))
    (.paren (.or (.compare .gt (.column ⟨some "p", "title"⟩) (.parameter none))
      (.isNull true (.column ⟨none, "TITLE"⟩))))

/-- Every value is 7, which is not greater than itself. -/
def allSeven : Valuation Nat where
  column _ := some 7
  operand _ _ := some 7
  compares op v w := op = .eq ∧ v = w
  condition _ _ := .unknown

theorem column_isSome_of_criteria_titledPosts :
    titledPosts.columns.Distinct ∧ allSeven.truth titledPosts [] titledCriteria = .holds ∧
      (allSeven.column ⟨0, 1⟩).isSome = true := by
  have hdistinct : titledPosts.columns.Distinct := by decide
  have hcolumn : titledPosts.columns[1]? = some titledPosts.columns[1] := rfl
  have hholds : allSeven.truth titledPosts [] titledCriteria = .holds := rfl
  exact ⟨hdistinct, hholds, column_isSome_of_criteria hdistinct hcolumn rfl allSeven [] hholds⟩

end Scope

end QuerySignature
