import QuerySignature.Proofs.Fragments.Relations
import QuerySignature.Proofs.Walk.CommonTables

namespace QuerySignature

/-! # Annotated descriptions

The comment lines of a text add the object tree and the needs of the fragments to a description. The
needs come from cutting the query, which looks every source up once more: among the common tables that
the query declares itself, and then in the schema. The walk has looked it up before, among the common
tables that it has reached. Both find it or neither does, so cutting a described query does not fail.

- `exists_sourceFragments`, `exists_joinFragments`: where the walk has come through a clause, the
  cutting comes through it;
- `Fragments.exists_ofQuery`: a query that can be walked over can be cut;
- `describeAnnotated_eq_map`: comment lines add to a description and change nothing else.
-/

section

variable {schema : Schema} {profile : Profile} {ctes : List Cte} {behind : Run}

/-- Where the walk has come through listed sources, the cutting comes through them, whatever
fragments there are before. -/
theorem exists_sourceFragments (names : List String)
    (hctes : (inferCtes ⟨schema, profile⟩ [] ctes).outcome .start = .ok ((), behind))
    {xs : List Source} {r s : Run} {done listed : Sources} (hsame : r.ctes = behind.ctes)
    (hs : (inferSources ⟨schema, profile⟩ done xs).outcome r = .ok (listed, s))
    (fragments : List Fragment) :
    ∃ cut, sourceFragments schema names ctes fragments xs = .ok cut := by
  induction xs generalizing r done fragments with
  | nil => exact ⟨fragments, rfl⟩
  | cons x rest ih =>
    unfold inferSources at hs
    rw [Analyze.outcome_bind] at hs
    obtain ⟨⟨level, t⟩, hsource, hs⟩ := bind_eq_ok.1 hs
    obtain ⟨fields, hfields⟩ := exists_sourceFields hctes hsame hsource
    -- a source leaves the common tables that it is looked up among
    have hkept : t.ctes = r.ctes := (KeepsCtes.source ⟨schema, profile⟩ x).of_outcome hsource
    unfold sourceFragments
    rw [hfields]
    exact ih (hkept.trans hsame) hs _

/-- Where the walk has come through joins, the cutting comes through them. -/
theorem exists_joinFragments (names : List String)
    (hctes : (inferCtes ⟨schema, profile⟩ [] ctes).outcome .start = .ok ((), behind))
    {js : List Join} {r s : Run} {done joined : Sources} {previous : String}
    (hsame : r.ctes = behind.ctes)
    (hs : (inferJoins ⟨schema, profile⟩ [] done previous js).outcome r = .ok (joined, s))
    (fragments : List Fragment) :
    ∃ cut, joinFragments schema names ctes fragments js = .ok cut := by
  induction js generalizing r done previous fragments with
  | nil => exact ⟨fragments, rfl⟩
  | cons j rest ih =>
    obtain ⟨kind, x, on⟩ := j
    obtain ⟨level, t, u, hsource, hcondition, hs⟩ := join_of_cons hs
    obtain ⟨fields, hfields⟩ := exists_sourceFields hctes hsame hsource
    have hkept : u.ctes = r.ctes :=
      ((KeepsCtes.condition _ _ on).of_outcome hcondition).trans
        ((KeepsCtes.source ⟨schema, profile⟩ x).of_outcome hsource)
    unfold joinFragments
    rw [hfields]
    exact ih (hkept.trans hsame) hs _

end

/-- A query that can be walked over can be cut. -/
theorem Fragments.exists_ofQuery {setting : Setting} {q : Select} {result : QueryResult} {run : Run}
    (names : List String) (h : (inferQuery setting [] q).outcome .start = .ok (result, run)) :
    ∃ fragments, Fragments.ofQuery setting.schema names q = .ok fragments := by
  obtain ⟨schema, profile⟩ := setting
  obtain ⟨ctes, _ | ⟨branch, rest⟩, order, limit⟩ := q
  · -- the walk refuses a query without branches as well
    rw [outcome_inferQuery] at h
    obtain ⟨⟨_, behind⟩, -, h⟩ := bind_eq_ok.1 h
    cases h
  · obtain ⟨behind, listed, rs, joined, rj, -, hctes, hlisted, hjoined, -⟩ := relations_of_query rfl h
    have hkept : rs.ctes = behind.ctes :=
      (KeepsCtes.sourceList ⟨schema, profile⟩ branch.sources _).of_outcome hlisted
    obtain ⟨first, hfirst⟩ := exists_sourceFragments names hctes rfl hlisted []
    obtain ⟨cut, hcut⟩ := exists_joinFragments names hctes hkept hjoined first
    unfold Fragments.ofQuery
    dsimp only
    rw [hfirst]
    show ∃ fragments, ((joinFragments _ _ _ first branch.joins).bind _) = .ok fragments
    rw [hcut]
    exact ⟨_, rfl⟩

/-- So the needs of its fragments can be told. -/
theorem Select.exists_needs {setting : Setting} {q : Select} {d : Description}
    (h : describe setting (.select q) = .ok d) :
    ∃ needs, q.needs setting.schema = .ok needs := by
  obtain ⟨result, run, solution, hwalk, -, rfl⟩ := describe_select_iff.1 h
  obtain ⟨fragments, hfragments⟩ := Fragments.exists_ofQuery (namedParameters q.text) hwalk
  unfold Select.needs
  dsimp only
  rw [hfragments]
  exact ⟨_, rfl⟩

/-- Whatever comment lines a text has, its query is described with them exactly if it is described
without, and refused for the same reason if not. The description has the text itself, the object tree
and the needs where they are asked for, and is the same in everything else. -/
theorem describeAnnotated_eq_map (setting : Setting) (sql : String) (q : Select) :
    ∃ needs : Option Needs, needs.isSome = (Annotations.ofText sql).dynamic ∧
      describeAnnotated setting sql (.select q) = (describe setting (.select q)).map fun d =>
        { d with
          sql
          nesting := if (Annotations.ofText sql).nested then
            some (.build d.columns d.relations) else none
          needs } := by
  unfold describeAnnotated
  cases hd : describe setting (.select q) with
  | error e =>
    -- nothing is cut, and any needs will do
    exact ⟨if (Annotations.ofText sql).dynamic then some default else none, by split <;> simp_all, rfl⟩
  | ok d =>
    obtain ⟨needs, hneeds⟩ := Select.exists_needs hd
    cases hdynamic : (Annotations.ofText sql).dynamic with
    | false =>
      refine ⟨none, rfl, ?_⟩
      simp only [bind, Except.bind, hdynamic]
      rfl
    | true =>
      refine ⟨some needs, rfl, ?_⟩
      simp only [bind, Except.bind, hdynamic, hneeds]
      rfl

end QuerySignature
