import QuerySignature.Proofs.Placeholders.Adds
import QuerySignature.Proofs.Placeholders.Marks
import QuerySignature.Proofs.Placeholders.Quiet

namespace QuerySignature

/-! # What a walk says of the placeholders

A step is followed on the marks of the placeholders alone: from a run with some marks it leads to a
run with others. An expression adds the marks of a place that does not ask for anything. What asks of
it comes later, and then changes one mark, that of the expression if it is a bare placeholder.

- `Leads.bind`: steps in a row.
- `Leads.force`: an expression that is asked not to be null.
- `Leads.compare`, `Leads.call`, ...: the forms that ask something of their operands.
-/

/-- The mark of a placeholder of a run. -/
def Placeholder.mark (p : Placeholder) : Mark := ⟨p.entry, p.notNull⟩

/-- The marks of the placeholders of a run so far. -/
def Run.marks (r : Run) : List Mark := r.placeholders.map Placeholder.mark

/-- From a run with the marks `before` a step leads to one with the marks `after`, with a value of
which `post` holds. -/
def Leads {α : Type} (before : List Mark) (step : Analyze α) (after : List Mark) (post : α → Prop) :
    Prop :=
  ∀ r a s, r.marks = before → step.outcome r = .ok (a, s) → s.marks = after ∧ post a

/-- What is found out about an expression with marks that depend on its place. Only if it is a bare
placeholder, the `n`th one, they do. -/
def Inferred.Placed (n : Nat) (marks : Bool → List Mark) (a : Inferred) : Prop :=
  (∃ entry, a.placeholder = some n ∧ ∀ asked, marks asked = [⟨entry, asked⟩]) ∨
    (a.placeholder = none ∧ ∀ asked, marks asked = marks false)

/-- What is found out about some expressions behind the first `n` placeholders, without the stars
among them. -/
inductive PlacedAll : Nat → List Expr → List Inferred → Prop where
  | nil (n : Nat) : PlacedAll n [] []
  | star {n : Nat} {e : Expr} {es : List Expr} {as : List Inferred} (h : e.isStar = true)
      (hrest : PlacedAll n es as) : PlacedAll n (e :: es) as
  | cons {n : Nat} {e : Expr} {es : List Expr} {a : Inferred} {as : List Inferred}
      (h : e.isStar = false) (hplaced : a.Placed n e.marks)
      (hrest : PlacedAll (n + (e.marks false).length) es as) : PlacedAll n (e :: es) (a :: as)

namespace Leads

variable {α β : Type} {m m' m'' : List Mark} {step : Analyze α} {next : α → Analyze β}
  {P : α → Prop} {Q : β → Prop}

theorem pure {a : α} (h : P a) : Leads m (Pure.pure a : Analyze α) m P := by
  intro r _ _ hr hrun
  cases hrun
  exact ⟨hr, h⟩

theorem throw (e : AnalysisError) : Leads m (MonadExcept.throw e : Analyze α) m' P := by
  intro r _ _ _ hrun
  cases hrun

/-- The second of two steps goes on from the marks of the first, with its value. -/
theorem bind (h : Leads m step m' P) (hnext : ∀ a, P a → Leads m' (next a) m'' Q) :
    Leads m (step >>= next) m'' Q := by
  intro r b t hr hrun
  rw [Analyze.outcome_bind] at hrun
  rcases bind_eq_ok.1 hrun with ⟨⟨a, s⟩, hfirst, hsecond⟩
  obtain ⟨hmarks, ha⟩ := h r a s hr hfirst
  exact hnext a ha s b t hmarks hsecond

theorem quiet (h : Quiet step) : Leads m step m fun _ => True := by
  intro r a s hr hrun
  refine ⟨?_, trivial⟩
  unfold Run.marks
  rw [h r a s hrun]
  exact hr

theorem of_quiet (h : Quiet step) (hnext : ∀ a, Leads m (next a) m' Q) :
    Leads m (step >>= next) m' Q :=
  (quiet h).bind fun a _ => hnext a

/-- What is known of the value anyway. -/
theorem also (h : Leads m step m' fun _ => True)
    (hvalue : ∀ r a s, r.marks = m → step.outcome r = .ok (a, s) → P a) : Leads m step m' P :=
  fun r a s hr hrun => ⟨(h r a s hr hrun).1, hvalue r a s hr hrun⟩

theorem forget (h : Leads m step m' P) : Leads m step m' fun _ => True :=
  fun r a s hr hrun => ⟨(h r a s hr hrun).1, trivial⟩

theorem congr (h : Leads m step m' P) {n n' : List Mark} (hbefore : n = m) (hafter : m' = n') :
    Leads n step n' P := by
  subst hbefore hafter
  exact h

/-! ## One placeholder -/

theorem addPlaceholder (name : Option String) (list : Bool) :
    Leads m (QuerySignature.addPlaceholder name list) (m ++ [⟨⟨name, list⟩, false⟩])
      (·.Placed m.length fun asked => [⟨⟨name, list⟩, asked⟩]) := by
  intro r a s hr hrun
  rw [Analyze.outcome_of_runFrom (runFrom_addPlaceholder name list r)] at hrun
  cases hrun
  refine ⟨?_, .inl ⟨_, ?_, fun _ => rfl⟩⟩
  · unfold Run.marks at hr ⊢
    rw [List.map_append, hr]
    rfl
  · show some r.placeholders.length = some m.length
    rw [← hr, Run.marks, List.length_map]

theorem setNotNull (pre post : List Mark) (entry : Entry) (before notNull : Bool) :
    Leads (pre ++ ⟨entry, before⟩ :: post) (QuerySignature.setNotNull pre.length notNull)
      (pre ++ ⟨entry, notNull⟩ :: post) fun _ => True := by
  intro r a s hr hrun
  rw [Analyze.outcome_of_runFrom (runFrom_setNotNull _ _ r)] at hrun
  cases hrun
  refine ⟨?_, trivial⟩
  have hmodify : ∀ ps : List Placeholder,
      (ps.modify pre.length fun p => { p with notNull }).map Placeholder.mark =
        (ps.map Placeholder.mark).modify pre.length fun mark => { mark with notNull } := by
    intro ps
    generalize pre.length = index
    induction ps generalizing index with
    | nil => simp
    | cons p rest ih =>
      cases index with
      | zero => rfl
      | succ index => exact congrArg (p.mark :: ·) (ih index)
  unfold Run.marks at hr ⊢
  rw [hmodify, hr]
  clear hmodify hr
  induction pre with
  | nil => rfl
  | cons first pre ih => exact congrArg (first :: ·) ih

variable {marks : Bool → List Mark} {a : Inferred} {pre : List Mark}

/-- A value that goes to a column is as nullable as that. -/
theorem matchNull (h : a.Placed pre.length marks) (post : List Mark) (column : SourceColumn) :
    Leads (pre ++ marks false ++ post) (QuerySignature.matchNull a.placeholder column)
      (pre ++ marks column.notNull ++ post) fun _ => True := by
  unfold QuerySignature.matchNull
  rcases h with ⟨entry, hplaceholder, hmarks⟩ | ⟨hplaceholder, hmarks⟩
  · rw [hplaceholder, hmarks, hmarks]
    simpa using setNotNull pre post entry false column.notNull
  · rw [hplaceholder, hmarks column.notNull]
    exact pure trivial

/-- An expression that is asked not to be null. -/
theorem force (h : a.Placed pre.length marks) (post : List Mark) :
    Leads (pre ++ marks false ++ post) (forceNotNull a) (pre ++ marks true ++ post)
      fun _ => True := by
  unfold forceNotNull
  rcases h with ⟨entry, hplaceholder, hmarks⟩ | ⟨hplaceholder, hmarks⟩
  · rw [hplaceholder, hmarks, hmarks]
    simpa using setNotNull pre post entry false true
  · rw [hplaceholder, hmarks true]
    exact pure trivial

theorem forceLast (h : a.Placed pre.length marks) :
    Leads (pre ++ marks false) (forceNotNull a) (pre ++ marks true) fun _ => True := by
  simpa using force h []

end Leads

/-- The place of an expression behind others does not depend on what is asked of these. -/
theorem Inferred.Placed.behind {a : Inferred} {marks : Bool → List Mark} {pre : List Mark} {e : Expr}
    (h : a.Placed (pre ++ e.marks false).length marks) :
    a.Placed (pre ++ e.marks true).length marks := by
  rw [List.length_append, e.length_marks true, ← List.length_append]
  exact h

namespace PlacedAll

variable {n : Nat} {es : List Expr} {a : Inferred} {as : List Inferred}

/-- The first of some expressions that is not a star. -/
theorem head (h : PlacedAll n es (a :: as)) :
    ∃ marks rest, a.Placed n marks ∧ PlacedAll (n + (marks false).length) rest as ∧
      ∀ asked, marksOfAll asked es =
        marks (asked 0) ++ marksOfAll (fun place => asked (place + 1)) rest := by
  generalize has : a :: as = all at h
  induction h with
  | nil => cases has
  | star hstar _ ih =>
    obtain ⟨marks, rest, hplaced, hrest, hmarks⟩ := ih has
    exact ⟨marks, rest, hplaced, hrest, fun asked => by rw [marksOfAll, if_pos hstar, hmarks]⟩
  | @cons _ e es _ _ hstar hplaced hrest _ =>
    cases has
    refine ⟨e.marks, es, hplaced, hrest, fun asked => ?_⟩
    rw [marksOfAll, if_neg (by simp [hstar])]

end PlacedAll

namespace Leads

variable {m : List Mark} {setting : Setting} {l r v : Expr} {a b c : Inferred}

/-! ## Forms of expressions -/

theorem compare (label : String) (hl : a.Placed m.length l.marks)
    (hr : b.Placed (m ++ l.marks false).length r.marks) :
    Leads (m ++ l.marks false ++ r.marks false) (inferCompare setting label a b)
      (m ++ l.marks true ++ r.marks true) fun _ => True := by
  refine of_quiet (Quiet.demand _) fun _ => ?_
  refine (force hl _).bind fun _ _ => ?_
  refine (forceLast hr.behind).bind fun _ _ => ?_
  exact quiet (Quiet.kept.predicate _ _)

theorem between (label : String) (hv : a.Placed m.length v.marks)
    (hl : b.Placed (m ++ v.marks false).length l.marks)
    (hr : c.Placed (m ++ v.marks false ++ l.marks false).length r.marks) :
    Leads (m ++ v.marks false ++ l.marks false ++ r.marks false)
      (inferBetween setting label a b c) (m ++ v.marks true ++ l.marks true ++ r.marks true)
      fun _ => True := by
  have hr' : c.Placed (m ++ v.marks true ++ l.marks true).length r.marks := by
    simpa [v.length_marks true, l.length_marks true] using hr
  refine of_quiet (Quiet.demand _) fun _ => of_quiet (Quiet.demand _) fun _ => ?_
  refine ((force hv (l.marks false ++ r.marks false)).congr (by simp) rfl).bind fun _ _ => ?_
  refine ((force hl.behind (r.marks false)).congr (by simp) rfl).bind fun _ _ => ?_
  refine (forceLast hr').bind fun _ _ => ?_
  exact quiet (Quiet.kept.predicate _ _)

theorem like (label : String) (hl : a.Placed m.length l.marks)
    (hr : b.Placed (m ++ l.marks false).length r.marks) :
    Leads (m ++ l.marks false ++ r.marks false) (inferLike setting label a b)
      (m ++ l.marks true ++ r.marks true) fun _ => True := by
  refine of_quiet (Quiet.kept.freshExact _ _) fun _ => ?_
  refine of_quiet (Quiet.demand _) fun _ => of_quiet (Quiet.demand _) fun _ => ?_
  refine (force hl _).bind fun _ _ => ?_
  refine (forceLast hr.behind).bind fun _ _ => ?_
  exact quiet (Quiet.kept.predicate _ _)

theorem forceAll {es : List Expr} {as : List Inferred} (h : PlacedAll m.length es as) :
    Leads (m ++ marksOfAll (fun _ => false) es) (forceAllNotNull as)
      (m ++ marksOfAll (fun _ => true) es) fun _ => True := by
  generalize hn : m.length = n at h
  induction h generalizing m with
  | nil => exact pure trivial
  | star hstar _ ih =>
    rw [marksOfAll, if_pos hstar, marksOfAll, if_pos hstar]
    exact ih hn
  | @cons _ e es _ _ hstar hplaced _ ih =>
    subst hn
    rw [marksOfAll, if_neg (by simp [hstar]), marksOfAll, if_neg (by simp [hstar]),
      ← List.append_assoc, ← List.append_assoc]
    refine (force hplaced _).bind fun _ _ => ih ?_
    rw [List.length_append, e.length_marks true]

theorem inList (label : String) (value : Inferred) {es : List Expr} {as : List Inferred}
    (h : PlacedAll m.length es as) :
    Leads (m ++ marksOfAll (fun _ => false) es) (inferInList setting label value as)
      (m ++ marksOfAll (fun _ => true) es) fun _ => True := by
  refine of_quiet (Quiet.demand _) fun _ => ?_
  exact (forceAll h).bind fun _ _ => quiet (Quiet.kept.predicate _ _)

/-- A placeholder that stands for the whole list. -/
theorem inSoleList (label : String) (value : Inferred) {name : Option String}
    (h : a.Placed m.length fun asked => [⟨⟨name, true⟩, asked⟩]) :
    Leads (m ++ [⟨⟨name, true⟩, false⟩]) (inferInList setting label value [a])
      (m ++ [⟨⟨name, true⟩, true⟩]) fun _ => True := by
  refine of_quiet (Quiet.demand _) fun _ => ?_
  have hforce : Leads (m ++ [⟨⟨name, true⟩, false⟩]) (forceAllNotNull [a])
      (m ++ [⟨⟨name, true⟩, true⟩]) fun _ => True := (forceLast h).bind fun _ _ => pure trivial
  exact hforce.bind fun _ _ => quiet (Quiet.kept.predicate _ _)

/-- The condition of a branch of a CASE is asked not to be null if there is an operand. -/
theorem caseWhen (label : String) (operand : Option Inferred) (h : a.Placed m.length l.marks) :
    Leads (m ++ l.marks false) (inferWhen setting label operand a)
      (m ++ l.marks operand.isSome) fun _ => True := by
  cases operand with
  | some operand => exact of_quiet (Quiet.demand _) fun _ => forceLast h
  | none => exact of_quiet (Quiet.kept.freshExact _ _) fun _ => quiet (Quiet.demand _)

theorem bound (label : String) (h : a.Placed m.length l.marks) :
    Leads (m ++ l.marks false) (inferBound setting label a) (m ++ l.marks true) fun _ => True :=
  of_quiet (Quiet.kept.freshExact _ _) fun _ => of_quiet (Quiet.demand _) fun _ => forceLast h

/-! ## Calls -/

/-- The date of a function on dates is asked not to be null. -/
theorem date {marks : Bool → List Mark} (profile : Profile) (label : String)
    (h : a.Placed m.length marks) (post : List Mark) :
    Leads (m ++ marks false ++ post) (inferDate profile label a) (m ++ marks true ++ post)
      fun _ => True := by
  refine of_quiet (Quiet.kept.freshExact _ _) fun _ => of_quiet (Quiet.demand _) fun _ => ?_
  exact (force h post).bind fun _ _ => of_quiet (Quiet.kept.freshExact _ _) fun _ => pure trivial

theorem firstDate {es : List Expr} {as : List Inferred} (profile : Profile) (label : String)
    (h : PlacedAll m.length es (a :: as)) :
    Leads (m ++ marksOfAll (fun _ => false) es) (inferDate profile label a)
      (m ++ marksOfAll (fun place => some 0 == some place) es) fun _ => True := by
  obtain ⟨marks, rest, hplaced, -, hmarks⟩ := h.head
  rw [hmarks, hmarks]
  exact (date profile label hplaced (marksOfAll (fun _ => false) rest)).congr (by simp) (by simp)

theorem secondDate {es : List Expr} {as : List Inferred} (profile : Profile) (label : String)
    (h : PlacedAll m.length es (a :: b :: as)) :
    Leads (m ++ marksOfAll (fun _ => false) es) (inferDate profile label b)
      (m ++ marksOfAll (fun place => some 1 == some place) es) fun _ => True := by
  obtain ⟨first, rest, -, hrest, hfirst⟩ := h.head
  obtain ⟨second, last, hplaced, -, hsecond⟩ := hrest.head
  rw [← List.length_append] at hplaced
  rw [hfirst, hfirst, hsecond, hsecond]
  exact (date profile label hplaced (marksOfAll (fun _ => false) last)).congr (by simp) (by simp)

theorem rule {profile : Profile} {label : String} {f : SqlFunction} {es : List Expr}
    {as : List Inferred} (h : PlacedAll m.length es as) {rule : Analyze Inferred}
    (hrule : f.rule? profile label as = some rule) {function : String}
    (hf : SqlFunction.ofName? function = some f) :
    Leads (m ++ marksOfAll (fun _ => false) es) rule
      (m ++ marksOfAll (fun place => datePlace? function == some place) es) fun _ => True := by
  have hplain : datePlace? function = none → Quiet rule →
      Leads (m ++ marksOfAll (fun _ => false) es) rule
        (m ++ marksOfAll (fun place => datePlace? function == some place) es) fun _ => True := by
    intro hplace hquiet
    refine (quiet hquiet).congr rfl ?_
    rw [hplace]
    rfl
  by_cases hdate : f ≠ .date ∧ f ≠ .time ∧ f ≠ .dateTime ∧ f ≠ .strftime
  · refine hplain ?_ (Quiet.rule hrule hdate)
    unfold datePlace?
    rw [hf]
    cases f <;> first | rfl | simp at hdate
  · have hplace : ∀ k, datePlace? function = some k →
        (fun place => datePlace? function == some place) = fun place => some k == some place := by
      intro k hk
      rw [hk]
    cases f with
    | date | time | dateTime =>
      obtain _ | ⟨a, as⟩ := as <;> cases hrule
      rw [hplace 0 (by simp [datePlace?, hf])]
      exact firstDate profile label h
    | strftime =>
      obtain _ | ⟨a, _ | ⟨b, as⟩⟩ := as <;> cases hrule
      rw [hplace 1 (by simp [datePlace?, hf])]
      exact secondDate profile label h
    | _ => exact absurd (by decide) hdate

theorem call (profile : Profile) (function label : String) {es : List Expr} {as : List Inferred}
    (h : PlacedAll m.length es as) :
    Leads (m ++ marksOfAll (fun _ => false) es) (inferCall profile function label as)
      (m ++ marksOfAll (fun place => datePlace? function == some place) es) fun _ => True := by
  obtain ⟨e, heq⟩ | ⟨f, rule, hf, -, hrule, heq⟩ := inferCall_cases profile function label as
  · rw [heq]
    exact throw e
  · rw [heq]
    exact (Leads.rule h hrule hf).bind fun _ _ => pure trivial

end Leads

end QuerySignature
