import Mathlib.Data.List.Forall2
import QuerySignature.Proofs.Printed.ReadSteps

namespace QuerySignature

/-! # Printed expressions are read back

The text of an expression is read as its canonical form, on every stack on which it may stand
without parentheses. What is left open behind it makes the same, once it is ended, as the canonical
form in its place.

- `Readable`: a text is read as an expression wherever a place of some strength is free.
- `Readable.operand`, `Readable.connector`, ...: one rule for each form.
- `Expr.readable`: the text of an expression is read as its canonical form.
- `readExpr?_text`, `Expr.canonical_eq_of_text_eq`: so equal texts have one canonical form.
-/

/-- A text is read as an expression in each place that asks for no more than some strength. -/
def Readable (place : Nat) (text : String) (e : Expr) : Prop :=
  ∀ stack, Ready place stack → ∃ last above, ReadsTo (.want stack) text (.got last above) ∧
    ∀ strength ≤ place, close strength last above = close strength e stack

/-! ## Words -/

/-- A word that is no keyword is read as the expression that it stands for. -/
theorem ReadsTo.atom {text : String} (h : IsWord text) (hkeyword : text ∉ keywords)
    (stack : List Unfinished) : ReadsTo (.want stack) text (.got (atom text) stack) := by
  rw [← State.start_of_not_mem hkeyword]
  exact .word _ h

theorem ReadsTo.column {c : ColumnRef} (htable : ∀ table ∈ c.table, IsIdentifier table)
    (hname : IsIdentifier c.name) (hkeyword : c.table = none → c.name ∉ keywords)
    (stack : List Unfinished) : ReadsTo (.want stack) c.text (.got (.column c) stack) := by
  have hfree := text_not_mem_keywords hkeyword
  have hreads := ReadsTo.atom (isWord_column htable hname) hfree stack
  rw [atom_column htable hname hfree] at hreads
  exact hreads

namespace Readable

variable {place : Nat} {text : String} {e : Expr}

/-! ## Operands -/

theorem mono (h : Readable place text e) {q : Nat} (hq : q ≤ place) : Readable q text e := by
  intro stack hstack
  obtain ⟨last, above, hreads, hclose⟩ := h stack (hstack.mono hq)
  exact ⟨last, above, hreads, fun strength hle => hclose strength (Nat.le_trans hle hq)⟩

/-- What is read at once can be read in any place. -/
theorem of_reads (h : ∀ stack, ReadsTo (.want stack) text (.got e stack)) : Readable place text e :=
  fun stack _ => ⟨e, stack, h stack, fun _ _ => rfl⟩

/-- What stands in a form that nothing but its own end closes, as it is at that end. -/
theorem enclosed (h : Readable place text e) (form : Unfinished) (hplace : form.place = 0)
    (hopen : form.whole? 0 e = none) {stack : List Unfinished}
    (hstack : Ready form.precedence stack) :
    ∃ last above, ReadsTo (.want (form :: stack)) text (.got last above) ∧
      close 0 last above = (e, form :: stack) := by
  have hready : Ready place (form :: stack) := ⟨hplace ▸ Nat.zero_le place, hstack⟩
  obtain ⟨last, above, hreads, hclose⟩ := h (form :: stack) hready
  exact ⟨last, above, hreads, (hclose 0 (Nat.zero_le place)).trans (close_cons_of_none hopen)⟩

/-- An expression in parentheses can be read in any place. -/
theorem parens {q : Nat} (h : Readable place text e) (hq : q ≤ 7) :
    Readable q (QuerySignature.parens text) e := by
  intro stack hstack
  obtain ⟨last, above, hreads, hclose⟩ := h.enclosed .paren rfl rfl (hstack.mono hq)
  have hopening : Passes (.want stack) "(" (.want (.paren :: stack)) := .opening _
  refine ⟨e, stack, ?_, fun _ _ => rfl⟩
  rw [← State.step_closing_paren hclose]
  exact (hopening.then hreads).closing.reads

/-- An operand, in parentheses where its place asks for them. -/
theorem operand {p : Nat} (h : Readable p text e) (hplace : place ≤ 7) :
    Readable place (operandText place p text) e := by
  unfold operandText
  split
  · exact h.parens hplace
  · next hle => exact h.mono (Nat.le_of_not_lt hle)

/-! ## Operators and tests -/

variable {leftText rightText : String} {left right : Expr}

/-- An operator between its operands. -/
theorem connector (op : Connector) (hleft : Readable op.leftPlace leftText left)
    (hright : Readable op.rightPlace rightText right) :
    Readable op.precedence (leftText ++ op.text ++ rightText) (op.join left right) := by
  intro stack hstack
  obtain ⟨last, above, hreads, hclose⟩ := hleft stack (hstack.mono op.precedence_le_leftPlace)
  -- what the operator ends of the left operand and of the stack
  obtain ⟨whole, rest, hwhole, hready, hjoin⟩ := close_join hstack left
  have hbehind : close op.leftPlace last above = (whole, rest) :=
    (hclose _ (Nat.le_refl _)).trans hwhole
  have hoperator := hreads.connected hbehind hready
  obtain ⟨last', above', hreads', hclose'⟩ :=
    hright (.operator whole op :: rest) ⟨Nat.le_refl _, hready⟩
  refine ⟨last', above', hoperator.then hreads', ?_⟩
  intro strength hle
  calc close strength last' above'
      = close strength right (.operator whole op :: rest) :=
        hclose' strength (Nat.le_trans hle op.precedence_le_rightPlace)
    _ = close strength (op.join whole right) rest := close_operator hle rest
    _ = close strength (op.join left right) stack := hjoin strength hle right

/-- An operator whose text is put together from three parts. -/
theorem parted (op : Connector) {first second third : String}
    (htext : op.text = first ++ second ++ third) (hleft : Readable op.leftPlace leftText left)
    (hright : Readable op.rightPlace rightText right) :
    Readable op.precedence (leftText ++ first ++ second ++ third ++ rightText)
      (op.join left right) := by
  have hwhole := connector op hleft hright
  rw [htext, ← String.append_assoc, ← String.append_assoc] at hwhole
  exact hwhole

variable {low high : String} {lower upper : Expr}

/-- The expression of a test is all that is ended before it. -/
theorem tested (h : Readable Expr.operandPlace text e) {stack : List Unfinished}
    (hstack : Ready 4 stack) :
    ∃ last above, ReadsTo (.want stack) text (.got last above) ∧
      close Expr.operandPlace last above = (e, stack) := by
  obtain ⟨last, above, hreads, hclose⟩ := h stack (hstack.mono (Nat.le_succ 4))
  exact ⟨last, above, hreads,
    (hclose _ (Nat.le_refl _)).trans (close_operandPlace hstack e)⟩

theorem between (negated : Bool) (hvalue : Readable Expr.operandPlace text e)
    (hlow : Readable Expr.operandPlace low lower) (hhigh : Readable Expr.operandPlace high upper) :
    Readable 4 (text ++ " " ++ negation negated ++ "BETWEEN " ++ low ++ " AND " ++ high)
      (.between negated e lower upper) := by
  intro stack hstack
  obtain ⟨last, above, hreads, hclose⟩ := hvalue.tested hstack
  -- the lower bound stands in a form that only this AND ends
  have hbetween : Passes (.want stack) (text ++ " " ++ negation negated ++ ("BETWEEN" ++ " "))
      (.want (.low negated e :: stack)) := by
    rw [← String.append_assoc]
    exact (hreads.tested hclose negated (by decide)).blank
  obtain ⟨last₁, above₁, hreads₁, hclose₁⟩ := hlow (.low negated e :: stack) ⟨Nat.le_refl _, hstack⟩
  -- and this AND ends what is in front of it like any other
  have hstep : (State.got last₁ above₁).step (.word "AND") =
      .want (.high negated e lower :: stack) := by
    rw [State.step_got_word, State.goOn_of_connector (show connector? "AND" = some .and from rfl),
      hclose₁ Connector.and.leftPlace (by decide)]
    rfl
  have hand := (hbetween.then hreads₁).between (show IsWord "AND" by decide)
  rw [hstep] at hand
  obtain ⟨last₂, above₂, hreads₂, hclose₂⟩ :=
    hhigh (.high negated e lower :: stack) ⟨Nat.le_refl _, hstack⟩
  refine ⟨last₂, above₂, hand.then hreads₂, ?_⟩
  intro strength hle
  rw [hclose₂ strength (Nat.le_succ_of_le hle), close, Unfinished.whole?, if_pos hle]

theorem isNull (negated : Bool) (h : Readable Expr.operandPlace text e) :
    Readable 4 (text ++ " IS " ++ negation negated ++ "NULL") (.isNull negated e) := by
  intro stack hstack
  obtain ⟨last, above, hreads, hclose⟩ := h.tested hstack
  have his := hreads.between (show IsWord "IS" by decide)
  rw [State.step_got_word, State.goOn_is, hclose] at his
  refine ⟨.isNull negated e, stack, ?_, fun _ _ => rfl⟩
  cases negated with
  | false =>
    rw [negation, if_neg Bool.false_ne_true, String.append_empty]
    exact his.then (.word _ (by decide))
  | true =>
    have hnot : Passes (.behindIs false e stack) ("NOT" ++ " ") (.behindIs true e stack) :=
      (ReadsTo.word _ (by decide)).blank
    exact (his.trans hnot).then (.word _ (by decide))

theorem not (h : Readable 3 text e) : Readable 3 ("NOT " ++ text) (.not e) := by
  intro stack hstack
  have hnot : Passes (.want stack) ("NOT" ++ " ") (.want (.not :: stack)) :=
    (ReadsTo.word _ (by decide)).blank
  obtain ⟨last, above, hreads, hclose⟩ := h (.not :: stack) ⟨Nat.le_refl _, hstack⟩
  refine ⟨last, above, hnot.then hreads, ?_⟩
  intro strength hle
  rw [hclose strength hle, close, Unfinished.whole?, if_pos hle]

/-! ## Lists -/

section

variable {listing : Listing} {stack : List Unfinished} {s : State} {before : String}

/-- One expression at least, and what follows up to the parenthesis behind the list. -/
theorem passes_items {texts : List String} {es done : List Expr}
    (hs : Passes s before (.want (.listed listing done :: stack)))
    (hstack : Ready listing.precedence stack) (hfirst : Readable 0 text e)
    (hrest : List.Forall₂ (Readable 0) texts es) :
    Passes s (before ++ commas (text :: texts) ++ ")")
      (.got (listing.expr (done ++ e :: es)) stack) := by
  -- by induction on what follows the first expression; the form gathers what has been read
  induction hrest generalizing text e before done with
  | nil =>
    obtain ⟨last, above, hreads, hclose⟩ := hfirst.enclosed (.listed listing done) rfl rfl hstack
    have hlast : commas [text] = text := rfl
    rw [hlast, ← State.step_closing_listed hclose]
    exact (hs.then hreads).closing
  | @cons next value texts es hnext _ ih =>
    obtain ⟨last, above, hreads, hclose⟩ := hfirst.enclosed (.listed listing done) rfl rfl hstack
    have hcomma := (hs.then hreads).comma
    rw [State.step_comma hclose] at hcomma
    have htext : before ++ commas (text :: next :: texts) =
        before ++ text ++ ", " ++ commas (next :: texts) := by
      simp only [commas, String.intercalate_cons_cons, String.append_assoc]
    have hdone : done ++ e :: value :: es = done ++ [e] ++ value :: es := by simp
    rw [htext, hdone]
    exact ih hcomma hnext

/-- A list of expressions and the parenthesis behind it end a form that has begun. -/
theorem passes_listed {texts : List String} {es : List Expr}
    (hs : Passes s before (.want (.listed listing [] :: stack)))
    (hstack : Ready listing.precedence stack) (h : List.Forall₂ (Readable 0) texts es) :
    Passes s (before ++ commas texts ++ ")") (.got (listing.expr es) stack) := by
  cases h with
  | nil =>
    have hclosing : Passes (.want (.listed listing [] :: stack)) ")"
        (.got (listing.expr []) stack) := fun _ => rfl
    have hnone : commas [] = "" := rfl
    rw [hnone, String.append_empty]
    exact hs.trans hclosing
  | cons hfirst hrest => exact passes_items hs hstack hfirst hrest

end

theorem inList (negated : Bool) (h : Readable Expr.operandPlace text e) {texts : List String}
    {es : List Expr} (hitems : List.Forall₂ (Readable 0) texts es) :
    Readable 4 (text ++ " " ++ negation negated ++ "IN (" ++ commas texts ++ ")")
      (.inList negated e es) := by
  intro stack hstack
  obtain ⟨last, above, hreads, hclose⟩ := h.tested hstack
  have htest := (hreads.tested hclose negated (show "IN" ∈ _ by decide)).blank
  have hopening : Passes (.want stack) (text ++ " " ++ negation negated ++ "IN (")
      (.want (.listed (.items negated e) [] :: stack)) := by
    have htext : "IN (" = "IN" ++ " " ++ "(" := rfl
    rw [htext, ← String.append_assoc, ← String.append_assoc]
    exact htest.trans (.opening _)
  exact ⟨.inList negated e es, stack, (passes_listed hopening hstack hitems).reads, fun _ _ => rfl⟩

theorem call {function : String} (hname : IsName function) (distinct : Bool) {texts : List String}
    {es : List Expr} (harguments : List.Forall₂ (Readable 0) texts es) :
    Readable 7 (function ++ "(" ++ (if distinct then "DISTINCT " else "") ++ commas texts ++ ")")
      (.call function distinct es) := by
  intro stack hstack
  -- the name is read as a column at first, and the parenthesis tells that it is none
  have htable : ∀ table ∈ (none : Option String), IsIdentifier table := by simp
  have hfunction : ReadsTo (.want stack) function (.got (.column ⟨none, function⟩) stack) :=
    ReadsTo.column (c := ⟨none, function⟩) htable hname.identifier (fun _ => hname.free) stack
  have hopening : Passes (.want stack) (function ++ "(")
      (.want (.listed (.arguments function false) [] :: stack)) := hfunction.opening
  have hdistinct : Passes (.want stack)
      (function ++ "(" ++ (if distinct then "DISTINCT " else ""))
      (.want (.listed (.arguments function distinct) [] :: stack)) := by
    cases distinct with
    | false =>
      rw [if_neg Bool.false_ne_true, String.append_empty]
      exact hopening
    | true =>
      rw [if_pos rfl]
      have hword : Passes (.want (.listed (.arguments function false) [] :: stack))
          ("DISTINCT" ++ " ") (.want (.listed (.arguments function true) [] :: stack)) :=
        (ReadsTo.word _ (by decide)).blank
      exact hopening.trans hword
  exact ⟨.call function distinct es, stack, (passes_listed hdistinct hstack harguments).reads,
    fun _ _ => rfl⟩

end Readable

/-! ## Branches -/

/-- A state in which a branch of a CASE, its ELSE or its END may follow. -/
def Branching (s : State) (operand : Option Expr) (branches : List WhenThen)
    (stack : List Unfinished) : Prop :=
  ∀ word ∈ ["WHEN", "ELSE", "END"], s.step (.word word) = .branch operand branches stack word

section

variable {s s' : State} {before : String} {operand : Option Expr} {done : List WhenThen}
  {stack : List Unfinished}

theorem branching_of_close {last : Expr} {above : List Unfinished}
    (h : ∀ word, State.ended word (close 0 last above) = .branch operand done stack word) :
    Branching (.got last above) operand done stack := by
  intro word hword
  have hending : word ∈ ["WHEN", "THEN", "ELSE", "END"] := by
    revert word
    decide
  rw [State.step_got_word, State.goOn_of_ending hending, h]

/-- CASE and its operand, if there is one. -/
theorem reads_caseOperand (hstack : Ready 7 stack)
    (h : ∀ e ∈ operand, Readable 0 e.text e.canonical) :
    ∃ s', ReadsTo (.want stack) ("CASE" ++ clauseText " " operand) s' ∧
      Branching s' (canonicalSome operand) [] stack := by
  have hcase : ReadsTo (.want stack) "CASE" (.want (.caseOperand :: stack)) := .word _ (by decide)
  cases operand with
  | none =>
    refine ⟨_, hcase, ?_⟩
    intro word hword
    simp only [List.mem_cons, List.not_mem_nil, or_false] at hword
    rcases hword with rfl | rfl | rfl <;> rfl
  | some e =>
    obtain ⟨last, above, hreads, hclose⟩ := (h e rfl).enclosed .caseOperand rfl rfl hstack
    refine ⟨.got last above, ?_, branching_of_close fun word => ?_⟩
    · rw [clauseText, ← String.append_assoc]
      exact hcase.blank.then hreads
    · rw [hclose]
      rfl

/-- Branches behind those that have been read. -/
theorem reads_branches {branches : List WhenThen} (hs : ReadsTo s before s')
    (hbranching : Branching s' operand done stack) (hstack : Ready 7 stack)
    (h : ∀ branch ∈ branches, Readable 0 branch.condition.text branch.condition.canonical ∧
      Readable 0 branch.result.text branch.result.canonical) :
    ∃ s'', ReadsTo s (before ++ whenTexts branches) s'' ∧
      Branching s'' operand (done ++ canonicalBranches branches) stack := by
  induction branches generalizing before s' done with
  | nil =>
    refine ⟨s', ?_, ?_⟩
    · rw [whenTexts, String.append_empty]
      exact hs
    · rw [canonicalBranches, List.append_nil]
      exact hbranching
  | cons branch rest ih =>
    obtain ⟨condition, result⟩ := branch
    obtain ⟨hcondition, hresult⟩ := h _ List.mem_cons_self
    have hwhen := hs.between (show IsWord "WHEN" by decide)
    rw [hbranching "WHEN" (by decide)] at hwhen
    obtain ⟨last, above, hreads, hclose⟩ :=
      hcondition.enclosed (.condition operand done) rfl rfl hstack
    have hthen := (hwhen.then hreads).between (show IsWord "THEN" by decide)
    rw [State.step_got_word, State.goOn_of_ending (by decide), hclose] at hthen
    obtain ⟨last', above', hreads', hclose'⟩ :=
      hresult.enclosed (.result operand done condition.canonical) rfl rfl hstack
    -- behind the result stands what may follow a branch, and this one is among those before it
    have hbranch : Branching (.got last' above') operand
        (done ++ [⟨condition.canonical, result.canonical⟩]) stack :=
      branching_of_close fun word => by rw [hclose']; rfl
    obtain ⟨s'', hrest, hend⟩ := ih (hthen.then hreads') hbranch fun branch hbranch =>
      h branch (.tail _ hbranch)
    refine ⟨s'', ?_, ?_⟩
    · have htext : before ++ whenTexts (⟨condition, result⟩ :: rest) =
          before ++ (" " ++ "WHEN" ++ " ") ++ condition.text ++ (" " ++ "THEN" ++ " ") ++
            result.text ++ whenTexts rest := by
        simp [whenTexts, String.append_assoc]
      rw [htext]
      exact hrest
    · rw [List.append_assoc] at hend
      exact hend

/-- ELSE, if there is one, and END. -/
theorem reads_otherwise {otherwise : Option Expr} (hs : ReadsTo s before s')
    (hbranching : Branching s' operand done stack) (hstack : Ready 7 stack)
    (h : ∀ e ∈ otherwise, Readable 0 e.text e.canonical) :
    ReadsTo s (before ++ clauseText " ELSE " otherwise ++ " END")
      (.got (.case operand done (canonicalSome otherwise)) stack) := by
  have htext : " END" = " " ++ "END" := rfl
  cases otherwise with
  | none =>
    have hend := hs.append (show IsWord "END" by decide)
    rw [hbranching "END" (by decide)] at hend
    rw [clauseText, String.append_empty, htext]
    exact hend
  | some e =>
    have helse := hs.between (show IsWord "ELSE" by decide)
    rw [hbranching "ELSE" (by decide)] at helse
    obtain ⟨last, above, hreads, hclose⟩ :=
      (h e rfl).enclosed (.otherwise operand done) rfl rfl hstack
    have hend := (helse.then hreads).append (show IsWord "END" by decide)
    rw [State.step_got_word, State.goOn_of_ending (by decide), hclose] at hend
    have hclause : before ++ clauseText " ELSE " (some e) = before ++ " ELSE " ++ e.text :=
      String.append_assoc.symm
    rw [hclause, htext]
    exact hend

end

theorem Readable.case {operand otherwise : Option Expr} {branches : List WhenThen}
    (hoperand : ∀ e ∈ operand, Readable 0 e.text e.canonical)
    (hbranches : ∀ branch ∈ branches, Readable 0 branch.condition.text branch.condition.canonical ∧
      Readable 0 branch.result.text branch.result.canonical)
    (hotherwise : ∀ e ∈ otherwise, Readable 0 e.text e.canonical) :
    Readable 7 ("CASE" ++ clauseText " " operand ++ whenTexts branches ++
        clauseText " ELSE " otherwise ++ " END")
      (.case (canonicalSome operand) (canonicalBranches branches) (canonicalSome otherwise)) := by
  intro stack hstack
  obtain ⟨s, hreads, hbranching⟩ := reads_caseOperand hstack hoperand
  obtain ⟨s', hreads', hbranching'⟩ := reads_branches hreads hbranching hstack hbranches
  exact ⟨_, stack, reads_otherwise hreads' hbranching' hstack hotherwise, fun _ _ => rfl⟩

/-! ## All forms -/

mutual

/-- The text of an expression is read as its canonical form. -/
theorem Expr.readable : (e : Expr) → e.Legible → Readable e.precedence e.text e.canonical
  -- words and quoted texts
  | .literal (.string s), _ => .of_reads fun stack => .quote _ s
  | .literal (.int n), _ => .of_reads fun stack => by
    have hreads := ReadsTo.atom (isWord_int n) (not_mem_keywords (not_isNamed_int n)) stack
    rw [atom_int] at hreads
    exact hreads
  | .literal (.bool b), _ => .of_reads fun stack => by
    cases b with
    | false => exact .word _ (show IsWord "FALSE" by decide)
    | true => exact .word _ (show IsWord "TRUE" by decide)
  | .literal .null, _ => .of_reads fun stack => .word _ (show IsWord "NULL" by decide)
  | .literal (.float _), h => h.elim
  | .column c, ⟨htable, hname⟩ => .of_reads fun stack =>
    .column (fun table ht => (htable table ht).identifier) hname.identifier (fun _ => hname.free)
      stack
  | .parameter name, h => .of_reads fun stack => by
    have hreads := ReadsTo.atom (isWord_parameter h) (not_mem_keywords (not_isNamed_parameter name))
      stack
    rw [atom_parameter] at hreads
    exact hreads
  | .star, _ => .of_reads fun stack => .word _ (show IsWord "*" by decide)
  -- operators and tests, with their operands in the places that the printer gives them
  | .arithmetic op left right, ⟨hleft, hright⟩ =>
    .parted (.arithmetic op) rfl ((left.readable hleft).operand (Connector.leftPlace_le _))
      ((right.readable hright).operand (Connector.rightPlace_le _))
  | .compare op left right, ⟨hleft, hright⟩ =>
    .parted (.compare op) rfl ((left.readable hleft).operand (Connector.leftPlace_le _))
      ((right.readable hright).operand (Connector.rightPlace_le _))
  | .and left right, ⟨hleft, hright⟩ =>
    .connector .and ((left.readable hleft).operand (Connector.leftPlace_le _))
      ((right.readable hright).operand (Connector.rightPlace_le _))
  | .or left right, ⟨hleft, hright⟩ =>
    .connector .or ((left.readable hleft).operand (Connector.leftPlace_le _))
      ((right.readable hright).operand (Connector.rightPlace_le _))
  | .like negated value pattern, ⟨hvalue, hpattern⟩ =>
    .parted (.like negated) rfl ((value.readable hvalue).operand (Connector.leftPlace_le _))
      ((pattern.readable hpattern).operand (Connector.rightPlace_le _))
  | .between negated value low high, ⟨hvalue, hlow, hhigh⟩ =>
    .between negated ((value.readable hvalue).operand (by decide))
      ((low.readable hlow).operand (by decide)) ((high.readable hhigh).operand (by decide))
  | .inList negated value items, ⟨hvalue, hitems⟩ =>
    .inList negated ((value.readable hvalue).operand (by decide)) (readable_all items hitems)
  | .isNull negated value, h => .isNull negated ((value.readable h).operand (by decide))
  | .not operand, h => .not ((operand.readable h).operand (by decide))
  -- forms that their own words or parentheses end
  | .paren inner, h => (inner.readable h).parens (Nat.le_refl 7)
  | .call function distinct arguments, ⟨hname, harguments⟩ =>
    .call hname distinct (readable_all arguments harguments)
  | .case operand branches otherwise, ⟨hoperand, hbranches, hotherwise⟩ =>
    .case (readable_some operand hoperand) (readable_branches branches hbranches)
      (readable_some otherwise hotherwise)
  | .inQuery .., h => h.elim
  | .scalar _, h => h.elim
  | .hasRows _, h => h.elim

/-- So are those of a list of expressions. -/
theorem readable_all : (es : List Expr) → LegibleAll es →
    List.Forall₂ (Readable 0) (exprTexts es) (canonicalAll es)
  | [], _ => .nil
  | e :: rest, ⟨he, hrest⟩ =>
    .cons ((e.readable he).mono (Nat.zero_le _)) (readable_all rest hrest)

/-- So is that of an expression, if there is one. -/
theorem readable_some : (o : Option Expr) → LegibleSome o →
    ∀ e ∈ o, Readable 0 e.text e.canonical
  | none, _ => fun _ he => by cases he
  | some e, h => fun e' he' => by
    cases he'
    exact (e.readable h).mono (Nat.zero_le _)

/-- So are those of the branches of a CASE. -/
theorem readable_branches : (branches : List WhenThen) → LegibleBranches branches →
    ∀ branch ∈ branches, Readable 0 branch.condition.text branch.condition.canonical ∧
      Readable 0 branch.result.text branch.result.canonical
  | [], _ => fun _ hbranch => by cases hbranch
  | ⟨condition, result⟩ :: rest, ⟨hcondition, hresult, hrest⟩ => fun branch hbranch => by
    rcases List.mem_cons.1 hbranch with rfl | hbranch
    · exact ⟨(condition.readable hcondition).mono (Nat.zero_le _),
        (result.readable hresult).mono (Nat.zero_le _)⟩
    · exact readable_branches rest hrest branch hbranch

end

/-- The text of an expression is read as its canonical form. -/
theorem readExpr?_text {e : Expr} (h : e.Legible) : readExpr? e.text = some e.canonical := by
  obtain ⟨last, above, hreads, hclose⟩ := e.readable h [] trivial
  -- the end of the text ends its last word, and then all that is open
  have hend : Breaks [] := by decide
  have hread : (State.want []).read e.text.toList = .got last above := by
    have hall := hreads [] hend
    rw [List.append_nil] at hall
    exact hall
  rw [readExpr?, hread]
  simp only [hclose 0 (Nat.zero_le _), close]

example : readExpr? "x NOT IN ('it''s', -5) OR y" =
    some (.or (.inList true (.column ⟨none, "x"⟩) [.literal (.string "it's"), .literal (.int (-5))])
      (.column ⟨none, "y"⟩)) := by
  rfl

/-- A text is that of one expression, up to the parentheses that it holds and the sides to which its
chains of ANDs and of ORs lean. -/
theorem Expr.canonical_eq_of_text_eq {e e' : Expr} (h : e.Legible) (h' : e'.Legible)
    (htext : e.text = e'.text) : e.canonical = e'.canonical := by
  have hread : some e.canonical = some e'.canonical := by
    rw [← readExpr?_text h, ← readExpr?_text h', htext]
  exact Option.some.inj hread

/-- `(x OR y) AND x AND NOT y`, as a chain that leans to the right. -/
def rightChain : Expr :=
  .and (.or (.column ⟨none, "x"⟩) (.column ⟨none, "y"⟩))
    (.and (.column ⟨none, "x"⟩) (.not (.column ⟨none, "y"⟩)))

/-- The same text as a chain that leans to the left, with parentheses that the tree holds. -/
def leftChain : Expr :=
  .and (.and (.paren (.or (.column ⟨none, "x"⟩) (.column ⟨none, "y"⟩))) (.column ⟨none, "x"⟩))
    (.not (.column ⟨none, "y"⟩))

theorem Expr.canonical_eq_of_text_eq_chains :
    rightChain.Legible ∧ leftChain.Legible ∧ rightChain.text = leftChain.text ∧
      rightChain.canonical = leftChain.canonical := by
  have hx : (Expr.column ⟨none, "x"⟩).Legible :=
    ⟨nofun, ⟨'x', [], by decide, by decide, by simp⟩, by decide⟩
  have hy : (Expr.column ⟨none, "y"⟩).Legible :=
    ⟨nofun, ⟨'y', [], by decide, by decide, by simp⟩, by decide⟩
  have hright : rightChain.Legible := ⟨⟨hx, hy⟩, hx, hy⟩
  have hleft : leftChain.Legible := ⟨⟨⟨hx, hy⟩, hx⟩, hy⟩
  have htext : rightChain.text = leftChain.text := by decide
  exact ⟨hright, hleft, htext, Expr.canonical_eq_of_text_eq hright hleft htext⟩

end QuerySignature
