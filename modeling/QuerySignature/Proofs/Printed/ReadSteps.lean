import QuerySignature.Proofs.Printed.Reader

namespace QuerySignature

/-! # Reading pieces of text

What reading does with a piece of text, whatever follows it. Behind a word or a quoted text must
follow something that ends it; behind a blank or a parenthesis anything may follow.

- `Passes`, `ReadsTo`: a text leads from a state to another.
- `ReadsTo.word`, `ReadsTo.blank`, `ReadsTo.closing`, ...: texts put together from lexemes.
- `ReadsTo.tested`, `ReadsTo.connected`: an operand and the operator behind it.
-/

/-- Reading a text leads from a state to another, whatever follows. -/
def Passes (s : State) (text : String) (s' : State) : Prop :=
  ∀ rest, s.read (text.toList ++ rest) = s'.read rest

/-- So it does if something follows that ends words and quoted texts. -/
def ReadsTo (s : State) (text : String) (s' : State) : Prop :=
  ∀ rest, Breaks rest → s.read (text.toList ++ rest) = s'.read rest

variable {s s' s'' : State} {text more : String}

theorem Passes.reads (h : Passes s text s') : ReadsTo s text s' := fun rest _ => h rest

/-! ## Single lexemes -/

theorem Passes.opening (s : State) : Passes s "(" (s.step .opening) := fun _ => rfl

theorem ReadsTo.word (s : State) (h : IsWord text) : ReadsTo s text (s.step (.word text)) := by
  intro rest hrest
  rw [State.read, lex_word h hrest]
  rfl

theorem ReadsTo.quote (s : State) (content : String) :
    ReadsTo s (Literal.quote content) (s.step (.quoted content)) := by
  intro rest hrest
  rw [State.read, lex_quote content hrest]
  rfl

/-! ## Texts in a row -/

theorem Passes.trans (h : Passes s text s') (h' : Passes s' more s'') :
    Passes s (text ++ more) s'' := by
  intro rest
  rw [String.toList_append, List.append_assoc, h, h']

theorem Passes.then (h : Passes s text s') (h' : ReadsTo s' more s'') :
    ReadsTo s (text ++ more) s'' := by
  intro rest hrest
  rw [String.toList_append, List.append_assoc, h, h' rest hrest]

namespace ReadsTo

theorem blank (h : ReadsTo s text s') : Passes s (text ++ " ") s' := by
  intro rest
  rw [String.toList_append, List.append_assoc]
  exact (h (' ' :: rest) (by simp [Breaks, isSeparator])).trans rfl

theorem opening (h : ReadsTo s text s') : Passes s (text ++ "(") (s'.step .opening) := by
  intro rest
  rw [String.toList_append, List.append_assoc]
  exact (h ('(' :: rest) (by simp [Breaks, isSeparator])).trans rfl

theorem closing (h : ReadsTo s text s') : Passes s (text ++ ")") (s'.step .closing) := by
  intro rest
  rw [String.toList_append, List.append_assoc]
  exact (h (')' :: rest) (by simp [Breaks, isSeparator])).trans rfl

theorem comma (h : ReadsTo s text s') : Passes s (text ++ ", ") (s'.step .comma) := by
  intro rest
  rw [String.toList_append, List.append_assoc]
  exact (h (',' :: ' ' :: rest) (by simp [Breaks, isSeparator])).trans rfl

/-- A word behind a blank. -/
theorem append (h : ReadsTo s text s') (hword : IsWord more) :
    ReadsTo s (text ++ (" " ++ more)) (s'.step (.word more)) := by
  rw [← String.append_assoc]
  exact h.blank.then (.word s' hword)

/-- A word between blanks. -/
theorem between (h : ReadsTo s text s') (hword : IsWord more) :
    Passes s (text ++ (" " ++ more ++ " ")) (s'.step (.word more)) := by
  rw [← String.append_assoc]
  exact (h.append hword).blank

end ReadsTo

/-! ## Single steps -/

namespace State

variable {last e : Expr} {above stack : List Unfinished} {listing : Listing} {done : List Expr}
  {word : String}

theorem step_got_word (last : Expr) (stack : List Unfinished) (word : String) :
    (got last stack).step (.word word) = goOn last stack word := rfl

/-- A word that is no keyword stands for an expression. -/
theorem start_of_not_mem (h : word ∉ keywords) (stack : List Unfinished) :
    start stack word = got (atom word) stack := by
  have hother {other : String} (hother : other ∈ keywords) : word ≠ other := by
    rintro rfl
    exact h hother
  have hbranch : word ∉ ["WHEN", "ELSE", "END"] := by
    have hkeywords : ∀ word ∈ ["WHEN", "ELSE", "END"], word ∈ keywords := by decide
    exact fun hword => h (hkeywords _ hword)
  unfold start
  rw [if_neg (hother (by decide)), if_neg (hother (by decide)), if_neg (hother (by decide)),
    if_neg hbranch]

theorem goOn_of_connector {op : Connector} (h : connector? word = some op) :
    goOn last stack word = connect op (close op.leftPlace last stack) := by
  rw [goOn, h]

theorem goOn_of_test (h : word ∈ ["BETWEEN", "IN", "LIKE"]) :
    goOn last stack word = test false word (close Expr.operandPlace last stack) := by
  have hother : connector? word = none ∧ word ≠ "NOT" ∧ word ≠ "IS" := by
    revert word
    decide
  rw [goOn, hother.1]
  simp only [if_neg hother.2.1, if_neg hother.2.2, if_pos h]

theorem goOn_of_ending (h : word ∈ ["WHEN", "THEN", "ELSE", "END"]) :
    goOn last stack word = ended word (close 0 last stack) := by
  have hother : connector? word = none ∧ word ≠ "NOT" ∧ word ≠ "IS" ∧
      word ∉ ["BETWEEN", "IN", "LIKE"] := by
    revert word
    decide
  rw [goOn, hother.1]
  simp only [if_neg hother.2.1, if_neg hother.2.2.1, if_neg hother.2.2.2]

theorem goOn_not : goOn last stack "NOT" =
    .behindNot (close Expr.operandPlace last stack).1 (close Expr.operandPlace last stack).2 := rfl

theorem goOn_is : goOn last stack "IS" =
    .behindIs false (close Expr.operandPlace last stack).1
      (close Expr.operandPlace last stack).2 := rfl

theorem step_closing_paren (h : close 0 last above = (e, .paren :: stack)) :
    (got last above).step .closing = got e stack := by
  rw [step, h]

theorem step_closing_listed (h : close 0 last above = (e, .listed listing done :: stack)) :
    (got last above).step .closing = got (listing.expr (done ++ [e])) stack := by
  rw [step, h]

theorem step_comma (h : close 0 last above = (e, .listed listing done :: stack)) :
    (got last above).step .comma = want (.listed listing (done ++ [e]) :: stack) := by
  rw [step, h]

end State

/-! ## Behind an operand -/

section

variable {value last : Expr} {stack rest : List Unfinished}

/-- The words of a test, with NOT or without, behind the expression that it tests. -/
theorem ReadsTo.tested (h : ReadsTo s text (.got last stack))
    (hclose : close Expr.operandPlace last stack = (value, rest)) (negated : Bool) {word : String}
    (hword : word ∈ ["BETWEEN", "IN", "LIKE"]) :
    ReadsTo s (text ++ " " ++ negation negated ++ word) (.test negated word (value, rest)) := by
  have hlexeme : IsWord word := by
    revert word
    decide
  cases negated with
  | false =>
    have hstep : (State.got last stack).step (.word word) = .test false word (value, rest) := by
      rw [State.step_got_word, State.goOn_of_test hword, hclose]
    rw [negation, if_neg Bool.false_ne_true, String.append_empty, ← hstep]
    exact h.blank.then (.word _ hlexeme)
  | true =>
    have hstep : (State.got last stack).step (.word "NOT") = .behindNot value rest := by
      rw [State.step_got_word, State.goOn_not, hclose]
    have htext : text ++ " " ++ negation true = text ++ (" " ++ "NOT" ++ " ") := by
      rw [String.append_assoc]
      rfl
    have hnot : Passes s (text ++ " " ++ negation true) (.behindNot value rest) := by
      rw [htext, ← hstep]
      exact h.between (by decide)
    exact hnot.then (.word _ hlexeme)

/-- An operator behind its left operand. -/
theorem ReadsTo.connected {op : Connector} (h : ReadsTo s text (.got last stack))
    (hclose : close op.leftPlace last stack = (value, rest)) (hready : Ready op.precedence rest) :
    Passes s (text ++ op.text) (.want (.operator value op :: rest)) := by
  -- all but LIKE are single words
  have hword (word : String) (htext : op.text = " " ++ word ++ " ") (hlexeme : IsWord word)
      (hop : connector? word = some op) :
      Passes s (text ++ op.text) (.want (.operator value op :: rest)) := by
    have hstep : (State.got last stack).step (.word word) = .want (.operator value op :: rest) := by
      rw [State.step_got_word, State.goOn_of_connector hop, hclose, State.connect_of_ready hready]
    rw [htext, ← hstep]
    exact h.between hlexeme
  cases op with
  | and => exact hword "AND" rfl (by decide) rfl
  | or => exact hword "OR" rfl (by decide) rfl
  | arithmetic op => exact hword op.text rfl (by cases op <;> decide) (by cases op <;> rfl)
  | compare op => exact hword op.text rfl (by cases op <;> decide) (by cases op <;> rfl)
  | like negated =>
    have htext : text ++ Connector.text (.like negated) =
        text ++ " " ++ negation negated ++ "LIKE" ++ " " := by
      simp [Connector.text, String.append_assoc]
    rw [htext]
    exact (h.tested hclose negated (by decide)).blank

end

end QuerySignature
