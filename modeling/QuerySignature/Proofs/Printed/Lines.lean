import QuerySignature.Proofs.Printed.Scanned

namespace QuerySignature

/-! # Lines of printed texts

Printing makes no line breaks. Where names have none either, all line breaks of a printed text stand
inside of texts in quotes.

- `flaggedBelow_doubled`: what quotes a text hides no flag of it, and completes none;
- `Flags`: the lines of some pieces that start with a flag are lines of texts in quotes;
- `Flags.append`, `Flags.between`, ...: pieces put together;
- `Flags.literal`: a literal has the lines of the text that it quotes.
-/

/-! ## Lines -/

/-- A text without line breaks, such as an identifier. -/
def OneLine (text : String) : Prop := AllChars (· ≠ '\n') text

instance (text : String) : Decidable (OneLine text) :=
  inferInstanceAs (Decidable (AllChars (· ≠ '\n') text))

/-- Names without line breaks. -/
def oneLineNaming : Naming := ⟨OneLine, OneLine⟩

/-- Whether a line below the first starts with a flag. -/
def flaggedBelow (flag : List Char) (text : List Char) : Bool :=
  (laterLines text).any (startsWithFlag flag)

/-- Whether a text that stands in quotes has a line below its first that starts with a flag. -/
def holdsFlag (flag text : String) : Bool := flaggedBelow flag.toList text.toList

theorem hasFlag_eq (flag text : String) : hasFlag flag text =
    (startsWithFlag flag.toList text.toList || flaggedBelow flag.toList text.toList) := rfl

theorem flaggedBelow_cons (flag : List Char) (c : Char) (rest : List Char) :
    flaggedBelow flag (c :: rest) =
      (c == '\n' && startsWithFlag flag rest || flaggedBelow flag rest) := by
  unfold flaggedBelow
  rw [laterLines]
  by_cases hc : c = '\n'
  · rw [if_pos hc, hc]
    rfl
  · rw [if_neg hc, beq_false_of_ne hc]
    rfl

/-- A text without line breaks is on the line of what follows it. -/
theorem flaggedBelow_append {text : List Char} (h : ∀ c ∈ text, c ≠ '\n') (flag rest : List Char) :
    flaggedBelow flag (text ++ rest) = flaggedBelow flag rest := by
  induction text with
  | nil => rfl
  | cons c tail ih =>
    rw [List.cons_append, flaggedBelow_cons, beq_false_of_ne (h c (.head _)), Bool.false_and,
      Bool.false_or]
    exact ih fun d hd => h d (.tail _ hd)

/-! ## Quoted texts -/

theorem doubled_cons_quote (cs : List Char) : doubled ('\'' :: cs) = '\'' :: '\'' :: doubled cs := rfl

theorem doubled_cons {c : Char} (hc : c ≠ '\'') (cs : List Char) :
    doubled (c :: cs) = c :: doubled cs := by
  simp [doubled, hc]

section

variable (cs rest : List Char)

theorem dropWhile_doubled : (doubled cs ++ '\'' :: rest).dropWhile isBlank =
    doubled (cs.dropWhile isBlank) ++ '\'' :: rest := by
  induction cs with
  | nil => rfl
  | cons c tail ih =>
    by_cases hc : c = '\''
    · subst hc
      rfl
    · rw [doubled_cons hc, List.cons_append, List.dropWhile_cons, List.dropWhile_cons, ih]
      split
      · rfl
      · rw [doubled_cons hc, List.cons_append]

/-- A word without quotes is found in a quoted text where it is in the text itself. -/
theorem behind?_doubled {word : List Char} (hword : '\'' ∉ word) :
    behind? word (doubled cs ++ '\'' :: rest) =
      (behind? word cs).map fun after => doubled after ++ '\'' :: rest := by
  induction word generalizing cs with
  | nil => cases cs <;> rfl
  | cons w word ih =>
    obtain ⟨hw, hword⟩ := List.ne_and_not_mem_of_not_mem_cons hword
    cases cs with
    | nil =>
      show (if w = '\'' then _ else none) = none
      rw [if_neg hw.symm]
    | cons c tail =>
      by_cases hc : c = '\''
      · subst hc
        show (if w = '\'' then _ else none) = Option.map _ (if w = '\'' then _ else none)
        rw [if_neg hw.symm, if_neg hw.symm]
        rfl
      · rw [doubled_cons hc, List.cons_append, behind?, behind?, ih tail hword]
        split
        · rfl
        · rfl

theorem wordGoesOn_doubled : wordGoesOn (doubled cs ++ '\'' :: rest) = wordGoesOn cs := by
  have hquote : isWordChar '\'' = false := by decide
  cases cs with
  | nil => exact hquote
  | cons c tail =>
    by_cases hc : c = '\''
    · subst hc
      rfl
    · rw [doubled_cons hc]
      rfl

variable {flag : List Char} (hflag : '\'' ∉ flag)

include hflag

/-- The quote behind a text completes no flag. -/
theorem startsWithFlag_doubled :
    startsWithFlag flag (doubled cs ++ '\'' :: rest) = startsWithFlag flag cs := by
  have hdashes : '\'' ∉ ['-', '-'] := by decide
  have hword : '\'' ∉ '@' :: flag := by
    simp [hflag]
  unfold startsWithFlag
  rw [dropWhile_doubled, behind?_doubled _ _ hdashes]
  cases behind? ['-', '-'] (cs.dropWhile isBlank) with
  | none => rfl
  | some comment =>
    rw [Option.map_some]
    dsimp only
    rw [dropWhile_doubled, behind?_doubled _ _ hword]
    cases behind? ('@' :: flag) (comment.dropWhile isBlank) with
    | none => rfl
    | some after =>
      rw [Option.map_some]
      dsimp only
      rw [wordGoesOn_doubled]

/-- The lines of a quoted text that start with a flag are those of the text. -/
theorem flaggedBelow_doubled : flaggedBelow flag (doubled cs ++ '\'' :: rest) =
    (flaggedBelow flag cs || flaggedBelow flag rest) := by
  induction cs with
  | nil =>
    show flaggedBelow flag ('\'' :: rest) = flaggedBelow flag rest
    rw [flaggedBelow_cons]
    rfl
  | cons c tail ih =>
    by_cases hc : c = '\''
    · subst hc
      rw [doubled_cons_quote, List.cons_append, List.cons_append, flaggedBelow_cons,
        flaggedBelow_cons, flaggedBelow_cons, ih]
      rfl
    · rw [doubled_cons hc, List.cons_append, flaggedBelow_cons, flaggedBelow_cons, ih,
        startsWithFlag_doubled tail rest hflag, Bool.or_assoc]

end

/-! ## Pieces -/

/-- In some pieces of a text, whatever follows them, the lines below the first that start with a flag
are those of some texts, and those of what follows. -/
def Flags (strings : List String) (pieces : List Piece) : Prop :=
  ∀ (flag : String) (rest : List Char), '\'' ∉ flag.toList →
    flaggedBelow flag.toList ((textOf pieces).toList ++ rest) =
      (strings.any (holdsFlag flag) || flaggedBelow flag.toList rest)

/-- So it is for parts in a row, with any separator of one line between them. -/
def FlagsRow (strings : List String) (parts : List (List Piece)) : Prop :=
  ∀ separator, OneLine separator → Flags strings (separated separator parts)

namespace Flags

variable {xs ys : List String} {ps qs : List Piece} {parts : List (List Piece)}
  {text : String}

theorem nil : Flags [] [] := fun _ _ _ => rfl

theorem append (hp : Flags xs ps) (hq : Flags ys qs) :
    Flags (xs ++ ys) (ps ++ qs) := by
  intro flag rest hflag
  rw [textOf_append, String.toList_append, List.append_assoc, hp flag _ hflag, hq flag _ hflag,
    List.any_append, Bool.or_assoc]

theorem words (h : OneLine text) : Flags [] [.words text] := by
  intro flag rest _
  rw [textOf_cons, textOf_nil, String.append_empty]
  exact flaggedBelow_append h _ _

theorem placeholder {name : Option String} (h : ∀ parameter ∈ name, OneLine parameter)
    (role : Role) : Flags [] [.placeholder name role] := by
  have htext : OneLine (parameterText name) := by
    cases name with
    | none => exact (by decide : OneLine "?")
    | some name => exact AllChars.append (by decide) (h name rfl)
  exact words htext

/-- Words in front of some pieces. -/
theorem opening (h : OneLine text) (hp : Flags xs ps) : Flags xs (.words text :: ps) :=
  (words h).append hp

/-- Words behind some pieces. -/
theorem closing (hp : Flags xs ps) (h : OneLine text) :
    Flags xs (ps ++ [.words text]) := by
  have hboth := hp.append (words h)
  rwa [List.append_nil] at hboth

/-- Words between some pieces and others. -/
theorem between (hp : Flags xs ps) (h : OneLine text) (hq : Flags ys qs) :
    Flags (xs ++ ys) (ps ++ .words text :: qs) := hp.append (hq.opening h)

theorem operand (place precedence : Nat) (hp : Flags xs ps) :
    Flags xs (operandPieces place precedence ps) := by
  unfold operandPieces
  split
  · exact (hp.opening (by decide)).closing (by decide)
  · exact hp

theorem clause {opening closing : String} (hopening : OneLine opening) (hclosing : OneLine closing)
    (hparts : FlagsRow xs parts) : Flags xs (clausePieces opening parts closing) := by
  have hrow := hparts ", " (by decide)
  unfold clausePieces
  split
  case isTrue hempty =>
    rw [List.isEmpty_iff.1 hempty] at hrow
    exact hrow
  case isFalse => exact (hrow.opening hopening).closing hclosing

/-- A placeholder to sort by is printed as any other. -/
theorem asSort (hp : Flags xs ps) : Flags xs (ps.map Piece.asSort) := by
  intro flag rest hflag
  rw [textOf_asSort]
  exact hp flag rest hflag

end Flags

namespace FlagsRow

variable {xs ys : List String} {ps : List Piece} {parts : List (List Piece)}

theorem nil : FlagsRow [] [] := fun _ _ => .nil

theorem cons (hp : Flags xs ps) (hparts : FlagsRow ys parts) :
    FlagsRow (xs ++ ys) (ps :: parts) := by
  intro separator hseparator
  have hrest := hparts separator hseparator
  cases parts with
  | nil =>
    have hboth := hp.append hrest
    rwa [separated, List.append_nil] at hboth
  | cons next rest => exact hp.between hseparator hrest

end FlagsRow

/-! ## Literals -/

/-- The text that a literal quotes. -/
def Literal.strings : Literal → List String
  | .string s => [s]
  | _ => []

theorem IsNumberChar.ne_newline {c : Char} (h : IsNumberChar c) : c ≠ '\n' := by
  rintro rfl
  exact absurd h (by decide)

theorem Flags.quote (s : String) : Flags [s] [.words (Literal.quote s)] := by
  intro flag rest hflag
  have htext : (textOf [.words (Literal.quote s)]).toList ++ rest =
      '\'' :: (doubled s.toList ++ '\'' :: rest) := by
    rw [textOf_cons, textOf_nil, String.append_empty]
    show (Literal.quote s).toList ++ rest = _
    rw [toList_quote]
    simp
  rw [htext, flaggedBelow_cons, flaggedBelow_doubled _ _ hflag]
  simp [holdsFlag]

theorem Flags.literal (value : Literal) : Flags value.strings [.words value.text] := by
  cases value with
  | string s => exact quote s
  | int n => exact words ((AllChars.int n).mono fun _ => IsNumberChar.ne_newline)
  | float x => exact words ((AllChars.float _ x).mono fun _ => IsNumberChar.ne_newline)
  | bool b => exact words (.ite (by decide) (by decide))
  | null => exact words (by decide)

end QuerySignature
