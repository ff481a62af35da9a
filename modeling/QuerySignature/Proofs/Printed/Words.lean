import QuerySignature.Proofs.Printed.Canonical
import QuerySignature.Proofs.Printed.Scanning

namespace QuerySignature

/-! # Words of printed text

A text is cut into words, quoted texts, parentheses and commas. A word goes as far as no blank,
quote, parenthesis or comma ends it, so `a.b`, `:name`, `-5` and `<>` are words.

A placeholder, a column, a number and each of the fixed words is told from the others by its first
character, and a name from a fixed word by being no keyword.

- `lex`: the lexemes of a text.
- `lex_word`, `lex_quote`: a word and a quoted text, whatever follows them that ends them.
- `atom`: the expression that a word stands for.
- `isWord_column`, `isWord_int`, ...: what is printed for them is a word.
- `atom_column`, `atom_int`, ...: and stands for them.
-/

/-! ## Lexemes -/

/-- What a text is made of. -/
inductive Lexeme where
  | word (text : String)
  | quoted (text : String)
  | opening
  | closing
  | comma
  deriving DecidableEq, Repr

/-- Whether a character ends a word. -/
def isSeparator (c : Char) : Bool := c == ' ' || c == '(' || c == ')' || c == ',' || c == '\''

/-- A text of at least one character without any that ends words. -/
def IsWord (text : String) : Prop :=
  text.toList ≠ [] ∧ ∀ c ∈ text.toList, isSeparator c = false

instance (text : String) : Decidable (IsWord text) :=
  have : Decidable (∀ c ∈ text.toList, isSeparator c = false) := List.decidableBAll _ _
  inferInstanceAs (Decidable (text.toList ≠ [] ∧ ∀ c ∈ text.toList, isSeparator c = false))

/-- A text ends, or goes on with a character that ends words and opens no quoted text. -/
def Breaks (text : List Char) : Prop := ∀ c ∈ text.head?, isSeparator c = true ∧ c ≠ '\''

instance (text : List Char) : Decidable (Breaks text) := Option.decidableForallMem text.head?

/-- The word that some characters make, if there are any. -/
def wordOf (pending : List Char) : List Lexeme :=
  if pending.isEmpty then [] else [.word (String.ofList pending)]

mutual

/-- The lexemes of a text behind the characters of a word that has begun. -/
def lexFrom (pending : List Char) : List Char → List Lexeme
  | [] => wordOf pending
  | ' ' :: rest => wordOf pending ++ lexFrom [] rest
  | '(' :: rest => wordOf pending ++ .opening :: lexFrom [] rest
  | ')' :: rest => wordOf pending ++ .closing :: lexFrom [] rest
  | ',' :: rest => wordOf pending ++ .comma :: lexFrom [] rest
  | '\'' :: rest => wordOf pending ++ lexQuoted [] rest
  | c :: rest => lexFrom (pending ++ [c]) rest

/-- The lexemes of a text inside a quoted text, behind some of its characters; two quotes are one
of them. -/
def lexQuoted (body : List Char) : List Char → List Lexeme
  | [] => []
  -- the longer pattern comes first: a quote ends the text only if no other one follows
  | '\'' :: '\'' :: rest => lexQuoted (body ++ ['\'']) rest
  | '\'' :: rest => .quoted (String.ofList body) :: lexFrom [] rest
  | c :: rest => lexQuoted (body ++ [c]) rest

end

/-- The lexemes of a text. -/
def lex (text : List Char) : List Lexeme := lexFrom [] text

theorem lexFrom_cons {c : Char} (hc : isSeparator c = false) (pending rest : List Char) :
    lexFrom pending (c :: rest) = lexFrom (pending ++ [c]) rest := by
  simp only [isSeparator, Bool.or_eq_false_iff, beq_eq_false_iff_ne] at hc
  obtain ⟨⟨⟨⟨hblank, hopening⟩, hclosing⟩, hcomma⟩, hquote⟩ := hc
  rw [lexFrom] <;> assumption

theorem lexFrom_append {word : List Char} (h : ∀ c ∈ word, isSeparator c = false)
    (pending rest : List Char) :
    lexFrom pending (word ++ rest) = lexFrom (pending ++ word) rest := by
  induction word generalizing pending with
  | nil => simp
  | cons c tail ih =>
    rw [List.cons_append, lexFrom_cons (h c (.head _)), ih fun d hd => h d (.tail _ hd),
      List.append_assoc]
    rfl

/-- What ends a word leaves it as it is. -/
theorem Breaks.lexFrom_eq {rest : List Char} (h : Breaks rest) (pending : List Char) :
    lexFrom pending rest = wordOf pending ++ lex rest := by
  cases rest with
  | nil => simp [lex, lexFrom, wordOf]
  | cons c tail =>
    obtain ⟨hseparator, hquote⟩ := h c rfl
    simp only [isSeparator, Bool.or_eq_true, beq_iff_eq] at hseparator
    rcases hseparator with (((rfl | rfl) | rfl) | rfl) | rfl
    · simp [lex, lexFrom, wordOf]
    · simp [lex, lexFrom, wordOf]
    · simp [lex, lexFrom, wordOf]
    · simp [lex, lexFrom, wordOf]
    · exact absurd rfl hquote

theorem lex_word {text : String} (h : IsWord text) {rest : List Char} (hrest : Breaks rest) :
    lex (text.toList ++ rest) = .word text :: lex rest := by
  rw [lex, lexFrom_append h.2, List.nil_append, hrest.lexFrom_eq, wordOf]
  simp [h.1]

theorem lexQuoted_doubled (cs body : List Char) {rest : List Char} (hrest : Breaks rest) :
    lexQuoted body (doubled cs ++ '\'' :: rest) =
      .quoted (String.ofList (body ++ cs)) :: lex rest := by
  induction cs generalizing body with
  | nil =>
    show lexQuoted body ('\'' :: rest) = _
    rw [lexQuoted, List.append_nil, lex]
    rintro tail rfl
    exact (hrest '\'' rfl).2 rfl
  | cons c tail ih =>
    by_cases hc : c = '\''
    · have hdoubled : doubled (c :: tail) = '\'' :: '\'' :: doubled tail := by simp [doubled, hc]
      rw [hdoubled, List.cons_append, List.cons_append, lexQuoted, ih, hc, List.append_assoc]
      rfl
    · have hdoubled : doubled (c :: tail) = c :: doubled tail := by simp [doubled, hc]
      rw [hdoubled, List.cons_append, lexQuoted, ih, List.append_assoc]
      · rfl
      · exact fun _ hquote _ => hc hquote
      · exact hc

/-- A quoted text is one lexeme, whatever it holds. -/
theorem lex_quote (s : String) {rest : List Char} (hrest : Breaks rest) :
    lex ((Literal.quote s).toList ++ rest) = .quoted s :: lex rest := by
  have htext : (Literal.quote s).toList ++ rest = '\'' :: (doubled s.toList ++ '\'' :: rest) := by
    rw [toList_quote]
    simp
  rw [htext, lex, lexFrom, lexQuoted_doubled _ _ hrest]
  simp [wordOf]

/-! ## Names -/

theorem isSeparator_of_isWordChar {c : Char} (h : isWordChar c = true) : isSeparator c = false := by
  simp only [isSeparator, Bool.or_eq_false_iff, beq_eq_false_iff_ne]
  refine ⟨⟨⟨⟨?_, ?_⟩, ?_⟩, ?_⟩, (isPlainChar_of_isWordChar h).1⟩
  all_goals
    rintro rfl
    exact absurd h (by decide)

section

variable {name : String}

theorem IsIdentifier.isWordChar (h : IsIdentifier name) {c : Char} (hc : c ∈ name.toList) :
    isWordChar c = true := by
  obtain ⟨first, rest, hname, hfirst, hrest⟩ := h
  rw [hname] at hc
  rcases List.mem_cons.1 hc with rfl | hc
  · exact isWordChar_of_isNameStart hfirst
  · exact hrest c hc

theorem IsIdentifier.isWord (h : IsIdentifier name) : IsWord name := by
  constructor
  · obtain ⟨first, rest, hname, -⟩ := h
    rw [hname]
    exact List.cons_ne_nil first rest
  · exact fun c hc => isSeparator_of_isWordChar (h.isWordChar hc)

theorem IsIdentifier.free_dot (h : IsIdentifier name) : '.' ∉ name.toList :=
  fun hdot => absurd (h.isWordChar hdot) (by decide)

end

theorem cutAtLastDot?_of_not_mem {cs : List Char} (h : '.' ∉ cs) : cutAtLastDot? cs = none := by
  induction cs with
  | nil => rfl
  | cons c rest ih =>
    rw [List.mem_cons, not_or] at h
    rw [cutAtLastDot?, ih h.2]
    exact if_neg (Ne.symm h.1)

theorem cutAtLastDot?_append (before : List Char) {segment : List Char} (h : '.' ∉ segment) :
    cutAtLastDot? (before ++ '.' :: segment) = some (before, segment) := by
  induction before with
  | nil =>
    rw [List.nil_append, cutAtLastDot?, cutAtLastDot?_of_not_mem h]
    rfl
  | cons c rest ih => rw [List.cons_append, cutAtLastDot?, ih]

/-- A text without a dot is read as a name alone. -/
theorem ofText_of_not_mem {text : String} (h : '.' ∉ text.toList) :
    ColumnRef.ofText text = ⟨none, text⟩ := by
  have hqualified : qualified? text = none := by
    rw [qualified?, cutAtLastDot?_of_not_mem h]
    rfl
  rw [ColumnRef.ofText, hqualified]

/-- A text with one dot is read as a qualified name. -/
theorem ofText_qualified {table name : String} (htable : '.' ∉ table.toList)
    (hname : '.' ∉ name.toList) : ColumnRef.ofText (table ++ "." ++ name) = ⟨some table, name⟩ := by
  have hsegment : lastSegment table = table := by
    rw [lastSegment, lastSegmentChars, cutAtLastDot?_of_not_mem htable]
    exact String.ofList_toList
  have htext : (table ++ "." ++ name).toList = table.toList ++ '.' :: name.toList := by
    simp
  have hqualified : qualified? (table ++ "." ++ name) = some (table, name) := by
    rw [qualified?, htext, cutAtLastDot?_append _ hname]
    simp
  rw [ColumnRef.ofText, hqualified]
  show (⟨some (lastSegment table), name⟩ : ColumnRef) = _
  rw [hsegment]

/-- The text of a reference to a column is read as that reference. -/
theorem ofText_text {c : ColumnRef} (htable : ∀ table ∈ c.table, IsIdentifier table)
    (hname : IsIdentifier c.name) : ColumnRef.ofText c.text = c := by
  obtain ⟨table, name⟩ := c
  cases table with
  | none => exact ofText_of_not_mem hname.free_dot
  | some table => exact ofText_qualified (htable table rfl).free_dot hname.free_dot

/-! ## Whole numbers -/

/-- The number that some digits make, with a minus in front of them or without. -/
def numberOf : List Char → Int
  | '-' :: digits => -(Nat.ofDigitChars 10 digits 0 : Int)
  | digits => (Nat.ofDigitChars 10 digits 0 : Int)

/-- The digits of a number, behind a minus if it is negative. -/
theorem toList_int (n : Int) :
    (toString n).toList =
      if 0 ≤ n then Nat.toDigits 10 n.toNat else '-' :: Nat.toDigits 10 (-n).toNat := by
  rw [Int.toString_eq_repr, Int.repr_eq_if]
  split <;> simp

theorem isDigit_of_mem {n : Nat} {c : Char} (h : c ∈ Nat.toDigits 10 n) : c.isDigit = true :=
  Nat.isDigit_of_mem_toDigits (by decide) (by decide) h

theorem numberOf_int (n : Int) : numberOf (toString n).toList = n := by
  rw [toList_int]
  split
  · next h =>
    have hdigits : numberOf (Nat.toDigits 10 n.toNat) =
        Nat.ofDigitChars 10 (Nat.toDigits 10 n.toNat) 0 := by
      unfold numberOf
      split
      · next digits hminus =>
        have hdigit := isDigit_of_mem (hminus ▸ List.mem_cons_self)
        exact absurd hdigit (by decide)
      · rfl
    rw [hdigits, Nat.ofDigitChars_ten_toDigits, Int.toNat_of_nonneg h]
  · next h =>
    rw [numberOf, Nat.ofDigitChars_ten_toDigits]
    omega

/-- A character that a number is written with. -/
def isNumeral (c : Char) : Bool := c == '-' || c.isDigit

theorem isNumeral_of_mem {n : Int} {c : Char} (h : c ∈ (toString n).toList) :
    isNumeral c = true := by
  rw [toList_int] at h
  rw [isNumeral, Bool.or_eq_true, beq_iff_eq]
  split at h
  · exact .inr (isDigit_of_mem h)
  · exact (List.mem_cons.1 h).imp_right isDigit_of_mem

theorem isNameStart_of_isNumeral {c : Char} (h : isNumeral c = true) : isNameStart c = false := by
  rw [← Bool.not_eq_true]
  intro hstart
  simp only [isNumeral, Char.isDigit, Bool.or_eq_true, Bool.and_eq_true, beq_iff_eq,
    decide_eq_true_eq, ge_iff_le, UInt32.le_iff_toNat_le] at h
  simp only [isNameStart, Bool.or_eq_true, beq_iff_eq, isAlpha_iff] at hstart
  change c = '-' ∨ 48 ≤ c.toNat ∧ c.toNat ≤ 57 at h
  -- the ranges are apart, and the underscore and the minus are in none of them
  have hminus : ('-').toNat = 45 := rfl
  have hline : ('_').toNat = 95 := rfl
  rcases h with rfl | h
  · rcases hstart with hstart | hstart
    · omega
    · exact absurd hstart (by decide)
  · rcases hstart with hstart | rfl
    · omega
    · omega

theorem isSeparator_of_isNumeral {c : Char} (h : isNumeral c = true) : isSeparator c = false := by
  simp only [isSeparator, Bool.or_eq_false_iff, beq_eq_false_iff_ne]
  refine ⟨⟨⟨⟨?_, ?_⟩, ?_⟩, ?_⟩, ?_⟩
  all_goals
    rintro rfl
    exact absurd h (by decide)

/-! ## Atoms -/

/-- The expression that a word stands for which starts like a name. -/
def namedAtom (text : String) : Expr :=
  if text = "TRUE" then .literal (.bool true)
  else if text = "FALSE" then .literal (.bool false)
  else if text = "NULL" then .literal .null
  else .column (.ofText text)

/-- The expression that a word stands for. -/
def atom (text : String) : Expr :=
  match text.toList with
  | [] => .star
  | first :: rest =>
    if first = '*' then .star
    else if first = '?' then .parameter none
    else if first = ':' then .parameter (some (String.ofList rest))
    else if isNameStart first then namedAtom text
    else .literal (.int (numberOf text.toList))

/-- The first character of a word starts a name. -/
def IsNamed (text : String) : Prop := text.toList.head?.any isNameStart = true

instance (text : String) : Decidable (IsNamed text) := inferInstanceAs (Decidable (_ = true))

theorem atom_of_isNamed {text : String} (h : IsNamed text) : atom text = namedAtom text := by
  unfold IsNamed at h
  unfold atom
  split
  · next hnil =>
    rw [hnil] at h
    cases h
  · next c rest hcons =>
    rw [hcons] at h
    have hstart : isNameStart c = true := h
    have hother {d : Char} (hd : isNameStart d = false) : c ≠ d := by
      rintro rfl
      exact absurd hstart (by simp [hd])
    rw [if_neg (hother (by decide)), if_neg (hother (by decide)), if_neg (hother (by decide)),
      if_pos hstart]

section

variable {c : ColumnRef}

theorem isNamed_column (htable : ∀ table ∈ c.table, IsIdentifier table)
    (hname : IsIdentifier c.name) : IsNamed c.text := by
  obtain ⟨table, name⟩ := c
  cases table with
  | none =>
    obtain ⟨first, rest, hchars, hfirst, -⟩ := hname
    simp [IsNamed, ColumnRef.text, hchars, hfirst]
  | some table =>
    obtain ⟨first, rest, hchars, hfirst, -⟩ := htable table rfl
    simp [IsNamed, ColumnRef.text, hchars, hfirst]

theorem isWord_column (htable : ∀ table ∈ c.table, IsIdentifier table)
    (hname : IsIdentifier c.name) : IsWord c.text := by
  obtain ⟨table, name⟩ := c
  cases table with
  | none => exact hname.isWord
  | some table =>
    have htext : ColumnRef.text ⟨some table, name⟩ = table ++ "." ++ name := rfl
    have hchars := (htable table rfl).isWord.2
    rw [htext]
    constructor
    · simp
    · intro d hd
      simp only [String.toList_append, List.mem_append] at hd
      rcases hd with (hd | hd) | hd
      · exact hchars d hd
      · obtain rfl : d = '.' := by simpa using hd
        decide
      · exact hname.isWord.2 d hd

/-- A reference to a column is told from the keywords: a name is none of them, and they have no
dot. -/
theorem text_not_mem_keywords (hname : c.table = none → c.name ∉ keywords) :
    c.text ∉ keywords := by
  obtain ⟨table, name⟩ := c
  cases table with
  | none => exact hname rfl
  | some table =>
    intro hkeyword
    have hdots : ∀ word ∈ keywords, '.' ∉ word.toList := by decide
    exact hdots _ hkeyword (by simp [ColumnRef.text])

theorem atom_column (htable : ∀ table ∈ c.table, IsIdentifier table)
    (hname : IsIdentifier c.name) (hkeyword : c.text ∉ keywords) : atom c.text = .column c := by
  rw [atom_of_isNamed (isNamed_column htable hname), namedAtom, ofText_text htable hname]
  have hother {word : String} (hword : word ∈ keywords) : c.text ≠ word := by
    rintro rfl
    exact hkeyword hword
  rw [if_neg (hother (by decide)), if_neg (hother (by decide)), if_neg (hother (by decide))]

end

theorem isWord_parameter {name : Option String} (h : ∀ parameter ∈ name, IsIdentifier parameter) :
    IsWord (parameterText name) := by
  cases name with
  | none => decide
  | some name =>
    constructor
    · simp [parameterText]
    · intro c hc
      simp only [parameterText, String.toList_append, List.mem_append] at hc
      rcases hc with hc | hc
      · obtain rfl : c = ':' := by simpa using hc
        decide
      · exact (h name rfl).isWord.2 c hc

theorem atom_parameter (name : Option String) : atom (parameterText name) = .parameter name := by
  cases name with
  | none => rfl
  | some name =>
    have htext : (parameterText (some name)).toList = ':' :: name.toList := by
      simp [parameterText]
    rw [atom, htext]
    simp

theorem isWord_int (n : Int) : IsWord (toString n) := by
  constructor
  · rw [toList_int]
    split
    · exact Nat.toDigits_ne_nil
    · exact List.cons_ne_nil _ _
  · exact fun c hc => isSeparator_of_isNumeral (isNumeral_of_mem hc)

theorem atom_int (n : Int) : atom (toString n) = .literal (.int n) := by
  unfold atom
  split
  · next hnil => exact absurd hnil (isWord_int n).1
  · next first rest hcons =>
    have hfirst : isNumeral first = true := isNumeral_of_mem (hcons ▸ List.mem_cons_self)
    have hother {c : Char} (hc : isNumeral c = false) : first ≠ c := by
      rintro rfl
      exact absurd hfirst (by simp [hc])
    rw [if_neg (hother (by decide)), if_neg (hother (by decide)), if_neg (hother (by decide)),
      isNameStart_of_isNumeral hfirst, numberOf_int]
    rfl

/-- A word that starts with neither a letter nor an underscore is no keyword. -/
theorem not_mem_keywords {text : String} (h : ¬ IsNamed text) : text ∉ keywords := by
  have hnamed : ∀ word ∈ keywords, IsNamed word := by decide
  exact fun hkeyword => h (hnamed _ hkeyword)

theorem not_isNamed_int (n : Int) : ¬ IsNamed (toString n) := by
  unfold IsNamed
  cases hchars : (toString n).toList with
  | nil => simp
  | cons first rest =>
    have hfirst : isNumeral first = true := isNumeral_of_mem (hchars ▸ List.mem_cons_self)
    simp [isNameStart_of_isNumeral hfirst]

theorem not_isNamed_parameter (name : Option String) : ¬ IsNamed (parameterText name) := by
  cases name with
  | none => decide
  | some name => simp [IsNamed, parameterText, isNameStart]

end QuerySignature
