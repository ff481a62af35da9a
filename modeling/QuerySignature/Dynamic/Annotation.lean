import QuerySignature.Distinct
import QuerySignature.Text.CharClass

namespace QuerySignature

/-! # Annotations and named parameters

What the text of a statement says beyond its tree: flags in comment lines, and the names of its
parameters.

A flag stands at the start of a line: blanks, two dashes, blanks, `@` and the flag's word, which
no word character may follow. A parameter is a colon with a name behind it; the colon stands at
the start of the text or after a character that is neither a colon nor a word character. Quoted
texts are skipped.

- `closing?_length`: what is left behind a closing quote is shorter.
-/

/-- The flags of a statement's comment lines. -/
structure Annotations where
  dynamic : Bool
  nested : Bool
  deriving DecidableEq, Repr, Inhabited

/-! ## Flags -/

/-- The text from the start of every line but the first. -/
def laterLines : List Char → List (List Char)
  | [] => []
  | c :: rest => if c = '\n' then rest :: laterLines rest else laterLines rest

/-- The text from the start of every line. -/
def lineStarts (text : List Char) : List (List Char) := text :: laterLines text

/-- The text behind a word that it starts with. -/
def behind? : List Char → List Char → Option (List Char)
  | [], text => some text
  | _ :: _, [] => none
  | w :: word, c :: text => if w = c then behind? word text else none

/-- Whether a text goes on with a character of a word. -/
def wordGoesOn : List Char → Bool
  | [] => false
  | c :: _ => isWordChar c

/-- Whether a line, and those below it if it is blank, starts with a flag. -/
def startsWithFlag (flag : List Char) (line : List Char) : Bool :=
  match behind? ['-', '-'] (line.dropWhile isBlank) with
  | none => false
  | some comment =>
    match behind? ('@' :: flag) (comment.dropWhile isBlank) with
    | none => false
    | some rest => !wordGoesOn rest

/-- Whether a line of a text starts with a flag. -/
def hasFlag (flag : String) (text : String) : Bool :=
  (lineStarts text.toList).any (startsWithFlag flag.toList)

/-- The flags of a text. -/
def Annotations.ofText (text : String) : Annotations :=
  ⟨hasFlag "dynamicQuery" text, hasFlag "nested" text⟩

/-! ## Quoted texts -/

/-- What is left behind the quote that closes a quoted text. Two quotes in a row are a quote inside
it; only if no later quote closes the text does the first of the two. -/
def closing? : List Char → Option (List Char)
  | [] => none
  | '\'' :: '\'' :: rest => (closing? rest).or (some ('\'' :: rest))
  | c :: rest => if c = '\'' then some rest else closing? rest

theorem closing?_length {text rest : List Char} (h : closing? text = some rest) :
    rest.length < text.length := by
  fun_induction closing? text with
  | case1 => simp at h
  | case2 tail ih =>
    -- a doubled quote: it is inside the text only if a later quote closes the text
    cases hc : closing? tail with
    | none =>
      simp only [hc, Option.none_or, Option.some.injEq] at h
      subst h
      simp
    | some after =>
      simp only [hc, Option.some_or, Option.some.injEq] at h
      subst h
      have := ih hc
      simp only [List.length_cons]
      omega
  | case3 tail =>
    simp only [Option.some.injEq] at h
    subst h
    simp
  | case4 c tail _ hc ih =>
    have := ih h
    simp only [List.length_cons]
    omega

/-- A text with every quoted text emptied. A quote that nothing closes stays. -/
def emptyQuotes : List Char → List Char
  | [] => []
  | c :: rest =>
    if c = '\'' then
      match h : closing? rest with
      | some after =>
        have := closing?_length h
        '\'' :: '\'' :: emptyQuotes after
      | none => c :: emptyQuotes rest
    else c :: emptyQuotes rest
termination_by text => text.length
decreasing_by all_goals simp only [List.length_cons]; omega

/-! ## Named parameters -/

/-- The name at the start of a text. -/
def nameAt? : List Char → Option String
  | [] => none
  | c :: rest =>
    if isNameStart c then some (String.ofList (c :: rest.takeWhile isWordChar)) else none

/-- The names behind colons; `free` says whether a colon may stand at the start of the text. -/
def namesIn (free : Bool) : List Char → List String
  | [] => []
  | c :: rest =>
    let name := if free && c == ':' then nameAt? rest else none
    name.toList ++ namesIn (c != ':' && !isWordChar c) rest

/-- The named parameters of a text, each once, in the order of first appearance. -/
def namedParameters (text : String) : List String :=
  distinct (namesIn true (emptyQuotes text.toList))

/-- The places of a text's parameters in a list of names. -/
def parameterIndexes (text : String) (names : List String) : List Nat :=
  (namedParameters text).filterMap fun name => names.findIdx? (· == name)

end QuerySignature
