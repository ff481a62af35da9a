import QuerySignature.Dynamic.Annotation
import QuerySignature.Proofs.Placeholders.Pieces

namespace QuerySignature

/-! # Scanning printed text

The named parameters of a text are found by scanning it: quoted texts are emptied, and a name behind
a colon counts. Here the scan is followed through pieces of printed text. Whatever is printed behind
such a piece starts with a character that stops a name and opens no quoted text, and what is printed
in front of it ends in a character that a colon may follow.

- `Scanned`: the scan finds exactly the named placeholders of some pieces.
- `Scanned.quote`, `Scanned.parameter`, `Scanned.plain`: single pieces.
- `Scanned.append`, `Scanned.separated`, ...: pieces in a row.
-/

/-! ## Characters -/

/-- A character that has no part in quotes and parameters. -/
def IsPlainChar (c : Char) : Prop := c ≠ '\'' ∧ c ≠ ':'

instance : DecidablePred IsPlainChar := fun _ => inferInstanceAs (Decidable (_ ∧ _))

/-- A text without quotes and colons, such as an identifier, also one with dots. -/
def IsPlain (text : String) : Prop := ∀ c ∈ text.toList, IsPlainChar c

instance (text : String) : Decidable (IsPlain text) := List.decidableBAll IsPlainChar text.toList

/-- An identifier: an ASCII letter or an underscore, and word characters behind it. -/
def IsIdentifier (name : String) : Prop :=
  ∃ c rest, name.toList = c :: rest ∧ isNameStart c = true ∧ ∀ c ∈ rest, isWordChar c = true

/-- Whether a colon behind a character may start a parameter. -/
def isFree (c : Char) : Bool := c != ':' && !isWordChar c

/-- A text ends, or goes on with a character that stops a name and is neither quote nor colon. -/
def Stops (text : List Char) : Prop := ∀ c ∈ text.head?, IsPlainChar c ∧ isWordChar c = false

theorem isAlpha_iff {c : Char} :
    c.isAlpha = true ↔ 65 ≤ c.toNat ∧ c.toNat ≤ 90 ∨ 97 ≤ c.toNat ∧ c.toNat ≤ 122 := by
  have hranges : c.isAlpha = (decide (65 ≤ c.val ∧ c.val ≤ 90) ||
      (decide (97 ≤ c.val) && decide (c.val ≤ 122))) := rfl
  rw [hranges]
  simp only [Bool.or_eq_true, Bool.and_eq_true, decide_eq_true_eq, UInt32.le_iff_toNat_le]
  rfl

theorem isWordChar_of_isNameStart {c : Char} (h : isNameStart c = true) : isWordChar c = true := by
  simp only [isNameStart, Bool.or_eq_true, beq_iff_eq] at h
  have hlt : c.toNat < 0x80 := by
    rcases h with h | rfl
    · rw [isAlpha_iff] at h
      omega
    · decide
  rw [isWordChar_of_lt hlt]
  simp only [isAsciiWordChar, Char.isAlphanum, Bool.or_eq_true, beq_iff_eq]
  exact h.imp_left .inl

theorem isPlainChar_of_isWordChar {c : Char} (h : isWordChar c = true) : IsPlainChar c := by
  constructor
  · rintro rfl
    exact absurd h (by decide)
  · rintro rfl
    exact absurd h (by decide)

/-! ## Quoted texts -/

/-- The characters of a quoted text, with quotes doubled. -/
def doubled (cs : List Char) : List Char :=
  cs.flatMap fun c => if c = '\'' then ['\'', '\''] else [c]

theorem toList_quote (s : String) :
    (Literal.quote s).toList = '\'' :: (doubled s.toList ++ ['\'']) := by
  unfold Literal.quote doubled
  simp

theorem closing?_doubled (cs : List Char) {rest : List Char} (hrest : rest.head? ≠ some '\'') :
    closing? (doubled cs ++ '\'' :: rest) = some rest := by
  induction cs with
  | nil =>
    show closing? ('\'' :: rest) = some rest
    rw [closing?]
    · rfl
    · rintro tail - rfl
      exact hrest rfl
  | cons c tail ih =>
    by_cases hc : c = '\''
    · have hdoubled : doubled (c :: tail) = '\'' :: '\'' :: doubled tail := by simp [doubled, hc]
      rw [hdoubled, List.cons_append, List.cons_append, closing?, ih, Option.some_or]
    · have hdoubled : doubled (c :: tail) = c :: doubled tail := by simp [doubled, hc]
      rw [hdoubled, List.cons_append, closing?, if_neg hc, ih]
      rintro _ rfl
      exact absurd rfl hc

/-- A quoted text is emptied, whatever it holds. -/
theorem emptyQuotes_quote (s : String) {rest : List Char} (hrest : rest.head? ≠ some '\'') :
    emptyQuotes ((Literal.quote s).toList ++ rest) = '\'' :: '\'' :: emptyQuotes rest := by
  have htext : (Literal.quote s).toList ++ rest = '\'' :: (doubled s.toList ++ '\'' :: rest) := by
    rw [toList_quote]
    simp
  rw [htext, emptyQuotes, if_pos rfl]
  split
  · next after h =>
    rw [closing?_doubled _ hrest] at h
    cases h
    rfl
  · next h =>
    rw [closing?_doubled _ hrest] at h
    cases h

/-- A text without quotes stays as it is. -/
theorem emptyQuotes_append {text : List Char} (h : ∀ c ∈ text, c ≠ '\'') (rest : List Char) :
    emptyQuotes (text ++ rest) = text ++ emptyQuotes rest := by
  induction text with
  | nil => rfl
  | cons c tail ih =>
    rw [List.cons_append, emptyQuotes, if_neg (h c (.head _)), ih fun d hd => h d (.tail _ hd)]
    rfl

theorem Stops.emptyQuotes {text : List Char} (h : Stops text) :
    Stops (QuerySignature.emptyQuotes text) := by
  cases text with
  | nil =>
    rw [QuerySignature.emptyQuotes]
    exact h
  | cons c rest =>
    rw [QuerySignature.emptyQuotes, if_neg (h c rfl).1.1]
    intro d hd
    exact h d hd

/-! ## Steps of a scan -/

/-- The parameters that a scan finds from some place on; `free` says whether a colon may stand
there. -/
def scan (free : Bool) (text : List Char) : List String := namesIn free (emptyQuotes text)

/-- A text without colons has no parameters. -/
theorem namesIn_append {text : List Char} (h : ∀ c ∈ text, c ≠ ':') (free : Bool)
    (rest : List Char) :
    namesIn free (text ++ rest) = namesIn ((text.getLast?.map isFree).getD free) rest := by
  induction text generalizing free with
  | nil => rfl
  | cons c tail ih =>
    have hc : namesIn free (c :: (tail ++ rest)) = namesIn (isFree c) (tail ++ rest) := by
      simp [namesIn, h c, isFree]
    rw [List.cons_append, hc, ih fun d hd => h d (.tail _ hd)]
    cases tail with
    | nil => rfl
    | cons d tail =>
      rw [List.getLast?_cons_cons, List.getLast?_eq_some_getLast (List.cons_ne_nil d tail)]
      rfl

/-- Behind any character, a text that stops names is read alike. -/
theorem Stops.namesIn_eq {text : List Char} (h : Stops text) (free : Bool) :
    namesIn free text = namesIn true text := by
  cases text with
  | nil => rfl
  | cons c rest => simp [namesIn, (h c rfl).1.2]

theorem scan_append {text : List Char} (h : ∀ c ∈ text, IsPlainChar c) (free : Bool)
    (rest : List Char) :
    scan free (text ++ rest) = scan ((text.getLast?.map isFree).getD free) rest := by
  unfold scan
  rw [emptyQuotes_append fun c hc => (h c hc).1, namesIn_append fun c hc => (h c hc).2]

theorem Stops.scan_eq {text : List Char} (h : Stops text) (free : Bool) :
    scan free text = scan true text := h.emptyQuotes.namesIn_eq free

/-- A scan passes over a quoted text. -/
theorem scan_quote (s : String) {rest : List Char} (hrest : Stops rest) :
    scan true ((Literal.quote s).toList ++ rest) = scan true rest := by
  have hhead : rest.head? ≠ some '\'' := fun h => (hrest _ h).1.1 rfl
  unfold scan
  rw [emptyQuotes_quote s hhead]
  have hquotes : ∀ c ∈ ['\'', '\''], c ≠ ':' := by simp
  exact (namesIn_append hquotes true (emptyQuotes rest)).trans (hrest.emptyQuotes.namesIn_eq _)

/-- A scan finds a parameter where a colon may stand. -/
theorem scan_parameter {name : String} (hname : IsIdentifier name) {rest : List Char}
    (hrest : Stops rest) : scan true (':' :: (name.toList ++ rest)) = name :: scan true rest := by
  obtain ⟨first, others, hchars, hfirst, hothers⟩ := hname
  have hword : ∀ c ∈ name.toList, isWordChar c = true := by
    rw [hchars]
    exact List.forall_mem_cons.2 ⟨isWordChar_of_isNameStart hfirst, hothers⟩
  have hplain : ∀ c ∈ name.toList, IsPlainChar c := fun c hc =>
    isPlainChar_of_isWordChar (hword c hc)
  have hempty : emptyQuotes (':' :: (name.toList ++ rest)) =
      ':' :: (name.toList ++ emptyQuotes rest) := by
    rw [emptyQuotes, if_neg (by decide), emptyQuotes_append fun c hc => (hplain c hc).1]
  -- the name ends where the rest stops it
  have hends : (emptyQuotes rest).takeWhile isWordChar = [] := by
    cases htext : emptyQuotes rest with
    | nil => rfl
    | cons c tail =>
      have hc := (hrest.emptyQuotes c (by rw [htext]; rfl)).2
      rw [List.takeWhile_cons, hc]
      rfl
  have hfound : nameAt? (name.toList ++ emptyQuotes rest) = some name := by
    rw [hchars, List.cons_append, nameAt?, if_pos hfirst,
      List.takeWhile_append_of_pos hothers, hends, List.append_nil, ← hchars]
    exact congrArg some (String.ofList_toList)
  unfold scan
  rw [hempty, namesIn, hfound]
  simp only [beq_self_eq_true, Bool.and_true, if_true, Option.toList_some, List.singleton_append]
  rw [namesIn_append fun c hc => (hplain c hc).2]
  exact congrArg (name :: ·) (hrest.emptyQuotes.namesIn_eq _)

/-! ## Pieces -/

/-- The names of the placeholders among some pieces, in their order. -/
def namedOf (pieces : List Piece) : List String :=
  pieces.filterMap fun
    | .placeholder name _ => name
    | .words _ => none

@[simp] theorem namedOf_nil : namedOf [] = [] := rfl

@[simp] theorem namedOf_words (text : String) (rest : List Piece) :
    namedOf (.words text :: rest) = namedOf rest := rfl

@[simp] theorem namedOf_append (ps qs : List Piece) :
    namedOf (ps ++ qs) = namedOf ps ++ namedOf qs := List.filterMap_append

/-- A text after which a scan goes on as before it: it ends in a character that a colon may
follow. -/
structure Opens (text : String) : Prop where
  plain : IsPlain text
  free : (text.toList.getLast?.map isFree).getD true = true

/-- A text that stops a scan. -/
structure Closes (text : String) : Prop where
  plain : IsPlain text
  stops : ∀ c ∈ text.toList.head?, isWordChar c = false

/-- A text between two others: it stops a scan, and then the scan goes on. -/
structure Divides (text : String) : Prop extends Opens text, Closes text where
  nonempty : text.toList ≠ []

instance (text : String) : Decidable (Opens text) :=
  decidable_of_iff (IsPlain text ∧ (text.toList.getLast?.map isFree).getD true = true)
    ⟨fun h => ⟨h.1, h.2⟩, fun h => ⟨h.plain, h.free⟩⟩

instance (text : String) : Decidable (Closes text) :=
  have : Decidable (∀ c ∈ text.toList.head?, isWordChar c = false) := Option.decidableForallMem _
  decidable_of_iff (IsPlain text ∧ ∀ c ∈ text.toList.head?, isWordChar c = false)
    ⟨fun h => ⟨h.1, h.2⟩, fun h => ⟨h.plain, h.stops⟩⟩

instance (text : String) : Decidable (Divides text) :=
  decidable_of_iff (Opens text ∧ Closes text ∧ text.toList ≠ [])
    ⟨fun h => ⟨h.1, h.2.1.stops, h.2.2⟩, fun h => ⟨h.toOpens, h.toCloses, h.nonempty⟩⟩

/-- Some pieces start with what stops a scan, or are empty. -/
def Led (pieces : List Piece) : Prop :=
  ∀ rest, Stops rest → Stops ((textOf pieces).toList ++ rest)

/-- A scan of some pieces finds their named placeholders, if it starts where a colon may stand and
something follows that stops it. -/
def Scanned (pieces : List Piece) : Prop :=
  ∀ rest, Stops rest →
    scan true ((textOf pieces).toList ++ rest) = namedOf pieces ++ scan true rest

theorem Closes.stops_append {text : String} (h : Closes text) {rest : List Char}
    (hrest : Stops rest) : Stops (text.toList ++ rest) := by
  intro c hc
  cases htext : text.toList with
  | nil =>
    rw [htext] at hc
    exact hrest c hc
  | cons d tail =>
    rw [htext] at hc
    obtain rfl : d = c := Option.some.inj hc
    exact ⟨h.plain d (by rw [htext]; exact .head _), h.stops d (by rw [htext]; rfl)⟩

namespace Led

variable {text : String}

theorem nil : Led [] := fun _ hrest => hrest

theorem words (h : Closes text) : Led [.words text] := by
  intro rest hrest
  rw [textOf_cons, textOf_nil, String.append_empty]
  exact h.stops_append hrest

theorem divides (h : Divides text) (ps : List Piece) : Led (.words text :: ps) := by
  intro rest _ c hc
  cases htext : text.toList with
  | nil => exact absurd htext h.nonempty
  | cons d tail =>
    have hhead : ((textOf (.words text :: ps)).toList ++ rest).head? = some d := by
      rw [textOf_cons, String.toList_append, List.append_assoc]
      show (text.toList ++ _).head? = some d
      rw [htext]
      rfl
    obtain rfl : d = c := Option.some.inj (hhead.symm.trans hc)
    exact ⟨h.toCloses.plain d (by rw [htext]; exact .head _), h.stops d (by rw [htext]; rfl)⟩

end Led

namespace Scanned

variable {ps qs : List Piece} {text : String}

theorem nil : Scanned [] := fun _ _ => rfl

/-- Words without quotes and colons have no parameters. -/
theorem plain (h : IsPlain text) : Scanned [.words text] := by
  intro rest hrest
  rw [textOf_cons, textOf_nil, String.append_empty]
  exact (scan_append h true rest).trans (hrest.scan_eq _)

theorem quote (s : String) : Scanned [.words (Literal.quote s)] := by
  intro rest hrest
  rw [textOf_cons, textOf_nil, String.append_empty]
  exact scan_quote s hrest

theorem parameter {name : Option String} (h : ∀ parameter ∈ name, IsIdentifier parameter)
    (role : Role) : Scanned [.placeholder name role] := by
  intro rest hrest
  rw [textOf_cons, textOf_nil, String.append_empty]
  cases name with
  | none =>
    have hmark : IsPlain "?" := by decide
    exact (scan_append hmark true rest).trans (hrest.scan_eq _)
  | some name =>
    have htext : (Piece.text (.placeholder (some name) role)).toList = ':' :: name.toList := by
      simp [Piece.text, parameterText]
    rw [htext]
    exact scan_parameter (h name rfl) hrest

/-- What follows some pieces is scanned as well if it stops the scan first. -/
theorem append (hp : Scanned ps) (hled : Led qs) (hq : Scanned qs) : Scanned (ps ++ qs) := by
  intro rest hrest
  rw [textOf_append, String.toList_append, List.append_assoc, hp _ (hled rest hrest), hq rest hrest,
    namedOf_append, List.append_assoc]

/-- Words in front of some pieces. -/
theorem opening (h : Opens text) (hp : Scanned ps) : Scanned (.words text :: ps) := by
  intro rest hrest
  rw [textOf_cons, String.toList_append, List.append_assoc]
  show scan true (text.toList ++ _) = _
  rw [scan_append h.plain, h.free, hp rest hrest]
  rfl

/-- Words between some pieces and others. -/
theorem between (hp : Scanned ps) (h : Divides text) (hq : Scanned qs) :
    Scanned (ps ++ .words text :: qs) := hp.append (.divides h qs) (.opening h.toOpens hq)

/-- Words behind some pieces. -/
theorem closing (hp : Scanned ps) (h : Closes text) : Scanned (ps ++ [.words text]) :=
  hp.append (.words h) (.plain h.plain)

/-- Pieces in parentheses, with words in front of them. -/
theorem enclosed (hopens : Opens text) (hp : Scanned ps) {close : String} (hcloses : Closes close) :
    Scanned (.words text :: ps ++ [.words close]) := (hp.opening hopens).closing hcloses

end Scanned

end QuerySignature
