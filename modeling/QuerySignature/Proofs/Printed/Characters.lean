import QuerySignature.Syntax.Printer

namespace QuerySignature

/-! # Characters of printed texts

A printed text is put together from fixed words, names and numbers. What holds of the characters of each
holds of all that it is made of.

- `AllChars.append`, `AllChars.commas`, ...: texts put together;
- `AllChars.int`, `AllChars.float`: a number, in any layout, has digits, a sign and a point, and for a
  double some letters.
-/

/-- All characters of a text have a property. -/
def AllChars (P : Char → Prop) (text : String) : Prop := ∀ c ∈ text.toList, P c

instance (P : Char → Prop) [DecidablePred P] (text : String) : Decidable (AllChars P text) :=
  List.decidableBAll P text.toList

/-- A character that numbers are written with. -/
def IsNumberChar (c : Char) : Prop :=
  c.isDigit = true ∨ c ∈ ['-', '.', 'e', 'N', 'a', 'i', 'n', 'f']

instance : DecidablePred IsNumberChar := fun _ => inferInstanceAs (Decidable (_ ∨ _))

namespace AllChars

variable {P Q : Char → Prop} {a b : String}

theorem mono (h : AllChars P a) (hPQ : ∀ c, P c → Q c) : AllChars Q a := fun c hc => hPQ c (h c hc)

theorem append (ha : AllChars P a) (hb : AllChars P b) : AllChars P (a ++ b) := by
  intro c hc
  rw [String.toList_append, List.mem_append] at hc
  exact hc.elim (ha c) (hb c)

theorem ofList {cs : List Char} (h : ∀ c ∈ cs, P c) : AllChars P (String.ofList cs) := by
  intro c hc
  rw [String.toList_ofList] at hc
  exact h c hc

theorem commas (hseparator : AllChars P ", ") {texts : List String}
    (h : ∀ text ∈ texts, AllChars P text) : AllChars P (QuerySignature.commas texts) := by
  unfold QuerySignature.commas
  induction texts with
  | nil => exact ofList nofun
  | cons text rest ih =>
    cases rest with
    | nil => simpa using h text (.head _)
    | cons next rest =>
      rw [String.intercalate_cons_cons]
      have hrest := ih fun other hother => h other (.tail _ hother)
      exact ((h text (.head _)).append hseparator).append hrest

theorem ite {p : Prop} [Decidable p] (ha : AllChars P a) (hb : AllChars P b) :
    AllChars P (if p then a else b) := by
  split
  · exact ha
  · exact hb

/-! ## Numbers -/

theorem digits (n : Nat) : ∀ c ∈ Nat.toDigits 10 n, IsNumberChar c := fun _ hc =>
  .inl (Nat.isDigit_of_mem_toDigits (by decide) (by decide) hc)

theorem int (n : Int) : AllChars IsNumberChar (toString n) := by
  have hnat : ∀ m : Nat, AllChars IsNumberChar m.repr := fun m => ofList (digits m)
  rw [Int.toString_eq_repr, Int.repr_eq_if]
  exact ite (hnat _) (append (by decide) (hnat _))

section

variable {digits : List Char} (hdigits : ∀ c ∈ digits, IsNumberChar c) (exponent : Int)

include hdigits

theorem take (n : Nat) : AllChars IsNumberChar (String.ofList (digits.take n)) :=
  ofList fun c hc => hdigits c (List.mem_of_mem_take hc)

theorem drop (n : Nat) : AllChars IsNumberChar (String.ofList (digits.drop n)) :=
  ofList fun c hc => hdigits c (List.mem_of_mem_drop hc)

theorem point (layout : Layout) : AllChars IsNumberChar (layout.point digits exponent) := by
  have hzeros : ∀ n, AllChars IsNumberChar (Layout.zeros n) := by
    intro n
    refine ofList fun c hc => ?_
    rw [(List.mem_replicate.1 hc).2]
    decide
  unfold Layout.point
  dsimp only
  split
  · exact ((ofList hdigits).append (hzeros _)).append (ite (by decide) (by decide))
  · split
    · exact ((take hdigits _).append (by decide)).append (drop hdigits _)
    · exact (append (by decide) (hzeros _)).append (ofList hdigits)

theorem scientific : AllChars IsNumberChar (Layout.scientific digits exponent) := by
  unfold Layout.scientific
  have htail := ite (p := (digits.drop 1).isEmpty = true) (by decide : AllChars IsNumberChar "")
    (append (by decide : AllChars IsNumberChar ".") (drop hdigits 1))
  exact (((take hdigits 1).append htail).append (by decide)).append (int exponent)

end

theorem decimal (layout : Layout) (d : Decimal) : AllChars IsNumberChar (layout.decimal d) := by
  unfold Layout.decimal
  exact ite (point (digits _) _ layout) (scientific (digits _) _)

/-- A number in any layout. -/
theorem float (layout : Layout) (x : Float) : AllChars IsNumberChar (layout.text x) := by
  unfold Layout.text
  have hsign := ite (p := (x.toBits >>> 63 == 1) = true) (by decide : AllChars IsNumberChar "-")
    (by decide : AllChars IsNumberChar "")
  refine ite (by decide) (ite (hsign.append (by decide)) ?_)
  exact ite (hsign.append (ite (by decide) (by decide))) (hsign.append (decimal layout _))

end AllChars

end QuerySignature
