namespace QuerySignature

/-! # Names without case

SQL names are compared without regard to the case of the letters `A` to `Z`; every other character
stands for itself. Folding is idempotent, so `sameName` is equality of folded names and therefore
an equivalence.

- `sameName_iff`: two names are the same exactly when they fold alike.
- `sameName_refl`, `sameName_symm`, `sameName_trans`: the equivalence laws.
- `sameName_congr`: no comparison tells two spellings of a name apart.
- `lowerName_eq_iff`: names are the same exactly when they are equal in lower case.
-/

/-! ## Letters -/

/-- A letter in upper case moves behind all of them; every other character stands for itself. -/
theorem toLower_cases (c : Char) :
    c.toLower = c ∨ 'A'.val ≤ c.val ∧ c.val ≤ 'Z'.val ∧ c.toLower.val.toNat = c.val.toNat + 32 := by
  unfold Char.toLower
  split
  case isFalse => exact .inl rfl
  case isTrue h =>
    have hle : c.val.toNat ≤ 90 := h.2
    refine .inr ⟨h.1, h.2, ?_⟩
    show (c.val + 32).toNat = _
    rw [UInt32.toNat_add]
    show (c.val.toNat + 32) % 2 ^ 32 = _
    omega

theorem toLower_toLower (c : Char) : c.toLower.toLower = c.toLower := by
  rcases toLower_cases c with h | ⟨hge, -, hval⟩
  · rw [h, h]
  · rcases toLower_cases c.toLower with h | ⟨-, hle, -⟩
    · exact h
    · -- what has moved is no letter in upper case
      have hge : 65 ≤ c.val.toNat := hge
      have hle : c.toLower.val.toNat ≤ 90 := hle
      omega

/-- No letter becomes a dot. -/
theorem toLower_eq_dot_iff (c : Char) : c.toLower = '.' ↔ c = '.' := by
  rcases toLower_cases c with h | ⟨hge, -, hval⟩
  · rw [h]
  · have hge : 65 ≤ c.val.toNat := hge
    constructor
    · intro hdot
      rw [hdot] at hval
      have hval : 46 = c.val.toNat + 32 := hval
      omega
    · rintro rfl
      exact absurd hge (by decide)

/-! ## Names -/

/-- The characters of a name with `A` to `Z` in lower case. -/
def foldCase (name : String) : List Char :=
  name.toList.map Char.toLower

/-- A name with `A` to `Z` in lower case. -/
def lowerName (name : String) : String :=
  String.ofList (foldCase name)

/-- Whether two names differ at most in the case of `A` to `Z`. -/
def sameName (a b : String) : Bool :=
  foldCase a == foldCase b

theorem sameName_iff {a b : String} : sameName a b = true ↔ foldCase a = foldCase b := by
  simp [sameName]

@[simp] theorem sameName_refl (a : String) : sameName a a = true := by
  simp [sameName]

theorem sameName_symm {a b : String} (h : sameName a b = true) : sameName b a = true :=
  sameName_iff.2 (sameName_iff.1 h).symm

theorem sameName_comm (a b : String) : sameName a b = sameName b a :=
  Bool.eq_iff_iff.2 ⟨sameName_symm, sameName_symm⟩

theorem sameName_trans {a b c : String} (hab : sameName a b = true) (hbc : sameName b c = true) :
    sameName a c = true :=
  sameName_iff.2 ((sameName_iff.1 hab).trans (sameName_iff.1 hbc))

theorem sameName_congr {a a' b b' : String} (ha : sameName a a' = true) (hb : sameName b b' = true) :
    sameName a b = sameName a' b' := by
  unfold sameName
  rw [sameName_iff.1 ha, sameName_iff.1 hb]

theorem isEmpty_of_sameName {a b : String} (h : sameName a b = true) : a.isEmpty = b.isEmpty := by
  have hlength : a.length = b.length := by
    have hfold := congrArg List.length (sameName_iff.1 h)
    simpa [foldCase, String.length_toList] using hfold
  have hempty : ∀ s : String, s.isEmpty = true ↔ s.length = 0 := by simp
  exact Bool.eq_iff_iff.2 (by rw [hempty, hempty, hlength])

/-! ## Lower case -/

theorem foldCase_append (a b : String) : foldCase (a ++ b) = foldCase a ++ foldCase b := by
  simp [foldCase]

theorem foldCase_lowerName (a : String) : foldCase (lowerName a) = foldCase a := by
  unfold lowerName foldCase
  rw [String.toList_ofList, List.map_map]
  exact List.map_congr_left fun c _ => toLower_toLower c

theorem lowerName_eq_iff {a b : String} : lowerName a = lowerName b ↔ sameName a b = true := by
  rw [sameName_iff, lowerName, lowerName, String.ofList_inj]

theorem lowerName_append (a b : String) : lowerName (a ++ b) = lowerName a ++ lowerName b := by
  rw [lowerName, foldCase_append, String.ofList_append]
  rfl

/-! ## Properties of names -/

/-- A property of names that does not depend on their case. -/
def Caseless (p : String → Bool) : Prop := ∀ a b, sameName a b = true → p a = p b

theorem caseless_sameName (name : String) : Caseless fun other => sameName other name :=
  fun _ _ hab => sameName_congr hab (sameName_refl name)

theorem sameName_congr_right {a b : String} (h : sameName a b = true) (name : String) :
    sameName name a = sameName name b :=
  sameName_congr (sameName_refl name) h

theorem caseless_any_sameName (names : List String) :
    Caseless fun other => names.any fun name => sameName name other := by
  intro a b hab
  exact congrArg names.any (funext (sameName_congr_right hab))

end QuerySignature
