namespace QuerySignature

/-! # Dotted names

A name such as `db.posts.id` is read from its last dot: the text after it is the last segment, the
text before it is what qualifies that segment.
-/

/-- Cuts a text at its last dot; `none` when it has no dot. -/
def cutAtLastDot? : List Char → Option (List Char × List Char)
  | [] => none
  | c :: rest =>
    match cutAtLastDot? rest with
    | some (before, after) => some (c :: before, after)
    | none => if c = '.' then some ([], rest) else none

/-- The characters after the last dot, or all of them when there is no dot. -/
def lastSegmentChars (cs : List Char) : List Char :=
  match cutAtLastDot? cs with
  | some (_, after) => after
  | none => cs

/-- The part of a name after its last dot, or the whole name when it has none. -/
def lastSegment (name : String) : String :=
  String.ofList (lastSegmentChars name.toList)

/-- The parts of a name before and after its last dot; `none` when it has none. -/
def qualified? (name : String) : Option (String × String) :=
  (cutAtLastDot? name.toList).map fun (before, after) => (String.ofList before, String.ofList after)

/-- Cutting does not see a change that leaves dots where they are. -/
theorem cutAtLastDot?_map {f : Char → Char} (hf : ∀ c, f c = '.' ↔ c = '.') (cs : List Char) :
    cutAtLastDot? (cs.map f) =
      (cutAtLastDot? cs).map fun parts => (parts.1.map f, parts.2.map f) := by
  induction cs with
  | nil => rfl
  | cons c rest ih =>
    rw [List.map_cons]
    unfold cutAtLastDot?
    rw [ih]
    cases cutAtLastDot? rest with
    | some parts => rfl
    | none =>
      by_cases hc : c = '.'
      · simp [hc, (hf '.').2 rfl]
      · simp [hc, mt (hf c).1 hc]

/-- Cutting loses only the dot, and the last segment has no dot. -/
theorem cutAtLastDot?_eq_some {cs before after : List Char}
    (h : cutAtLastDot? cs = some (before, after)) : cs = before ++ '.' :: after ∧ '.' ∉ after := by
  induction cs generalizing before with
  | nil => simp [cutAtLastDot?] at h
  | cons c rest ih =>
    cases hr : cutAtLastDot? rest with
    | some p =>
      obtain ⟨b, a⟩ := p
      simp only [cutAtLastDot?, hr, Option.some.injEq, Prod.mk.injEq] at h
      obtain ⟨rfl, rfl⟩ := h
      have hrest := ih hr
      exact ⟨by simp [← hrest.1], hrest.2⟩
    | none =>
      simp only [cutAtLastDot?, hr] at h
      split at h
      next hc =>
        simp only [Option.some.injEq, Prod.mk.injEq] at h
        obtain ⟨rfl, rfl⟩ := h
        refine ⟨by simp [hc], ?_⟩
        clear ih hc
        induction rest with
        | nil => simp
        | cons d ds ihd =>
          simp only [cutAtLastDot?] at hr
          split at hr
          · simp at hr
          · rename_i hds
            split at hr
            · simp at hr
            · rename_i hd
              simp [ihd hds, Ne.symm hd]
      next => simp at h

end QuerySignature
