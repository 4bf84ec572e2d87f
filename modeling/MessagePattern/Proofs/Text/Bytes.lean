import MessagePattern.Text.Bytes

/-!
# Byte positions

Cutting a text at a byte position, which only works between two characters of it.
-/

namespace MessagePattern

theorem byteLength_toList (text : String) :
    byteLength text.toList = text.utf8ByteSize := by
  have ofChars : ∀ chars : List Char, byteLength chars = (String.ofList chars).utf8ByteSize := by
    intro chars
    induction chars with
    | nil =>
        rfl
    | cons c chars inductionHypothesis =>
        have firstApart : String.ofList (c :: chars) = String.singleton c ++ .ofList chars := by
          rw [String.singleton_eq_ofList, ← String.ofList_append, List.singleton_append]
        rw [byteLength_cons, inductionHypothesis, firstApart, String.utf8ByteSize_append,
          String.utf8ByteSize_singleton]
  rw [ofChars, String.ofList_toList]

theorem byteLength_le_of_suffix
    {tail text : List Char}
    (isEnd : tail <:+ text) :
    byteLength tail ≤ byteLength text := by
  obtain ⟨front, rfl⟩ := isEnd
  simp

/-- The parts of a text before and after a byte position, if the position is one between
characters or at an end. -/
def splitBytes? (width : Nat) : List Char → Option (List Char × List Char)
  | [] => if width = 0 then some ([], []) else none
  | c :: text =>
    if width = 0 then some ([], c :: text)
    else if c.utf8Size ≤ width then
      (splitBytes? (width - c.utf8Size) text).map fun (left, right) => (c :: left, right)
    else none

@[simp] theorem splitBytes?_append (left right : List Char) :
    splitBytes? (byteLength left) (left ++ right) = some (left, right) := by
  induction left with
  | nil =>
      cases right <;> simp [splitBytes?]
  | cons c left inductionHypothesis =>
      have positive := Char.utf8Size_pos c
      have notZero : c.utf8Size + byteLength left ≠ 0 := by omega
      have fits : c.utf8Size ≤ c.utf8Size + byteLength left := by omega
      rw [byteLength_cons, List.cons_append, splitBytes?, if_neg notZero, if_pos fits,
        Nat.add_sub_cancel_left, inductionHypothesis]
      rfl

/-- A text is cut at a position into parts that make it up, the first of which ends there. -/
theorem splitBytes?_eq_some_iff
    {width : Nat} {text left right : List Char} :
    splitBytes? width text = some (left, right) ↔
      text = left ++ right ∧ byteLength left = width := by
  constructor
  · intro found
    induction text generalizing width left with
    | nil =>
        simp only [splitBytes?] at found
        split at found
        · next isZero =>
            cases found
            exact ⟨rfl, isZero.symm⟩
        · cases found
    | cons c text inductionHypothesis =>
        simp only [splitBytes?] at found
        split at found
        · next isZero =>
            cases found
            exact ⟨rfl, isZero.symm⟩
        · split at found
          · next fits =>
              obtain ⟨⟨before, after⟩, cut, equality⟩ := Option.map_eq_some_iff.mp found
              cases equality
              obtain ⟨rfl, length⟩ := inductionHypothesis cut
              refine ⟨rfl, ?_⟩
              rw [byteLength_cons, length]
              omega
          · cases found
  · rintro ⟨rfl, rfl⟩
    exact splitBytes?_append left right

/-- The positions at which a text can be cut are the valid positions of the string. -/
theorem isSome_splitBytes?_iff
    {text : String} {offset : Nat} :
    (splitBytes? offset text.toList).isSome = true ↔
      String.Pos.Raw.IsValid text ⟨offset⟩ := by
  rw [Option.isSome_iff_exists, String.Pos.Raw.isValid_iff_exists_append]
  constructor
  · rintro ⟨⟨left, right⟩, cut⟩
    obtain ⟨textEq, rfl⟩ := splitBytes?_eq_some_iff.mp cut
    refine ⟨.ofList left, .ofList right, ?_, ?_⟩
    · rw [← String.ofList_append, ← textEq, String.ofList_toList]
    · rw [String.Pos.Raw.ext_iff, String.byteIdx_rawEndPos, ← byteLength_toList,
        String.toList_ofList]
  · rintro ⟨left, right, rfl, endsLeft⟩
    refine ⟨(left.toList, right.toList), splitBytes?_eq_some_iff.mpr ⟨by simp, ?_⟩⟩
    rw [byteLength_toList]
    exact (congrArg String.Pos.Raw.byteIdx endsLeft).symm

/-- What fits into the bytes of the front of a text is the front. -/
theorem takeBytes_append (left right : List Char) :
    takeBytes (byteLength left) (left ++ right) = left := by
  induction left with
  | nil =>
      cases right with
      | nil =>
          rfl
      | cons c right =>
          have positive := Char.utf8Size_pos c
          have tooWide : ¬ c.utf8Size ≤ 0 := by omega
          rw [byteLength_nil, List.nil_append, takeBytes, if_neg tooWide]
  | cons c left inductionHypothesis =>
      have fits : c.utf8Size ≤ c.utf8Size + byteLength left := by omega
      rw [byteLength_cons, List.cons_append, takeBytes, if_pos fits, Nat.add_sub_cancel_left,
        inductionHypothesis]

end MessagePattern
