import MessagePattern.Json.Literal

/-!
# String literals

An escaped text is a literal, whatever follows its closing quote, and stands for the text.
-/

namespace MessagePattern.Json

/-- The ways in which a character is written in a literal. -/
inductive IsEscaped (c : Char) : List Char → Prop
  | bare : c ≠ '"' → c ≠ '\\' → 0x20 ≤ c.toNat → IsEscaped c [c]
  | short {letter : Char} : shortEscape? letter = some c → IsEscaped c ['\\', letter]
  | hex {high low : Char} {highValue lowValue : Nat} :
      hexValue? high = some highValue → hexValue? low = some lowValue →
        c.toNat = 0x10 * highValue + lowValue → IsEscaped c ['\\', 'u', '0', '0', high, low]

theorem hexValue?_hexDigit :
    ∀ value < 0x10, hexValue? (hexDigit value) = some value := by
  decide

theorem isEscaped_escapeChar (c : Char) :
    IsEscaped c (escapeChar c) := by
  unfold escapeChar
  -- The characters that have a letter of their own come first.
  iterate 7
    split
    · next same =>
        subst same
        exact .short rfl
  split
  · next small =>
      refine .hex (hexValue?_hexDigit _ (by omega)) (hexValue?_hexDigit _ (by omega)) ?_
      exact (Nat.div_add_mod _ _).symm
  · next notQuote notBackslash _ _ _ _ _ notSmall =>
      exact .bare notQuote notBackslash (Nat.le_of_not_lt notSmall)

theorem ne_u_of_shortEscape?
    {letter c : Char}
    (isShort : shortEscape? letter = some c) :
    letter ≠ 'u' := by
  rintro rfl
  cases isShort

theorem readLiteral?_escaped
    {c : Char} {written : List Char}
    (isEscaped : IsEscaped c written) (rest : List Char) :
    readLiteral? (written ++ rest) =
      (readLiteral? rest).map fun found => (written ++ found.1, found.2) := by
  cases isEscaped with
  | bare notQuote notBackslash large =>
      have allowed : ¬ (c = '\\' ∨ c.toNat < 0x20) := by
        rintro (same | small)
        · exact notBackslash same
        · omega
      rw [List.singleton_append, readLiteral?, if_neg allowed]
      · rfl
      · exact notQuote
      · exact fun _ _ _ _ _ same _ => notBackslash same
      · exact fun _ _ same _ => notBackslash same
  | short isShort =>
      rw [List.cons_append, List.singleton_append, readLiteral?, isShort]
      · rfl
      · intro _ _ _ _ _ same _
        exact ne_u_of_shortEscape? isShort same
  | @hex high low _ _ highIsHex lowIsHex _ =>
      have areHex : (['0', '0', high, low].all fun digit => (hexValue? digit).isSome) = true := by
        simp only [List.all_cons, highIsHex, lowIsHex]
        rfl
      rw [List.cons_append, List.cons_append, List.cons_append, List.cons_append, List.cons_append,
        List.singleton_append, readLiteral?, if_pos areHex]
      rfl

/-- An escaped text is a literal. -/
theorem readLiteral?_escape (text : String) (rest : List Char) :
    readLiteral? (escape text ++ '"' :: rest) = some (escape text, rest) := by
  rw [escape]
  induction text.toList with
  | nil =>
      rfl
  | cons c chars inductionHypothesis =>
      rw [List.flatMap_cons, List.append_assoc, readLiteral?_escaped (isEscaped_escapeChar c),
        inductionHypothesis]
      rfl

theorem codes?_escaped
    {c : Char} {written : List Char}
    (isEscaped : IsEscaped c written) (rest : List Char) :
    codes? (written ++ rest) = (codes? rest).map (c.toNat :: ·) := by
  cases isEscaped with
  | bare notQuote notBackslash large =>
      rw [List.singleton_append, codes?]
      · cases codes? rest <;> rfl
      · exact fun _ _ _ _ _ same _ => notBackslash same
      · exact fun _ _ same _ => notBackslash same
  | short isShort =>
      rw [List.cons_append, List.singleton_append, codes?, isShort]
      · cases codes? rest <;> rfl
      · intro _ _ _ _ _ same _
        exact ne_u_of_shortEscape? isShort same
  | @hex high low highValue lowValue highIsHex lowIsHex value =>
      have zeroIsHex : hexValue? '0' = some 0 := rfl
      rw [List.cons_append, List.cons_append, List.cons_append, List.cons_append, List.cons_append,
        List.singleton_append, codes?, zeroIsHex, highIsHex, lowIsHex, value]
      cases codes? rest <;> simp

theorem codes?_escape (text : String) :
    codes? (escape text) = some (text.toList.map Char.toNat) := by
  rw [escape]
  induction text.toList with
  | nil =>
      rfl
  | cons c chars inductionHypothesis =>
      rw [List.flatMap_cons, codes?_escaped (isEscaped_escapeChar c), inductionHypothesis]
      rfl

/-- A character is no half of a surrogate pair. -/
theorem not_surrogate_toNat (c : Char) :
    isHighSurrogate c.toNat = false ∧ isLowSurrogate c.toNat = false := by
  have valid : c.toNat < 0xD800 ∨ 0xDFFF < c.toNat ∧ c.toNat < 0x110000 := c.valid
  simp only [isHighSurrogate, isLowSurrogate, Bool.and_eq_false_iff, decide_eq_false_iff_not]
  omega

theorem chars?_map_toNat (chars : List Char) :
    chars? (chars.map Char.toNat) = some chars := by
  induction chars with
  | nil =>
      rfl
  | cons c chars inductionHypothesis =>
      obtain ⟨notHigh, notLow⟩ := not_surrogate_toNat c
      cases chars with
      | nil =>
          simp [chars?, notHigh, notLow]
      | cons d chars =>
          rw [List.map_cons, List.map_cons, chars?, notHigh, notLow, ← List.map_cons,
            inductionHypothesis]
          simp

/-- An escaped text stands for the text. -/
theorem unescape?_escape (text : String) :
    unescape? (escape text) = some text := by
  rw [unescape?, codes?_escape]
  simp [chars?_map_toNat]

end MessagePattern.Json
