import Mathlib.Data.String.Basic

/-!
# Byte order

The alphabetical order of texts is that of their UTF-8 forms, compared byte by byte.
-/

namespace MessagePattern

theorem cons_ofNat_lt_cons_ofNat
    {first other : Nat}
    (less : first < other)
    (isByte : other < 256)
    (rest otherRest : List UInt8) :
    UInt8.ofNat first :: rest < UInt8.ofNat other :: otherRest := by
  rw [List.cons_lt_cons_iff, UInt8.lt_iff_toNat_lt, UInt8.toNat_ofNat', UInt8.toNat_ofNat']
  omega

/-- Whether smaller numbers, below a bound, are written as smaller bytes, whatever follows them. -/
def IsOrdered (bound : Nat) (bytes : Nat → List UInt8) : Prop :=
  ∀ ⦃first other : Nat⦄, first < other → other < bound →
    ∀ rest otherRest, bytes first ++ rest < bytes other ++ otherRest

theorem isOrdered_leadByte
    (bound mark : Nat)
    (fits : bound + mark ≤ 256) :
    IsOrdered bound fun number => [UInt8.ofNat (number % bound + mark)] := by
  intro first other less bounded rest otherRest
  dsimp only
  rw [Nat.mod_eq_of_lt bounded, Nat.mod_eq_of_lt (less.trans bounded)]
  exact cons_ofNat_lt_cons_ofNat (by omega) (by omega) _ _

/-- A byte for the last six bits, behind those for the bits in front of them, keeps the order. -/
theorem IsOrdered.append_lastByte
    {bound : Nat} {bytes : Nat → List UInt8}
    (isOrdered : IsOrdered bound bytes) :
    IsOrdered (bound * 64) fun number =>
      bytes (number / 64) ++ [UInt8.ofNat (number % 64 + 128)] := by
  intro first other less bounded rest otherRest
  dsimp only
  rw [List.append_assoc, List.append_assoc]
  by_cases sameFront : first / 64 = other / 64
  · rw [sameFront]
    exact List.append_left_lt (cons_ofNat_lt_cons_ofNat (by omega) (by omega) _ _)
  · exact isOrdered (by omega) (by omega) _ _

theorem toNat_lt_of_valid (c : Char) : c.val.toNat < 0x110000 := by
  rcases c.valid with low | ⟨_, high⟩
  · exact low.trans (by decide)
  · exact high

/-- A smaller character has the smaller UTF-8 form, whatever follows the two. -/
theorem utf8EncodeChar_append_lt
    {c d : Char}
    (less : c < d)
    (rest otherRest : List UInt8) :
    String.utf8EncodeChar c ++ rest < String.utf8EncodeChar d ++ otherRest := by
  have lessNat : c.val.toNat < d.val.toNat := less
  have bounded := toNat_lt_of_valid d
  have two := (isOrdered_leadByte 32 192 (by decide)).append_lastByte
  have three := (isOrdered_leadByte 16 224 (by decide)).append_lastByte.append_lastByte
  have four :=
    (isOrdered_leadByte 8 240 (by decide)).append_lastByte.append_lastByte.append_lastByte
  simp only [Nat.div_div_eq_div_mul] at two three four
  simp only [String.utf8EncodeChar]
  generalize c.val.toNat = first at lessNat ⊢
  generalize d.val.toNat = other at lessNat bounded ⊢
  -- The smaller character takes no more bytes, and where it takes fewer the first byte decides.
  split_ifs
  any_goals omega
  any_goals (refine cons_ofNat_lt_cons_ofNat ?_ ?_ _ _ <;> omega)
  · exact two lessNat (by omega) _ _
  · exact three lessNat (by omega) _ _
  · exact four lessNat (by omega) _ _

/-- The UTF-8 form of a text. -/
def utf8Bytes (text : String) : List UInt8 :=
  text.toUTF8.data.toList

theorem utf8Bytes_eq_flatMap (text : String) :
    utf8Bytes text = text.toList.flatMap String.utf8EncodeChar := by
  rw [← String.ofList_toList (s := text), utf8Bytes, String.toUTF8_eq_toByteArray,
    String.toByteArray_ofList, List.utf8Encode, List.toList_data_toByteArray, String.toList_ofList]

theorem flatMap_utf8EncodeChar_lt
    {left right : List Char}
    (less : left < right) :
    left.flatMap String.utf8EncodeChar < right.flatMap String.utf8EncodeChar := by
  induction left generalizing right with
  | nil =>
      cases right with
      | nil =>
          exact absurd less (List.lt_irrefl _)
      | cons d right =>
          rw [List.flatMap_nil, List.flatMap_cons]
          obtain ⟨firstByte, rest, encoded⟩ :=
            List.exists_cons_of_ne_nil (@String.utf8EncodeChar_ne_nil d)
          rw [encoded]
          exact List.nil_lt_cons _ _
  | cons c left inductionHypothesis =>
      cases right with
      | nil =>
          exact absurd less (List.not_lt_nil _)
      | cons d right =>
          rw [List.flatMap_cons, List.flatMap_cons]
          rcases List.cons_lt_cons_iff.mp less with firstLess | ⟨rfl, restLess⟩
          · exact utf8EncodeChar_append_lt firstLess _ _
          · exact List.append_left_lt (inductionHypothesis restLess)

theorem utf8Bytes_lt_of_lt
    {left right : String}
    (less : left < right) :
    utf8Bytes left < utf8Bytes right := by
  rw [utf8Bytes_eq_flatMap, utf8Bytes_eq_flatMap]
  exact flatMap_utf8EncodeChar_lt (String.lt_iff_toList_lt.mp less)

/-- Texts stand in alphabetical order where their UTF-8 forms stand in the order of their bytes. -/
theorem utf8Bytes_le_iff
    {left right : String} :
    utf8Bytes left ≤ utf8Bytes right ↔ left ≤ right := by
  constructor
  · intro bytesLe
    by_contra notLe
    exact bytesLe (utf8Bytes_lt_of_lt (not_le.mp notLe))
  · intro le
    rcases le.lt_or_eq with less | rfl
    · exact List.le_of_lt (utf8Bytes_lt_of_lt less)
    · exact List.le_refl _

end MessagePattern
