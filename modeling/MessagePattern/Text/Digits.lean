/-!
Decimal digits.
-/

namespace MessagePattern

/-- The value of a row of decimal digits. -/
def digitsValue (digits : List Char) : Nat :=
  digits.foldl (fun value digit => 10 * value + (digit.toNat - '0'.toNat)) 0

/-- The digits that a number is written with have its value. -/
theorem digitsValue_repr (n : Nat) :
    digitsValue n.repr.toList = n := by
  rw [Nat.toList_repr]
  exact Nat.ofDigitChars_toDigits (by decide) (by decide)

end MessagePattern
