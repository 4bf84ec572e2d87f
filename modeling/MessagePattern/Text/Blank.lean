/-!
Blank characters: the white space of the pattern grammar, which is the `White_Space` property of
the character database.
-/

namespace MessagePattern

/-! ## The property -/

/-- The code points with the property `White_Space`, as inclusive ranges. -/
def blankRanges : List (Nat × Nat) :=
  [(0x09, 0x0D), (0x20, 0x20), (0x85, 0x85), (0xA0, 0xA0), (0x1680, 0x1680), (0x2000, 0x200A),
    (0x2028, 0x2029), (0x202F, 0x202F), (0x205F, 0x205F), (0x3000, 0x3000)]

/-- A character is blank when its code point lies in one of the ranges. -/
def isBlank (c : Char) : Bool :=
  blankRanges.any fun range => range.1 ≤ c.toNat && c.toNat ≤ range.2

example : (blankRanges.map fun range => range.2 - range.1 + 1).sum = 25 := by decide

/-! ## Skipping and trimming -/

/-- Drops the blanks at the front. -/
def skipBlanks (text : List Char) : List Char :=
  text.dropWhile isBlank

theorem skipBlanks_length_le (text : List Char) :
    (skipBlanks text).length ≤ text.length :=
  (List.dropWhile_suffix isBlank).length_le

theorem skipBlanks_of_head
    {text : List Char}
    (stops : ∀ c ∈ text.head?, isBlank c = false) :
    skipBlanks text = text := by
  cases text with
  | nil =>
      rfl
  | cons c tail =>
      have notBlank : isBlank c = false := stops c rfl
      exact List.dropWhile_cons_of_neg (by simp [notBlank])

theorem eq_false_of_mem_head?_dropWhile
    {isInside : Char → Bool} {text : List Char} {c : Char}
    (first : c ∈ (text.dropWhile isInside).head?) :
    isInside c = false := by
  have stops := List.head?_dropWhile_not isInside text
  rw [Option.mem_def] at first
  rw [first] at stops
  exact stops

theorem not_blank_of_mem_head?_skipBlanks
    {text : List Char} {c : Char}
    (first : c ∈ (skipBlanks text).head?) :
    isBlank c = false :=
  eq_false_of_mem_head?_dropWhile first

/-- Drops the blanks at both ends. -/
def trimBlanks (text : List Char) : List Char :=
  (skipBlanks (skipBlanks text).reverse).reverse

/-- A text that neither begins nor ends with a blank. -/
structure Trimmed (source : List Char) : Prop where
  first : ∀ c ∈ source.head?, isBlank c = false
  last : ∀ c ∈ source.getLast?, isBlank c = false

theorem trimmed_trimBlanks (text : List Char) : Trimmed (trimBlanks text) := by
  have isFront : trimBlanks text <+: skipBlanks text := by
    rw [← List.reverse_suffix, trimBlanks, List.reverse_reverse]
    exact List.dropWhile_suffix isBlank
  constructor
  · intro c isFirst
    obtain ⟨dropped, whole⟩ := isFront
    have isFirstOfAll : c ∈ (skipBlanks text).head? := by
      rw [← whole, List.head?_append, Option.mem_def.mp isFirst]
      rfl
    exact not_blank_of_mem_head?_skipBlanks isFirstOfAll
  · intro c isLast
    rw [trimBlanks, List.getLast?_reverse] at isLast
    exact not_blank_of_mem_head?_skipBlanks isLast

theorem Trimmed.trimBlanks_eq
    {text : List Char}
    (trimmed : Trimmed text) :
    trimBlanks text = text := by
  have reverseStops : ∀ c ∈ text.reverse.head?, isBlank c = false := by
    rw [List.head?_reverse]
    exact trimmed.last
  rw [trimBlanks, skipBlanks_of_head trimmed.first, skipBlanks_of_head reverseStops,
    List.reverse_reverse]

end MessagePattern
