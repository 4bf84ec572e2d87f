import MessagePattern.Message.Basic
import MessagePattern.Pattern.Reading
import MessagePattern.Text.Blank

/-!
Reading literal text and style text, in which apostrophes quote.

Two apostrophes stand for one, inside a quoted part and outside. A single apostrophe opens a quoted
part, in text only before a syntax character, and the next single apostrophe closes it.
-/

namespace MessagePattern.Pattern

/-! ## Literal text -/

/-- Reads text up to a syntax character that is not quoted. Inside a quoted part, `quote` is the
text from its opening apostrophe on. -/
def readText (context : Context) : Option (List Char) → List Char → Reading (List Char)
  | none, [] => .done [] []
  | some opening, [] => .failed .unterminatedQuote opening []
  | quote, '\'' :: '\'' :: rest => (readText context quote rest).map ('\'' :: ·)
  | some _, '\'' :: rest => readText context none rest
  | none, ['\''] => .done ['\''] []
  | none, '\'' :: c :: rest =>
    if context.isSyntax c then readText context (some ('\'' :: c :: rest)) (c :: rest)
    else (readText context none (c :: rest)).map ('\'' :: ·)
  | some opening, c :: rest => (readText context (some opening) rest).map (c :: ·)
  | none, c :: rest =>
    if context.isSyntax c then .done [] (c :: rest)
    else (readText context none rest).map (c :: ·)

example : readText .counted none "it''s 1#".toList = .done "it's 1".toList ['#'] := by
  cbv

theorem readText_rest_length_le
    (context : Context) (quote : Option (List Char)) (input : List Char) :
    (readText context quote input).rest.length ≤ input.length := by
  fun_induction readText context quote input <;>
    simp_all only [Reading.rest_done, Reading.rest_failed, Reading.rest_map, List.length_cons,
      List.length_nil] <;>
    omega

/-- Text that does not begin with a syntax character is read at least in part. -/
theorem readText_rest_length_lt
    (context : Context) (c : Char) (tail : List Char)
    (isText : context.isSyntax c = false) :
    (readText context none (c :: tail)).rest.length < (c :: tail).length := by
  have shorter := readText_rest_length_le context
  rw [readText.eq_def]
  split
  all_goals simp_all only [List.cons.injEq, reduceCtorEq, Bool.false_eq_true, if_false]
  all_goals try split
  all_goals grind [Reading.rest_done, Reading.rest_map]

section Equations

variable {context : Context}

theorem isSyntax_apostrophe (context : Context) :
    context.isSyntax '\'' = false := by
  cases context <;> decide

theorem ne_apostrophe_of_isSyntax
    {c : Char}
    (isSyntax : context.isSyntax c = true) :
    c ≠ '\'' := by
  rintro rfl
  rw [isSyntax_apostrophe] at isSyntax
  cases isSyntax

@[simp] theorem readText_nil (context : Context) :
    readText context none [] = .done [] [] := by
  rw [readText]

@[simp] theorem readText_doubled
    (context : Context) (quote : Option (List Char)) (rest : List Char) :
    readText context quote ('\'' :: '\'' :: rest) =
      (readText context quote rest).map ('\'' :: ·) := by
  rw [readText]

theorem readText_char
    {c : Char} {rest : List Char}
    (notApostrophe : c ≠ '\'')
    (notSyntax : context.isSyntax c = false) :
    readText context none (c :: rest) =
      (readText context none rest).map (c :: ·) := by
  rw [readText]
  · simp [notSyntax]
  all_goals simp_all

theorem readText_quotedChar
    {c : Char} {opening rest : List Char}
    (notApostrophe : c ≠ '\'') :
    readText context (some opening) (c :: rest) =
      (readText context (some opening) rest).map (c :: ·) := by
  rw [readText]
  all_goals simp_all

theorem readText_closing
    {opening rest : List Char}
    (closes : rest.head? ≠ some '\'') :
    readText context (some opening) ('\'' :: rest) = readText context none rest := by
  rw [readText]
  rintro tail rfl
  exact closes rfl

theorem readText_lone
    {rest : List Char}
    (isLone : ∀ c ∈ rest.head?, c ≠ '\'' ∧ context.isSyntax c = false) :
    readText context none ('\'' :: rest) =
      (readText context none rest).map ('\'' :: ·) := by
  cases rest with
  | nil =>
      simp [readText]
  | cons c tail =>
      obtain ⟨notApostrophe, notSyntax⟩ := isLone c rfl
      rw [readText]
      · simp [notSyntax]
      · simpa using notApostrophe

theorem readText_opening
    {c : Char} {rest : List Char}
    (isSyntax : context.isSyntax c = true) :
    readText context none ('\'' :: c :: rest) =
      readText context (some ('\'' :: c :: rest)) (c :: rest) := by
  rw [readText]
  · simp [isSyntax]
  · exact ne_apostrophe_of_isSyntax isSyntax

theorem readText_stop
    {rest : List Char}
    (stops : ∀ c ∈ rest.head?, context.isSyntax c = true) :
    readText context none rest = .done [] rest := by
  cases rest with
  | nil =>
      simp
  | cons c tail =>
      have isSyntax := stops c rfl
      have notApostrophe := ne_apostrophe_of_isSyntax isSyntax
      rw [readText]
      · simp [isSyntax]
      all_goals simp [notApostrophe]

end Equations

/-! ## Style text -/

/-- Puts a character that is not quoted before the rest of a style: a blank stays only if
something follows it. -/
def consLoose (c : Char) (style : List Char) : List Char :=
  if isBlank c && style.isEmpty then style else c :: style

/-- Reads style text up to a closing brace that is not quoted. Inside a quoted part, `quote` is
the text from its opening apostrophe on. -/
def readStyleText : Option (List Char) → List Char → Reading (List Char)
  | none, [] => .done [] []
  | some opening, [] => .failed .unterminatedQuote opening []
  | quote, '\'' :: '\'' :: rest => (readStyleText quote rest).map ('\'' :: ·)
  | some _, '\'' :: rest => readStyleText none rest
  | none, '\'' :: rest => readStyleText (some ('\'' :: rest)) rest
  | some opening, c :: rest => (readStyleText (some opening) rest).map (c :: ·)
  | none, '}' :: rest => .done [] ('}' :: rest)
  | none, '{' :: rest => .stop (.invalidCharacter '{') ('{' :: rest)
  | none, c :: rest => (readStyleText none rest).map (consLoose c)

example : readStyleText none "h ''o'' a \x7d".toList = .done "h 'o' a".toList ['}'] := by
  cbv

theorem readStyleText_rest_length_le (quote : Option (List Char)) (input : List Char) :
    (readStyleText quote input).rest.length ≤ input.length := by
  fun_induction readStyleText quote input <;>
    simp_all only [Reading.rest_done, Reading.rest_failed, Reading.rest_stop, Reading.rest_map,
      List.length_cons, List.length_nil] <;>
    omega

@[simp] theorem readStyleText_nil :
    readStyleText none [] = .done [] [] := by
  rw [readStyleText]

@[simp] theorem readStyleText_doubled
    (quote : Option (List Char)) (rest : List Char) :
    readStyleText quote ('\'' :: '\'' :: rest) =
      (readStyleText quote rest).map ('\'' :: ·) := by
  rw [readStyleText]

theorem readStyleText_char
    {c : Char} {rest : List Char}
    (notApostrophe : c ≠ '\'')
    (notOpening : c ≠ '{')
    (notClosing : c ≠ '}') :
    readStyleText none (c :: rest) =
      (readStyleText none rest).map (consLoose c) := by
  rw [readStyleText]
  all_goals simp_all

theorem readStyleText_quotedChar
    {c : Char} {opening rest : List Char}
    (notApostrophe : c ≠ '\'') :
    readStyleText (some opening) (c :: rest) =
      (readStyleText (some opening) rest).map (c :: ·) := by
  rw [readStyleText]
  all_goals simp_all

theorem readStyleText_closing
    {opening rest : List Char}
    (closes : rest.head? ≠ some '\'') :
    readStyleText (some opening) ('\'' :: rest) = readStyleText none rest := by
  rw [readStyleText]
  rintro tail rfl
  exact closes rfl

theorem readStyleText_opening
    {rest : List Char}
    (opens : rest.head? ≠ some '\'') :
    readStyleText none ('\'' :: rest) =
      readStyleText (some ('\'' :: rest)) rest := by
  rw [readStyleText]
  rintro tail rfl
  exact opens rfl

@[simp] theorem readStyleText_brace (rest : List Char) :
    readStyleText none ('}' :: rest) = .done [] ('}' :: rest) := by
  rw [readStyleText]

/-- Reads a style without the blanks around it. -/
def readStyle (input : List Char) : Reading (List Char) :=
  readStyleText none (skipBlanks input)

theorem readStyle_rest_length_le (input : List Char) :
    (readStyle input).rest.length ≤ input.length :=
  Nat.le_trans (readStyleText_rest_length_le none _) (skipBlanks_length_le input)

end MessagePattern.Pattern
