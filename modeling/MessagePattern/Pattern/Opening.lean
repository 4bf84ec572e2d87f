import MessagePattern.Pattern.Text
import MessagePattern.Text.Digits

/-!
Reading the beginning of a placeholder, up to its branches if it has any.
-/

namespace MessagePattern.Pattern

/-- The characters of argument names and types. -/
def isTokenChar (c : Char) : Bool :=
  !(isBlank c || c == ',' || c == '{' || c == '}')

/-- The characters of selectors. -/
def isSelectorChar (c : Char) : Bool :=
  !(isBlank c || c == '{' || c == '}')

/-- The word that begins an offset clause. -/
def offsetMark : List Char := "offset:".toList

/-- The text from the first digit of an offset clause on, if the text begins with one. -/
def offsetDigits? (input : List Char) : Option (List Char) :=
  if offsetMark.isPrefixOf input then
    match skipBlanks (input.drop offsetMark.length) with
    | [] => none
    | c :: rest => if c.isDigit then some (c :: rest) else none
  else none

theorem offsetDigits?_length_le
    (input digits : List Char)
    (clause : offsetDigits? input = some digits) :
    digits.length ≤ input.length := by
  have shorter := skipBlanks_length_le (input.drop offsetMark.length)
  have drops := (List.drop_suffix offsetMark.length input).length_le
  unfold offsetDigits? at clause
  split at clause
  · split at clause
    · simp at clause
    · split at clause
      · simp_all only [Option.some.injEq]
        omega
      · simp at clause
  · simp at clause

/-- Reads an offset clause; a plural without one has the offset zero. -/
def readOffset (input : List Char) : Reading UInt32 :=
  match offsetDigits? input with
  | none => .done 0 input
  | some digits =>
    let value := digitsValue (digits.takeWhile Char.isDigit)
    if value < UInt32.size then .done (UInt32.ofNat value) (digits.dropWhile Char.isDigit)
    else .stop .invalidOffset digits

theorem readOffset_rest_length_le (input : List Char) :
    (readOffset input).rest.length ≤ input.length := by
  unfold readOffset
  split
  · simp
  · next digits clause =>
      have shorter := offsetDigits?_length_le input digits clause
      have drops := (List.dropWhile_suffix Char.isDigit (l := digits)).length_le
      dsimp only
      split <;> simp <;> omega

/-! ## Key, type and style -/

/-- What the beginning of a placeholder says it is. -/
inductive Opening where
  /-- A placeholder without branches, read up to its closing brace. -/
  | closed (node : Node)
  /-- A plural, whose branches follow. -/
  | plural (key : String) (kind : PluralKind) (offset : UInt32)
  /-- A select, whose branches follow. -/
  | select (key : String)
  deriving Repr

/-- Gives up where neither a comma nor a closing brace ends a key or type. -/
def stopUnfinished {α : Type} : List Char → Reading α
  | [] => .stop .unexpectedEndOfInput []
  | c :: rest => .stop (.invalidCharacter c) (c :: rest)

/-- Reads what comes after the comma behind a type. -/
def readDetail (key type : String) (input : List Char) : Reading Opening :=
  match PluralKind.ofType? type with
  | some kind => (readOffset (skipBlanks input)).map (.plural key kind)
  | none =>
    if type = "select" then .done (.select key) input
    else
      (readStyle input).andThen fun style rest =>
        (expect '}' "a closing brace" rest).map fun _ =>
          .closed (.styled key type (if style.isEmpty then none else some (.ofList style)))

/-- Reads what comes after the comma behind a key. -/
def readType (key : String) (input : List Char) : Reading Opening :=
  let start := skipBlanks input
  let type := start.takeWhile isTokenChar
  let rest := start.dropWhile isTokenChar
  if type.isEmpty then .stop (.expected "a placeholder type") rest
  else
    match skipBlanks rest with
    | '}' :: rest =>
      if (PluralKind.ofType? (.ofList type)).isSome || String.ofList type = "select" then
        .stop .missingSubmessages ('}' :: rest)
      else .done (.closed (.styled key (.ofList type) none)) rest
    | ',' :: rest => readDetail key (.ofList type) rest
    | rest => stopUnfinished rest

/-- Reads what comes after the opening brace of a placeholder. -/
def readOpening (input : List Char) : Reading Opening :=
  let start := skipBlanks input
  let key := start.takeWhile isTokenChar
  let rest := start.dropWhile isTokenChar
  if key.isEmpty then .stop .emptyKey rest
  else
    match skipBlanks rest with
    | '}' :: rest => .done (.closed (.argument (.ofList key))) rest
    | ',' :: rest => readType (.ofList key) rest
    | rest => stopUnfinished rest

/-- Reads the selector of a branch and the opening brace of its message. -/
def readSelector (input : List Char) : Reading String :=
  let selector := input.takeWhile isSelectorChar
  let rest := input.dropWhile isSelectorChar
  if selector.isEmpty then .stop (.expected "a selector") rest
  else (expect '{' "an opening brace" (skipBlanks rest)).map fun _ => .ofList selector

/-! ## Nothing is put back -/

@[simp] theorem rest_stopUnfinished {α : Type} (input : List Char) :
    (stopUnfinished input : Reading α).rest = input := by
  cases input <;> rfl

theorem readDetail_rest_length_le (key type : String) (input : List Char) :
    (readDetail key type input).rest.length ≤ input.length := by
  unfold readDetail
  split
  · simpa using Nat.le_trans (readOffset_rest_length_le _) (skipBlanks_length_le input)
  · split
    · simp
    · refine Nat.le_trans (Reading.rest_andThen_length_le _ _ fun style rest => ?_)
        (readStyle_rest_length_le input)
      simpa using expect_rest_length_le '}' "a closing brace" rest

/-- The blanks and the word at the front are skipped, and the blanks after it. -/
private theorem afterWord_length_le (isWordChar : Char → Bool) (input : List Char) :
    (skipBlanks ((skipBlanks input).dropWhile isWordChar)).length ≤ input.length :=
  Nat.le_trans (skipBlanks_length_le _) <|
    Nat.le_trans (List.dropWhile_suffix isWordChar).length_le (skipBlanks_length_le input)

theorem readType_rest_length_le (key : String) (input : List Char) :
    (readType key input).rest.length ≤ input.length := by
  have after := afterWord_length_le isTokenChar input
  have word := Nat.le_trans (List.dropWhile_suffix isTokenChar).length_le
    (skipBlanks_length_le input)
  unfold readType
  dsimp only
  split
  · simpa using word
  · split
    · next rest equality =>
        rw [equality, List.length_cons] at after
        split <;> simp <;> omega
    · next rest equality =>
        rw [equality, List.length_cons] at after
        have detail := readDetail_rest_length_le key
          (.ofList ((skipBlanks input).takeWhile isTokenChar)) rest
        omega
    · simpa using after

theorem readOpening_rest_length_le (input : List Char) :
    (readOpening input).rest.length ≤ input.length := by
  have after := afterWord_length_le isTokenChar input
  have word := Nat.le_trans (List.dropWhile_suffix isTokenChar).length_le
    (skipBlanks_length_le input)
  unfold readOpening
  dsimp only
  split
  · simpa using word
  · split
    · next rest equality =>
        rw [equality, List.length_cons] at after
        simp
        omega
    · next rest equality =>
        rw [equality, List.length_cons] at after
        have type := readType_rest_length_le
          (.ofList ((skipBlanks input).takeWhile isTokenChar)) rest
        omega
    · simpa using after

theorem readSelector_rest_length_le (input : List Char) :
    (readSelector input).rest.length ≤ input.length := by
  have word := (List.dropWhile_suffix isSelectorChar (l := input)).length_le
  unfold readSelector
  dsimp only
  split
  · simpa using word
  · rw [Reading.rest_map]
    exact Nat.le_trans (expect_rest_length_le _ _ _) <|
      Nat.le_trans (skipBlanks_length_le _) word

theorem length_lt_of_readSelector
    {input rest : List Char} {selector : String}
    (found : readSelector input = .done selector rest) :
    rest.length < input.length := by
  have word := (List.dropWhile_suffix isSelectorChar (l := input)).length_le
  have after := skipBlanks_length_le (input.dropWhile isSelectorChar)
  unfold readSelector at found
  dsimp only at found
  split at found
  · simp [Reading.stop] at found
  · cases brace : expect '{' "an opening brace"
        (skipBlanks (input.dropWhile isSelectorChar)) with
    | failed cause place rest => simp [brace, Reading.map] at found
    | done value tail =>
        have equality := eq_cons_of_expect brace
        simp only [brace, Reading.map, Reading.done.injEq] at found
        rw [equality, List.length_cons, found.2] at after
        omega

end MessagePattern.Pattern
