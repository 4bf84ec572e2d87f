import MessagePattern.Json.Literal

/-!
The tokens of JSON text.
-/

namespace MessagePattern.Json

/-- The smallest parts of JSON text that have a meaning. Numbers and strings are kept as they are
written, strings without their quotes. -/
inductive Token where
  | openArray
  | closeArray
  | openObject
  | closeObject
  | colon
  | comma
  | null
  | bool (value : Bool)
  | number (literal : List Char)
  | string (literal : List Char)
  deriving DecidableEq, Repr

/-! ## Numbers -/

def isNumberChar (c : Char) : Bool :=
  c.isDigit || c == '-' || c == '+' || c == '.' || c == 'e' || c == 'E'

/-- A row of digits, at least one. -/
def isDigits (text : List Char) : Bool :=
  !text.isEmpty && text.all Char.isDigit

/-- The digits before a decimal point: no zero stands before another digit. -/
def isInteger (text : List Char) : Bool :=
  isDigits text && (text.head? != some '0' || text.length == 1)

/-- An exponent, or nothing. -/
def isExponent : List Char → Bool
  | [] => true
  | c :: '+' :: rest => (c == 'e' || c == 'E') && isDigits rest
  | c :: '-' :: rest => (c == 'e' || c == 'E') && isDigits rest
  | c :: rest => (c == 'e' || c == 'E') && isDigits rest

/-- A decimal point with digits, or nothing, and an exponent, or nothing. -/
def isTail : List Char → Bool
  | '.' :: rest => isDigits (rest.takeWhile Char.isDigit) && isExponent (rest.dropWhile Char.isDigit)
  | rest => isExponent rest

/-- A number without its sign. -/
def isMagnitude (text : List Char) : Bool :=
  isInteger (text.takeWhile Char.isDigit) && isTail (text.dropWhile Char.isDigit)

def isNumber : List Char → Bool
  | '-' :: rest => isMagnitude rest
  | text => isMagnitude text

/-- The number at the front of a text, and what follows it. -/
def readNumber? (input : List Char) : Option (List Char × List Char) :=
  let literal := input.takeWhile isNumberChar
  if isNumber literal then some (literal, input.dropWhile isNumberChar) else none

theorem length_lt_of_readNumber?
    {input : List Char} {found : List Char × List Char}
    (isRead : readNumber? input = some found) :
    found.2.length < input.length := by
  have together := congrArg List.length
    (List.takeWhile_append_dropWhile (p := isNumberChar) (l := input))
  rw [List.length_append] at together
  unfold readNumber? at isRead
  dsimp only at isRead
  split at isRead
  · next valid =>
      have nonempty : input.takeWhile isNumberChar ≠ [] := by
        intro equality
        rw [equality] at valid
        exact absurd valid (by decide)
      have positive := List.length_pos_iff.2 nonempty
      simp only [Option.some.injEq] at isRead
      rw [← isRead]
      dsimp only
      omega
  · simp at isRead

/-! ## Splitting text into tokens -/

def isSpace (c : Char) : Bool :=
  c == ' ' || c == '\n' || c == '\t' || c == '\r'

/-- The token at the front of a text that does not begin with a space, and what follows it. -/
def readToken? : List Char → Option (Token × List Char)
  | '[' :: rest => some (.openArray, rest)
  | ']' :: rest => some (.closeArray, rest)
  | '{' :: rest => some (.openObject, rest)
  | '}' :: rest => some (.closeObject, rest)
  | ':' :: rest => some (.colon, rest)
  | ',' :: rest => some (.comma, rest)
  | 'n' :: 'u' :: 'l' :: 'l' :: rest => some (.null, rest)
  | 't' :: 'r' :: 'u' :: 'e' :: rest => some (.bool true, rest)
  | 'f' :: 'a' :: 'l' :: 's' :: 'e' :: rest => some (.bool false, rest)
  | '"' :: rest => (readLiteral? rest).map fun (literal, rest) => (.string literal, rest)
  | input => (readNumber? input).map fun (literal, rest) => (.number literal, rest)

theorem length_lt_of_readToken?
    {input : List Char} {found : Token × List Char}
    (isRead : readToken? input = some found) :
    found.2.length < input.length := by
  unfold readToken? at isRead
  split at isRead <;>
    simp only [Option.map_eq_some_iff, Option.some.injEq] at isRead
  case h_10 rest =>
    obtain ⟨literal, isLiteral, rfl⟩ := isRead
    exact Nat.lt_succ_of_lt (length_lt_of_readLiteral? isLiteral)
  case h_11 =>
    obtain ⟨number, isNumber, rfl⟩ := isRead
    exact length_lt_of_readNumber? isNumber
  all_goals
    rw [← isRead]
    simp only [List.length_cons]
    omega

def tokens? (input : List Char) : Option (List Token) :=
  match input with
  | [] => some []
  | c :: rest =>
    if isSpace c then tokens? rest
    else
      match _found : readToken? (c :: rest) with
      | none => none
      | some (token, after) => (tokens? after).map (token :: ·)
termination_by input.length
decreasing_by
  · simp
  · exact length_lt_of_readToken? _found

end MessagePattern.Json
