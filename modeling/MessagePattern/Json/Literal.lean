/-!
String literals of JSON text: how characters are escaped, and what a literal stands for.

A literal is kept as it is written, without its quotes, until its text is asked for: a literal may
be well formed and yet stand for no text, because it escapes half of a surrogate pair.
-/

namespace MessagePattern.Json

/-! ## Writing -/

def hexDigit (value : Nat) : Char :=
  if value < 10 then Char.ofNat ('0'.toNat + value) else Char.ofNat ('a'.toNat + (value - 10))

def escapeChar (c : Char) : List Char :=
  if c = '"' then ['\\', '"']
  else if c = '\\' then ['\\', '\\']
  else if c = '\x08' then ['\\', 'b']
  else if c = '\x0c' then ['\\', 'f']
  else if c = '\n' then ['\\', 'n']
  else if c = '\r' then ['\\', 'r']
  else if c = '\t' then ['\\', 't']
  else if c.toNat < 0x20 then
    ['\\', 'u', '0', '0', hexDigit (c.toNat / 16), hexDigit (c.toNat % 16)]
  else [c]

def escape (text : String) : List Char :=
  text.toList.flatMap escapeChar

def hexValue? (c : Char) : Option Nat :=
  if c.isDigit then some (c.toNat - '0'.toNat)
  else if 'a' ≤ c ∧ c ≤ 'f' then some (c.toNat - 'a'.toNat + 10)
  else if 'A' ≤ c ∧ c ≤ 'F' then some (c.toNat - 'A'.toNat + 10)
  else none

/-- What a backslash and one character stand for. -/
def shortEscape? (c : Char) : Option Char :=
  if c = '"' ∨ c = '\\' ∨ c = '/' then some c
  else if c = 'b' then some '\x08'
  else if c = 'f' then some '\x0c'
  else if c = 'n' then some '\n'
  else if c = 'r' then some '\r'
  else if c = 't' then some '\t'
  else none

/-- The literal at the front of a text, whose opening quote has been read, and what follows its
closing quote. -/
def readLiteral? : List Char → Option (List Char × List Char)
  | [] => none
  | '"' :: rest => some ([], rest)
  | '\\' :: 'u' :: a :: b :: c :: d :: rest =>
    if [a, b, c, d].all fun digit => (hexValue? digit).isSome then
      (readLiteral? rest).map fun (literal, rest) =>
        ('\\' :: 'u' :: a :: b :: c :: d :: literal, rest)
    else none
  | '\\' :: c :: rest =>
    if (shortEscape? c).isSome then
      (readLiteral? rest).map fun (literal, rest) => ('\\' :: c :: literal, rest)
    else none
  | c :: rest =>
    if c = '\\' ∨ c.toNat < 0x20 then none
    else (readLiteral? rest).map fun (literal, rest) => (c :: literal, rest)

theorem length_lt_of_readLiteral?
    {input : List Char} {found : List Char × List Char}
    (isRead : readLiteral? input = some found) :
    found.2.length < input.length := by
  fun_induction readLiteral? input generalizing found <;>
    simp only [Option.map_eq_some_iff, Option.some.injEq, reduceCtorEq] at isRead <;>
    grind

/-! ## Reading -/

/-- The code points and code units that a literal lists. -/
def codes? : List Char → Option (List Nat)
  | [] => some []
  | '\\' :: 'u' :: a :: b :: c :: d :: rest => do
    let unit := 0x1000 * (← hexValue? a) + 0x100 * (← hexValue? b) + 0x10 * (← hexValue? c) +
      (← hexValue? d)
    return unit :: (← codes? rest)
  | '\\' :: c :: rest => do return (← shortEscape? c).toNat :: (← codes? rest)
  | c :: rest => do return c.toNat :: (← codes? rest)

/-- Whether a code unit is the first half of a surrogate pair. -/
def isHighSurrogate (code : Nat) : Bool := 0xD800 ≤ code && code ≤ 0xDBFF

/-- Whether a code unit is the second half of a surrogate pair. -/
def isLowSurrogate (code : Nat) : Bool := 0xDC00 ≤ code && code ≤ 0xDFFF

/-- The characters that codes stand for, if each half of a surrogate pair has its other half. -/
def chars? : List Nat → Option (List Char)
  | [] => some []
  | [code] =>
    if isHighSurrogate code || isLowSurrogate code then none else some [Char.ofNat code]
  | code :: next :: rest =>
    if isHighSurrogate code then
      if isLowSurrogate next then
        (chars? rest).map
          (Char.ofNat (0x10000 + 0x400 * (code - 0xD800) + (next - 0xDC00)) :: ·)
      else none
    else if isLowSurrogate code then none
    else (chars? (next :: rest)).map (Char.ofNat code :: ·)

/-- The text that a literal stands for. -/
def unescape? (literal : List Char) : Option String := do
  return .ofList (← chars? (← codes? literal))

end MessagePattern.Json
