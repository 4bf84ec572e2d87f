import MessagePattern.Pattern.Cursor
import MessagePattern.Proofs.Text.Bytes

/-!
# Reading byte by byte

The readers as programs that move a cursor by numbers of bytes and remember positions. There is no
outcome if such a program cuts the text inside a character or beyond its end, or if its loops take
more rounds than it is given.
-/

namespace MessagePattern.Pattern

/-- A program that moves a cursor. The cursor stays where a program fails. -/
abbrev Machine := ExceptT PatternError (StateT Cursor Option)

namespace Machine

/-- Moves on by a number of bytes. -/
def advance (width : Nat) : Machine Unit :=
  ExceptT.mk fun cursor =>
    (splitBytes? width cursor.rest).map fun (_, rest) => (.ok (), ⟨cursor.offset + width, rest⟩)

/-- The text in the next bytes. -/
def slice (width : Nat) : Machine (List Char) :=
  ExceptT.mk fun cursor => (splitBytes? width cursor.rest).map fun (front, _) => (.ok front, cursor)

/-- The text up to a byte position in it. -/
def truncate (text : List Char) (width : Nat) : Machine (List Char) :=
  ExceptT.mk fun cursor => (splitBytes? width text).map fun (front, _) => (.ok front, cursor)

/-- The outcome of a loop that has no rounds left. -/
def exhausted {α : Type} : Machine α :=
  ExceptT.mk fun _ => none

def position : Machine Nat := do
  return (← get).offset

def peek : Machine (Option Char) := do
  return (← get).rest.head?

def peekSecond : Machine (Option Char) := do
  return (← get).rest.tail.head?

/-- Gives up for a cause that is found where the cursor stands. -/
def fail {α : Type} (cause : Cause) : Machine α := do
  throw ⟨cause, ← position⟩

/-- The number of bytes in the run of a class that comes next. -/
def widthWhile (isInside : Char → Bool) : Machine Nat := do
  return byteLength ((← get).rest.takeWhile isInside)

def takeRun (isInside : Char → Bool) : Machine (List Char) := do
  let width ← widthWhile isInside
  let run ← slice width
  advance width
  return run

def skipBlanks : Machine Unit := do
  advance (← widthWhile isBlank)

def require (c : Char) (what : String) : Machine Unit := do
  match ← peek with
  | none => fail .unexpectedEndOfInput
  | some d => if d = c then advance d.utf8Size else fail (.expected what)

/-- Reads the inside of a quoted part, which began at `start`, behind the text read before. -/
def quoted (start : Nat) : (text : List Char) → (rounds : Nat) → Machine (List Char)
  | _, 0 => exhausted
  | text, rounds + 1 => do
    match ← peek with
    | none => throw ⟨.unterminatedQuote, start⟩
    | some c =>
      if c = '\'' then
        if (← peekSecond) = some '\'' then
          advance 2
          quoted start (text ++ ['\'']) rounds
        else
          advance 1
          return text
      else
        advance c.utf8Size
        quoted start (text ++ [c]) rounds

/-- Reads literal text behind the text read before. -/
def literal (context : Context) : (text : List Char) → (rounds : Nat) → Machine (List Char)
  | _, 0 => exhausted
  | text, rounds + 1 => do
    match ← peek with
    | none => return text
    | some c =>
      if context.isSyntax c then return text
      else if c = '\'' then
        match ← peekSecond with
        | none =>
          advance 1
          literal context (text ++ ['\'']) rounds
        | some d =>
          if d = '\'' then
            advance 2
            literal context (text ++ ['\'']) rounds
          else if context.isSyntax d then
            let start ← position
            advance 1
            literal context (← quoted start text rounds) rounds
          else
            advance 1
            literal context (text ++ ['\'']) rounds
      else
        advance c.utf8Size
        literal context (text ++ [c]) rounds

/-- Reads a style behind what was read before, of which the given number of bytes is no blank at the
end. -/
def styleFrom : (style : List Char) → (significant : Nat) → (rounds : Nat) → Machine (List Char)
  | _, _, 0 => exhausted
  | style, significant, rounds + 1 => do
    match ← peek with
    | none => truncate style significant
    | some c =>
      if c = '}' then truncate style significant
      else if c = '{' then fail (.invalidCharacter c)
      else if c = '\'' then
        if (← peekSecond) = some '\'' then
          advance 2
          styleFrom (style ++ ['\'']) (byteLength (style ++ ['\''])) rounds
        else
          let start ← position
          advance 1
          let style ← quoted start style rounds
          styleFrom style (byteLength style) rounds
      else
        advance c.utf8Size
        styleFrom (style ++ [c])
          (if isBlank c then significant else byteLength (style ++ [c])) rounds

def style (rounds : Nat) : Machine (List Char) := do
  skipBlanks
  styleFrom [] 0 rounds

/-! ## Placeholders -/

def offset : Machine UInt32 := do
  if (offsetDigits? (← get).rest).isNone then return 0
  else
    advance (byteLength offsetMark)
    skipBlanks
    let start ← position
    let width ← widthWhile Char.isDigit
    let digits ← slice width
    if digitsValue digits < UInt32.size then
      advance width
      return .ofNat (digitsValue digits)
    else throw ⟨.invalidOffset, start⟩

/-- Reads a key or a type, and gives the brace or comma that comes next with it. -/
def word (missing : Cause) : Machine (List Char × Char) := do
  skipBlanks
  let word ← takeRun isTokenChar
  if word.isEmpty then fail missing
  else
    skipBlanks
    match ← peek with
    | none => fail .unexpectedEndOfInput
    | some c => if c = '}' ∨ c = ',' then return (word, c) else fail (.invalidCharacter c)

mutual

/-- Reads nodes behind those read before. -/
def message (context : Context) : (nodes : Message) → (rounds : Nat) → Machine Message
  | _, 0 => exhausted
  | nodes, rounds + 1 => do
    match ← peek with
    | none => return nodes
    | some c =>
      if c = '}' then return nodes
      else if c = '{' then
        let node ← placeholder rounds
        message context (nodes ++ [node]) rounds
      else if c = '#' ∧ context = .counted then
        advance 1
        message context (nodes ++ [.number]) rounds
      else
        let text ← literal context [] rounds
        message context (nodes ++ [.text (.ofList text)]) rounds

def placeholder : (rounds : Nat) → Machine Node
  | 0 => exhausted
  | rounds + 1 => do
    require '{' "an opening brace"
    let (key, next) ← word .emptyKey
    if next = '}' then
      advance 1
      return .argument (.ofList key)
    else
      advance 1
      let (type, next) ← word (.expected "a placeholder type")
      if next = '}' then
        if (PluralKind.ofType? (.ofList type)).isSome || String.ofList type = "select" then
          fail .missingSubmessages
        else
          advance 1
          return .styled (.ofList key) (.ofList type) none
      else
        advance 1
        let node ← detail (.ofList key) (.ofList type) rounds
        require '}' "a closing brace"
        return node

/-- Reads what stands behind the type of a placeholder. -/
def detail (key type : String) : (rounds : Nat) → Machine Node
  | 0 => exhausted
  | rounds + 1 => do
    match PluralKind.ofType? type with
    | some kind =>
      skipBlanks
      let offset ← offset
      let branches ← branches .counted [] rounds
      return .plural key kind offset branches
    | none =>
      if type = "select" then
        let cases ← branches .plain [] rounds
        return .choice key type cases
      else
        let style ← style rounds
        return .styled key type (if style.isEmpty then none else some (.ofList style))

/-- Reads branches behind those read before. -/
def branches (context : Context) : (before : Branches) → (rounds : Nat) → Machine Branches
  | _, 0 => exhausted
  | before, rounds + 1 => do
    skipBlanks
    match ← peek with
    | none => fail .unexpectedEndOfInput
    | some c =>
      if c = '}' then
        if before.isEmpty then fail .missingSubmessages else return before
      else
        let start ← position
        let selector ← takeRun isSelectorChar
        if selector.isEmpty then fail (.expected "a selector")
        else
          skipBlanks
          require '{' "an opening brace"
          let message ← message context [] rounds
          require '}' "a closing brace"
          if before.any fun branch => branch.selector == .ofList selector then
            throw ⟨.duplicateSelector (.ofList selector), start⟩
          else branches context (before ++ [⟨.ofList selector, message⟩]) rounds

end

/-- A number of rounds that is enough for what is left of a text. -/
def roundsFor (input : List Char) : Nat :=
  4 * (input.length + 1)

def whole (rounds : Nat) : Machine Message := do
  let message ← message .plain [] rounds
  if (← peek).isSome then fail .unmatchedClosingBrace else return message

end Machine

end MessagePattern.Pattern
