/-!
What can be wrong with the text of a pattern.
-/

namespace MessagePattern

/-- Why a reader could not go on. -/
inductive Cause where
  | unexpectedEndOfInput
  | unterminatedQuote
  | expected (what : String)
  | invalidCharacter (c : Char)
  | emptyKey
  | invalidOffset
  | duplicateSelector (selector : String)
  | missingSubmessages
  | unmatchedClosingBrace
  deriving DecidableEq, Repr

def Cause.message : Cause → String
  | unexpectedEndOfInput => "unexpected end of input"
  | unterminatedQuote => "quoted text is never closed"
  | expected what => "expected " ++ what
  | invalidCharacter c => "invalid character '" ++ String.singleton c ++ "'"
  | emptyKey => "placeholder has no argument name"
  | invalidOffset => "invalid plural offset"
  | duplicateSelector selector => "selector \"" ++ selector ++ "\" appears more than once"
  | missingSubmessages => "expected at least one sub-message"
  | unmatchedClosingBrace => "closing brace without opening"

/-- A cause and the byte position in the text that it is about. -/
structure PatternError where
  cause : Cause
  offset : Nat
  deriving DecidableEq, Repr

def PatternError.message (error : PatternError) : String :=
  error.cause.message ++ " at offset " ++ toString error.offset

end MessagePattern
