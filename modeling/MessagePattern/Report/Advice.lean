import MessagePattern.Layout.Paint
import MessagePattern.Pattern.Error

/-!
What to tell the author of a pattern about an error in it.
-/

namespace MessagePattern.Report

open Layout

/-! ## Examples -/

def placeholderExamples : List Message :=
  [[.argument "name"], [.styled "total" "number" none], [.styled "due" "date" (some "short")]]

def pluralExample : Message :=
  [.text "You have ",
    .plural "count" .cardinal 0
      [⟨"=0", [.text "no messages"]⟩, ⟨"one", [.text "one message"]⟩,
        ⟨"other", [.number, .text " messages"]⟩],
    .text "."]

def selectExample : Message :=
  [.choice "gender" "select"
    [⟨"female", [.text "her"]⟩, ⟨"male", [.text "his"]⟩, ⟨"other", [.text "their"]⟩]]

/-! ## Explanations -/

/-- The problem in a few words, and what can be said about it. -/
structure Explanation where
  problem : String
  details : String
  deriving DecidableEq, Repr

def placeholderDetails (theme : Theme) : String :=
  "Placeholders are enclosed in braces and start with the name of an argument,\n" ++
    "optionally followed by a type and a style:\n\n" ++
    String.join (placeholderExamples.map fun sample => "    " ++ render theme sample ++ "\n") ++
    "\nTo use a brace as literal text, quote it with apostrophes: " ++ theme.style .quote "'\x7b'"

def branchDetails (theme : Theme) : String :=
  "Plural, selectordinal and select placeholders need one or more branches, each\n" ++
    "a selector followed by a message in braces:\n\n" ++
    render theme pluralExample ++ "\n\n" ++ render theme selectExample

/-- The explanation of a cause, with examples as the theme shows them. -/
def explain (theme : Theme) : Cause → Explanation
  | .unexpectedEndOfInput =>
    ⟨"Unexpected end of input",
      "The pattern ended before a placeholder was closed. Every '\x7b' must have a matching '\x7d'."⟩
  | .unterminatedQuote =>
    ⟨"Unterminated quoted text",
      "An apostrophe before a syntax character starts quoted literal text, which\n" ++
        "continues until the next single apostrophe. To write a literal apostrophe use\n" ++
        "two of them, as in " ++ theme.style .text "it''s" ++ "."⟩
  | .expected what =>
    ⟨"Expected " ++ what, "The parser was looking for " ++ what ++ " but found something else."⟩
  | .invalidCharacter c =>
    ⟨"Invalid character '" ++ String.singleton c ++ "'", "This character is not allowed here."⟩
  | .emptyKey => ⟨Cause.emptyKey.message, placeholderDetails theme⟩
  | .unmatchedClosingBrace => ⟨Cause.unmatchedClosingBrace.message, placeholderDetails theme⟩
  | .invalidOffset =>
    ⟨"Invalid plural offset",
      "An offset is a whole number following " ++ theme.style .offset "offset:" ++ ", as in " ++
        theme.style .offset "offset:1" ++ "."⟩
  | .duplicateSelector selector =>
    ⟨"Duplicate selector \"" ++ selector ++ "\"",
      "Each selector may only label one branch of a plural or select."⟩
  | .missingSubmessages => ⟨"Missing sub-messages", branchDetails theme⟩

end MessagePattern.Report
