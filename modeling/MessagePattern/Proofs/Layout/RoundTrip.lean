import MessagePattern.Proofs.Grammar.Recognition
import MessagePattern.Proofs.Layout.Derivation

/-!
# Printing and parsing

A printed message is parsed as itself.
-/

namespace MessagePattern.Layout

open Grammar Pattern

/-- A printed message denotes the message. -/
theorem denotes_print
    {message : Message}
    (wellFormed : Message.IsWellFormed .plain message)
    (unambiguous : Message.IsUnambiguous message) :
    Denotes (print message) message := by
  rw [Denotes, toList_print]
  exact derives_messageSource .plain none message wellFormed unambiguous (by simp)

/-- Parsing what was printed gives the message back. -/
theorem parse_print
    {message : Message}
    (wellFormed : Message.IsWellFormed .plain message)
    (unambiguous : Message.IsUnambiguous message) :
    parse (print message) = .ok message :=
  parse_of_denotes (denotes_print wellFormed unambiguous)

/-- Apostrophes next to syntax, a number sign that is text in a select, a style that needs quotes,
and a selector that would be taken for an offset if its plural had none. -/
def quotedNest : Message :=
  [.text "it's '\x7b#",
    .plural "n" .ordinal 4294967295
      [⟨"offset:5", [.number, .text "''#'\x7d", .choice "g" "select" [⟨"offset:1", [.text "#"]⟩]]⟩,
        ⟨"offset:", []⟩],
    .styled "d" "date" (some "' y \x7b")]

theorem parse_print_quoted_nest :
    Message.IsWellFormed .plain quotedNest ∧
      Message.IsUnambiguous quotedNest ∧
      parse (print quotedNest) = .ok quotedNest := by
  have wellFormed : Message.IsWellFormed .plain quotedNest := by
    decide
  have unambiguous : Message.IsUnambiguous quotedNest := by
    decide
  exact ⟨wellFormed, unambiguous, parse_print wellFormed unambiguous⟩

end MessagePattern.Layout
