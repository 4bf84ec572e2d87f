import MessagePattern.Command.Run
import MessagePattern.Proofs.Layout.Reread

/-!
# Formatting what was formatted

Which patterns are still the same after they have been formatted twice.
-/

namespace MessagePattern.Command

open Layout Pattern

theorem render_plain (message : Message) :
    render .plain message = print message := rfl

/-- The line feed that ends the output is no part of the pattern in it. -/
theorem patternOfText_newline (pattern : String) :
    patternOfText (pattern ++ "\n") = pattern := by
  have ends : (pattern ++ "\n").toList = pattern.toList ++ ['\n'] := String.toList_append
  rw [patternOfText, ends, List.getLast?_concat, if_pos rfl, List.dropLast_concat,
    String.ofList_toList]

theorem run_format
    {surroundings : Source.Surroundings} {file text : String} {message : Message}
    (loaded : surroundings.load file = .ok text)
    (accepted : parse (patternOfText text) = .ok message) :
    run surroundings (.format false file) = .printed (print message) := by
  simp only [run, withMessage, loaded, accepted]
  exact congrArg Outcome.printed (render_plain message)

theorem run_format_eq_printed_iff
    {surroundings : Source.Surroundings} {file text pattern : String}
    (loaded : surroundings.load file = .ok text) :
    run surroundings (.format false file) = .printed pattern ↔
      (parse (patternOfText text)).map print = .ok pattern := by
  cases parsed : parse (patternOfText text) with
  | error error =>
      simp [run, withMessage, loaded, parsed, Outcome.failed, Outcome.printed, Except.map]
  | ok message =>
      rw [run_format loaded parsed]
      simp [Outcome.printed, Except.map, String.append_left_inj]

/-- Formatting keeps an accepted pattern as it is, and formatting the output again changes nothing,
exactly if the message has no plural without an offset whose first selector reads as one. -/
theorem format_stable_iff_isUnambiguous
    {pattern : String} {message : Message}
    (accepted : parse pattern = .ok message) :
    (parse (print message) = .ok message ↔ Message.IsUnambiguous message) ∧
      ((parse (print message)).map print = .ok (print message) ↔
        Message.IsUnambiguous message) ∧
      ∀ before after file output text,
        Source.Surroundings.load before file = .ok text →
        patternOfText text = pattern →
        Source.Surroundings.load after output =
          .ok (run before (.format false file)).output →
        (run after (.format false output) = run before (.format false file) ↔
          Message.IsUnambiguous message) := by
  have wellFormed := (Grammar.denotes_of_parse accepted).isWellFormed
  have stable := map_print_parse_print_iff wellFormed
  refine ⟨⟨fun parsed => ?_, fun unambiguous => ?_⟩, stable, ?_⟩
  · refine stable.mp ?_
    rw [parsed]
    rfl
  · exact Grammar.parse_of_denotes (denotes_print wellFormed unambiguous)
  · rintro before after file output text loaded rfl outputLoaded
    rw [run_format loaded accepted] at outputLoaded ⊢
    rw [run_format_eq_printed_iff outputLoaded]
    simpa only [Outcome.printed, patternOfText_newline] using stable

/-- Surroundings in which each file holds the text. -/
def filesHolding (text : String) : Source.Surroundings :=
  ⟨.empty, fun _ => .ok text.toUTF8⟩

theorem load_filesHolding (text : String) :
    (filesHolding text).load "pattern" = .ok text :=
  Source.Surroundings.load_of_read (by decide) rfl

/-- A selector that reads as an offset, behind the offset of its plural. -/
def secondOffset : String :=
  "\x7bn,plural,offset:1 offset:5\x7b#\x7d\x7d"

def secondOffsetMessage : Message :=
  [.plural "n" .cardinal 1 [⟨"offset:5", [.number]⟩]]

/-- An offset in front of the selector keeps it from being taken for another one. -/
theorem format_stable_second_offset :
    parse secondOffset = .ok secondOffsetMessage ∧
      parse (print secondOffsetMessage) = .ok secondOffsetMessage ∧
      run
          (filesHolding
            (run (filesHolding (secondOffset ++ "\n")) (.format false "pattern")).output)
          (.format false "pattern") =
        run (filesHolding (secondOffset ++ "\n")) (.format false "pattern") := by
  have accepted : parse secondOffset = .ok secondOffsetMessage := by
    with_unfolding_all rfl
  have unambiguous : Message.IsUnambiguous secondOffsetMessage := by
    decide
  obtain ⟨parsedAgain, _, formattedAgain⟩ := format_stable_iff_isUnambiguous accepted
  refine ⟨accepted, parsedAgain.mpr unambiguous, ?_⟩
  apply (formattedAgain _ _ "pattern" "pattern" _ (load_filesHolding _)
    (patternOfText_newline _) (load_filesHolding _)).mpr
  exact unambiguous

/-- A selector that reads as an offset, in a plural without one. -/
def zeroOffset : Message :=
  [.plural "n" .cardinal 0 [⟨"offset:5", [.text "a"]⟩]]

/-- An offset of zero is left out, and the selector behind it is taken for an offset. -/
theorem format_breaks_explicit_zero_offset :
    parse "\x7bn, plural, offset:0 offset:5 \x7ba\x7d\x7d" = .ok zeroOffset ∧
      print zeroOffset = "\x7b n, plural,\n  offset:5 \x7ba\x7d\n\x7d" ∧
      parse (print zeroOffset) = .error ⟨.expected "a selector", 24⟩ := by
  refine ⟨?_, ?_, ?_⟩
  all_goals with_unfolding_all rfl

end MessagePattern.Command
