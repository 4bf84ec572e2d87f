import MessagePattern.Proofs.Grammar.Recognition
import MessagePattern.Proofs.Pattern.Continuation

/-!
# Patterns behind one another

A pattern whose message ends with a placeholder has come to an end by itself. A second pattern behind
it is read as it is alone, with its errors at positions counted from where it begins.
-/

namespace MessagePattern.Pattern

open Grammar Reading

/-- A value that the reading is not open with is read in front of more text as well. -/
theorem eq_done_of_persists
    {α : Type} {Open : α → List Char → Prop} {more rest : List Char} {value : α}
    {longer : Reading α}
    (persists : Persists Open more (.done value rest) longer)
    (notOpen : ¬ Open value rest) :
    longer = .done value (rest ++ more) :=
  persists.resolve_left notOpen

/-- Whether the message does not end with a text, which could go on. -/
def EndsSharply (message : Message) : Prop :=
  ∀ node ∈ message.getLast?, node.isPlaceholder = true

section Message

variable {context : Context} {input : List Char} {message : Message}

theorem EndsSharply.of_cons
    {node : Node}
    (endsSharply : EndsSharply (node :: message)) :
    EndsSharply message := by
  intro last isLast
  refine endsSharply last ?_
  rw [List.getLast?_cons, Option.mem_def.mp isLast]
  rfl

theorem EndsSharply.ne_nil_of_text
    {content : String}
    (endsSharply : EndsSharply (.text content :: message)) :
    message ≠ [] := by
  rintro rfl
  exact absurd (endsSharply (.text content) rfl) Bool.false_ne_true

/-- A text that is read to its end is read as no nodes exactly if it is empty. -/
theorem eq_nil_iff_of_readMessage
    (found : readMessage context input = .done message []) :
    message = [] ↔ input = [] := by
  constructor
  · rintro rfl
    rcases cases_of_readMessage found with
      ⟨_, inputEq, _⟩ | ⟨_, _, _, _, _, _, _, ⟨⟩⟩ | ⟨_, _, _, _, _, _, ⟨⟩⟩ | ⟨_, _, _, _, _, ⟨⟩⟩
    exact inputEq.symm
  · rintro rfl
    rw [readMessage_nil, Reading.done.injEq] at found
    exact found.1.symm

/-- What is read up to the end as a message that does not end with a text is read in front of more
text, which is read as it is alone. -/
theorem readMessage_append_of_endsSharply
    (found : readMessage context input = .done message [])
    (endsSharply : EndsSharply message)
    (more : List Char) :
    readMessage context (input ++ more) = (readMessage context more).map (message ++ ·) := by
  induction message generalizing input with
  | nil =>
      obtain rfl := (eq_nil_iff_of_readMessage found).mp rfl
      rw [List.nil_append]
      cases readMessage context more <;> rfl
  | cons node nodes inductionHypothesis =>
      have nodesAppend :
          ∀ {middle},
            readMessage context middle = .done nodes [] →
            (readMessage context (middle ++ more)).map (node :: ·) =
              (readMessage context more).map (node :: nodes ++ ·) := by
        intro middle nodesFound
        rw [inductionHypothesis nodesFound endsSharply.of_cons, Reading.map_map]
        rfl
      rcases cases_of_readMessage found with
        ⟨impossible, _⟩ |
        ⟨tail, _, middle, _, rfl, nodeFound, nodesFound, ⟨⟩⟩ |
        ⟨text, middle, _, isText, textFound, nodesFound, ⟨⟩⟩ |
        ⟨tail, _, rfl, rfl, nodesFound, ⟨⟩⟩
      · cases impossible
      · have persists := readers_persist.2.1 tail more
        rw [nodeFound] at persists
        have longerFound :
            readPlaceholder ('{' :: (tail ++ more)) = .done node (middle ++ more) := by
          rw [readPlaceholder, expect_cons, Reading.andThen_done]
          exact eq_done_of_persists persists id
        rw [List.cons_append, readMessage_placeholder longerFound, nodesAppend nodesFound]
      · have persists := readText_persists context none input more
        rw [textFound] at persists
        -- Something follows the text, so that it cannot go on into what is put behind.
        have middleNonempty : middle ≠ [] :=
          (eq_nil_iff_of_readMessage nodesFound).not.mp endsSharply.ne_nil_of_text
        rw [readMessage_text (first_append isText more)
          (eq_done_of_persists persists middleNonempty), nodesAppend nodesFound]
      · rw [List.cons_append, readMessage_number, nodesAppend nodesFound]

end Message

theorem readWhole_append_of_endsSharply
    {input : List Char} {message : Message}
    (found : readMessage .plain input = .done message [])
    (endsSharply : EndsSharply message)
    (more : List Char) :
    readWhole (input ++ more) = (readWhole more).map (message ++ ·) := by
  rw [readWhole, readMessage_append_of_endsSharply found endsSharply, readWhole]
  cases readMessage .plain more with
  | done next rest =>
      dsimp only [Reading.map_done, Reading.andThen_done]
      split <;> rfl
  | failed cause place rest =>
      rfl

/-- Behind a pattern whose message does not end with a text, a second pattern is read as it is alone:
its message comes behind that of the first, and its errors are moved by the bytes of the first. -/
theorem parse_append_of_endsSharply
    {first : String} {message : Message}
    (accepted : parse first = .ok message)
    (endsSharply : EndsSharply message)
    (second : String) :
    (∀ next, parse second = .ok next → parse (first ++ second) = .ok (message ++ next)) ∧
      ∀ error, parse second = .error error →
        parse (first ++ second) = .error ⟨error.cause, first.utf8ByteSize + error.offset⟩ := by
  have firstFound := parse_eq_ok_iff.mp accepted
  constructor
  · intro next secondAccepted
    rw [parse_eq_ok_iff, String.toList_append,
      readMessage_append_of_endsSharply firstFound endsSharply,
      parse_eq_ok_iff.mp secondAccepted, Reading.map_done]
  · intro error rejected
    obtain ⟨place, rest, failed, offsetEq⟩ := parse_eq_error_iff.mp rejected
    have placeEnd : byteLength place ≤ byteLength second.toList := by
      have truthful := readWhole_isTruthful second.toList []
      rw [failed] at truthful
      obtain ⟨_, before, secondEq, _⟩ := truthful
      exact byteLength_le_of_suffix ⟨before, secondEq.symm⟩
    refine parse_eq_error_iff.mpr ⟨place, rest, ?_, ?_⟩
    · rw [String.toList_append, readWhole_append_of_endsSharply firstFound endsSharply, failed,
        Reading.map_failed]
    · rw [offsetEq, String.toList_append, byteLength_append, ← byteLength_toList,
        Nat.add_sub_assoc placeEnd]

/-- A character of several bytes in front of the placeholder that ends the pattern. -/
def sharpEnd : String :=
  "é \x7bn\x7d"

def sharpEndMessage : Message :=
  [.text "é ", .argument "n"]

/-- A selector that is used again behind a character of several bytes. -/
def selectorAgain : String :=
  "½\x7bm,plural,a\x7b\x7da\x7b\x7d\x7d"

theorem parse_append_second_selector :
    parse sharpEnd = .ok sharpEndMessage ∧
      EndsSharply sharpEndMessage ∧
      parse "'' #" = .ok [.text "' #"] ∧
      parse (sharpEnd ++ "'' #") = .ok (sharpEndMessage ++ [.text "' #"]) ∧
      parse selectorAgain = .error ⟨.duplicateSelector "a", 15⟩ ∧
      parse (sharpEnd ++ selectorAgain) = .error ⟨.duplicateSelector "a", 21⟩ := by
  have accepted : parse sharpEnd = .ok sharpEndMessage := by
    with_unfolding_all rfl
  have endsSharply : EndsSharply sharpEndMessage := by
    rintro _ ⟨⟩
    rfl
  have secondAccepted : parse "'' #" = .ok [.text "' #"] := by
    with_unfolding_all rfl
  have secondRejected : parse selectorAgain = .error ⟨.duplicateSelector "a", 15⟩ := by
    with_unfolding_all rfl
  exact ⟨accepted, endsSharply, secondAccepted,
    (parse_append_of_endsSharply accepted endsSharply _).1 _ secondAccepted, secondRejected,
    (parse_append_of_endsSharply accepted endsSharply _).2 _ secondRejected⟩

end MessagePattern.Pattern
