import MessagePattern.Pattern.Cursor
import MessagePattern.Proofs.Pattern.Faults
import MessagePattern.Proofs.Pattern.Readers
import MessagePattern.Proofs.Text.Bytes

/-!
# Rejected patterns

The error of a pattern that is not accepted points at a place in the pattern, and its cause fits that
place.
-/

namespace MessagePattern.Pattern

open Grammar

def MessageTruthful (context : Context) (input : List Char) : Prop :=
  ∀ earlier,
    (readMessage context input).IsTruthful earlier input fun _ rest => ∀ c ∈ rest.head?, c = '}'

def PlaceholderTruthful (input : List Char) : Prop :=
  ∀ earlier,
    (readPlaceholderBody input).IsTruthful earlier input fun _ rest => '}' :: rest <:+ input

/-- Branches are read after others whose selectors occur in the text before. -/
def BranchesTruthful (context : Context) (seen : List String) (input : List Char) : Prop :=
  ∀ earlier,
    (∀ selector ∈ seen, selector.toList <:+: earlier) →
    (∀ c ∈ input.head?, isBlank c = false) →
    (readBranchesAfter context seen input).IsTruthful earlier input fun _ rest =>
      rest.head? = some '}'

theorem messageTruthful_step
    {context : Context} {input : List Char}
    (placeholders : ∀ shorter, shorter.length < input.length → PlaceholderTruthful shorter)
    (messages : ∀ shorter, shorter.length < input.length → MessageTruthful context shorter) :
    MessageTruthful context input := by
  intro earlier
  cases input with
  | nil =>
      rw [readMessage_nil]
      exact ⟨List.suffix_rfl, by simp⟩
  | cons c tail =>
      have restTruthful :
          ∀ {middle} (f : Message → Message),
            middle <:+ c :: tail →
            middle.length < (c :: tail).length →
            ((readMessage context middle).map f).IsTruthful earlier (c :: tail)
              fun _ rest => ∀ d ∈ rest.head?, d = '}' := by
        intro middle f isEnd shorter
        exact .map (.ofSuffix (messages middle shorter) isEnd) fun _ _ stops => stops
      rw [readMessage_cons]
      split
      · next isClosing =>
          exact ⟨List.suffix_rfl, by simpa using isClosing⟩
      · split
        · refine .andThen (.ofSuffix (placeholders tail (by simp)) (List.suffix_cons c tail)) ?_
          intro node middle isEnd ended
          exact restTruthful _ isEnd (Nat.lt_succ_of_lt ended.length_le)
        · split
          · next isText =>
              have shorter := readText_rest_length_lt context c tail isText
              refine .andThen (readText_isTruthful context none _ (by simp) earlier |>.mono
                fun _ rest found _ => show rest.length < (c :: tail).length from ?_) ?_
              · rwa [found] at shorter
              · intro text middle isEnd isShorter
                exact restTruthful _ isEnd isShorter
          · exact restTruthful _ (List.suffix_cons c tail) (by simp)

theorem placeholderTruthful_step
    {input : List Char}
    (branches :
      ∀ context shorter, shorter.length ≤ input.length → BranchesTruthful context [] shorter) :
    PlaceholderTruthful input := by
  intro earlier
  have branchesTruthful :
      ∀ {context middle} (make : Branches → Node),
        middle <:+ input →
        ((readBranches context middle).andThen fun branches rest =>
          (expect '}' "a closing brace" rest).map fun _ => make branches).IsTruthful earlier input
            fun _ rest => '}' :: rest <:+ input := by
    intro context middle make isEnd
    have isEnd := (skipBlanks_suffix middle).trans isEnd
    have truthful := branches context (skipBlanks middle) isEnd.length_le
    refine .andThen (.ofSuffix (fun _ => truthful _ (by simp)
      fun _ => not_blank_of_mem_head?_skipBlanks) isEnd) ?_
    intro found rest isEnd stops
    refine .map (.ofSuffix (expect_brace_isTruthful · (by simp [stops])) isEnd) ?_
    rintro _ after rfl
    exact isEnd
  rw [readPlaceholderBody_eq]
  refine .andThen (readOpening_isTruthful input earlier) fun opening middle isEnd ended => ?_
  cases opening with
  | closed node =>
      exact ⟨isEnd, ended⟩
  | plural key kind offset =>
      exact branchesTruthful _ isEnd
  | select key =>
      exact branchesTruthful _ isEnd

theorem branchesTruthful_step
    {context : Context} {seen : List String} {input : List Char}
    (messages : ∀ shorter, shorter.length < input.length → MessageTruthful context shorter)
    (branches :
      ∀ selector shorter,
        shorter.length < input.length → BranchesTruthful context (selector :: seen) shorter) :
    BranchesTruthful context seen input := by
  intro earlier occurs notBlank
  cases input with
  | nil =>
      rw [readBranchesAfter_nil]
      exact .stop rfl
  | cons c tail =>
      rw [readBranchesAfter_cons]
      split
      · next isClosing =>
          subst isClosing
          split
          · exact .stop rfl
          · exact ⟨List.suffix_rfl, rfl⟩
      · next notClosing =>
          refine .andThen (.mono (readSelector_isTruthful earlier (notBlank c rfl) notClosing)
            fun _ _ found _ => exists_of_readSelector found) ?_
          rintro selector body bodyEnd ⟨blanks, isWord, _, inputEq⟩
          have shorter : body.length < (c :: tail).length := by
            rw [inputEq]
            simp only [List.length_append, List.length_cons]
            omega
          refine .andThen (.ofSuffix (fun earlier => (messages body shorter earlier).andSuffix)
            bodyEnd) ?_
          rintro message middle middleEnd ⟨middleOfBody, stops⟩
          refine .andThen (.ofSuffix (expect_brace_isTruthful · stops) middleEnd) ?_
          rintro _ rest restEnd rfl
          split
          · next repeated =>
              refine ⟨restEnd, [], rfl, isWord, ?_, ?_⟩
              · exact ⟨blanks ++ '{' :: body, inputEq.symm⟩
              · rw [List.append_nil]
                exact occurs selector (by simpa using repeated)
          · obtain ⟨between, bodyEq⟩ :=
              (skipBlanks_suffix rest).trans ((List.suffix_cons '}' rest).trans middleOfBody)
            have split :
                c :: tail = selector.toList ++ (blanks ++ '{' :: between) ++ skipBlanks rest := by
              rw [inputEq, ← bodyEq]
              simp
            have restShorter : (skipBlanks rest).length < (c :: tail).length := by
              rw [split]
              simp only [List.length_append, List.length_cons]
              omega
            refine .map (.within ?_ split) fun _ _ good => good
            refine branches selector _ restShorter _ ?_ fun _ => not_blank_of_mem_head?_skipBlanks
            intro other member
            rcases List.mem_cons.mp member with rfl | inSeen
            · exact ⟨earlier, blanks ++ '{' :: between, by simp⟩
            · exact (occurs other inSeen).trans (List.prefix_append earlier _).isInfix

theorem readers_truthful :
    (∀ context input, MessageTruthful context input) ∧
      (∀ input, PlaceholderTruthful input) ∧
      ∀ context seen input, BranchesTruthful context seen input :=
  readers_induction
    (fun _ _ => messageTruthful_step)
    (fun _ => placeholderTruthful_step)
    (fun _ _ _ => branchesTruthful_step)

/-! ## Whole patterns -/

theorem readWhole_isTruthful (input earlier : List Char) :
    (readWhole input).IsTruthful earlier input fun _ rest => rest = [] := by
  refine .andThen (readers_truthful.1 .plain input earlier) fun message middle isEnd stops => ?_
  split
  · next isEmpty =>
      exact ⟨isEnd, List.isEmpty_iff.mp isEmpty⟩
  · next notEmpty =>
      obtain ⟨c, rest, rfl⟩ := List.exists_cons_of_ne_nil (by simpa using notEmpty)
      obtain rfl := stops c rfl
      exact .ofSuffix (fun _ => .stop rfl) isEnd

/-- An error is the failure of the reader of whole patterns, at its byte position. -/
theorem parse_eq_error_iff
    {source : String} {error : PatternError} :
    parse source = .error error ↔
      ∃ place rest,
        readWhole source.toList = .failed error.cause place rest ∧
          error.offset = byteLength source.toList - byteLength place := by
  obtain ⟨cause, offset⟩ := error
  unfold parse Cursor.read Cursor.start Cursor.offsetOf
  cases found : readWhole source.toList with
  | done message rest =>
      simp
  | failed cause' place rest =>
      simp only [Except.error.injEq, PatternError.mk.injEq, Reading.failed.injEq,
        Nat.zero_add]
      constructor
      · rintro ⟨rfl, rfl⟩
        exact ⟨place, rest, ⟨rfl, rfl, rfl⟩, rfl⟩
      · rintro ⟨_, _, ⟨rfl, rfl, rfl⟩, rfl⟩
        exact ⟨rfl, rfl⟩

/-- An error is about a place in the source that its cause fits. -/
theorem exists_place_of_parse
    {source : String} {error : PatternError}
    (rejected : parse source = .error error) :
    ∃ before after,
      source.toList = before ++ after ∧
        byteLength before = error.offset ∧
        error.cause.Fits before after := by
  obtain ⟨place, rest, failed, offsetEq⟩ := parse_eq_error_iff.mp rejected
  have truthful := readWhole_isTruthful source.toList []
  rw [failed] at truthful
  obtain ⟨_, before, sourceEq, fits⟩ := truthful
  refine ⟨before, place, sourceEq, ?_, fits⟩
  rw [offsetEq, sourceEq, byteLength_append]
  omega

/-- Whether an error points at a place in the source that its cause fits. -/
structure PointsInto (error : PatternError) (source : String) : Prop where
  offset_le : error.offset ≤ source.utf8ByteSize
  isValid : String.Pos.Raw.IsValid source ⟨error.offset⟩
  fits :
    ∃ before after,
      source.toList = before ++ after ∧
        byteLength before = error.offset ∧
        (∀ c ∈ after.head?, isBlank c = false) ∧
        error.cause.Fits before after
  not_closingBrace : error.cause ≠ .expected "a closing brace"

/-- Every error of a pattern points into it. -/
theorem pointsInto_of_parse
    {source : String} {error : PatternError}
    (rejected : parse source = .error error) :
    PointsInto error source := by
  obtain ⟨before, after, sourceEq, length, fits⟩ := exists_place_of_parse rejected
  refine ⟨?_, ?_, ⟨before, after, sourceEq, length, fits.not_blank, fits⟩, ?_⟩
  · rw [← byteLength_toList, sourceEq, byteLength_append]
    omega
  · rw [← isSome_splitBytes?_iff, sourceEq, ← length, splitBytes?_append]
    rfl
  · intro isClosing
    rw [isClosing] at fits
    simp [Cause.Fits] at fits

/-- A selector that is used again, behind characters of several bytes. -/
def secondSelector : String :=
  "é \x7bn,plural,one\x7b½\x7d  one\x7b#\x7d\x7d"

theorem pointsInto_second_selector :
    parse secondSelector = .error ⟨.duplicateSelector "one", 22⟩ ∧
      PointsInto ⟨.duplicateSelector "one", 22⟩ secondSelector := by
  have rejected : parse secondSelector = .error ⟨.duplicateSelector "one", 22⟩ := by
    with_unfolding_all rfl
  exact ⟨rejected, pointsInto_of_parse rejected⟩

end MessagePattern.Pattern
