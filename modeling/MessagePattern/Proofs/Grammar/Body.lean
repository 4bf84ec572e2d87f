import Mathlib.Data.List.Forall2
import MessagePattern.Proofs.Grammar.Completeness

/-!
# Messages in front of any end

A message that is read in front of a closing brace is read in front of any other one, and at the end
of a text. So what stands between the braces of a branch is read on its own as it is in its place.
-/

namespace MessagePattern.Grammar

open Pattern

section AtEnd

variable {context : Context} {next : Option Char} {source : List Char}

/-- What stands for a value in front of some character stands for it at the end. -/
theorem TextPart.atEnd
    {part value : List Char}
    (fits : TextPart context next part value) :
    TextPart context none part value := by
  cases fits with
  | char notApostrophe notSyntax =>
      exact .char notApostrophe notSyntax
  | doubled =>
      exact .doubled
  | lone _ =>
      exact .lone nofun
  | quoted isSyntax _ =>
      exact .quoted isSyntax nofun

theorem textRow_atEnd
    {value : List Char}
    (row : Row (TextPart context) next source value) :
    Row (TextPart context) none source value := by
  induction row with
  | nil =>
      exact .nil
  | @cons part value source values fits _ inductionHypothesis =>
      refine .cons ?_ inductionHypothesis
      -- Only the last part of a row is in front of what follows the row.
      cases source with
      | nil =>
          exact fits.atEnd
      | cons c source =>
          exact fits

/-- No production needs a character behind a message: those that look at one only exclude some. -/
theorem Derives.atEnd
    {message : Message}
    (derived : Derives source (.message context next message)) :
    Derives source (.message context none message) := by
  induction message generalizing source with
  | nil =>
      cases derived with
      | empty =>
          exact .empty
  | cons node nodes inductionHypothesis =>
      cases derived with
      | @text _ _ source rest content _ nonempty row stopsText nodesDerived =>
          have rowAtEnd : Row (TextPart context) (rest.head?.or none) source content.toList := by
            cases rest with
            | nil =>
                exact textRow_atEnd row
            | cons c rest =>
                exact row
          refine .text nonempty rowAtEnd ?_ (inductionHypothesis nodesDerived)
          intro c first
          rw [Option.or_none] at first
          exact stopsText c (by rw [Option.mem_def.mp first]; rfl)
      | number nodesDerived =>
          exact .number (inductionHypothesis nodesDerived)
      | placeholder nodeDerived nodesDerived =>
          exact .placeholder nodeDerived (inductionHypothesis nodesDerived)

/-- What derives a message in front of a closing brace is read as the message wherever messages
end. -/
theorem Derives.read_append
    {message : Message} {rest : List Char}
    (derived : Derives source (.message context (some '}') message))
    (ends : ∀ c ∈ rest.head?, c = '}') :
    readMessage context (source ++ rest) = .done message rest := by
  cases rest with
  | nil =>
      exact derived.atEnd.isReadFrom [] rfl nofun
  | cons c rest =>
      obtain rfl := ends c rfl
      exact derived.isReadFrom _ rfl (by simp)

end AtEnd

/-- The text of a branch: its selector, blanks, the text of its message in braces, and blanks. -/
structure BranchText where
  selector : String
  before : List Char
  body : List Char
  after : List Char

namespace BranchText

def source (text : BranchText) : List Char :=
  text.selector.toList ++ text.before ++ '{' :: text.body ++ '}' :: text.after

/-- Whether the text of a branch has its selector, and a body that is read as its message, in its
place as well as on its own. -/
structure StandsFor (context : Context) (text : BranchText) (branch : Branch Message) : Prop where
  selector_eq : text.selector = branch.selector
  isWord : IsWord isSelectorChar text.selector
  beforeBlank : AllBlank text.before
  afterBlank : AllBlank text.after
  inPlace : ∀ rest,
    readMessage context (text.body ++ '}' :: rest) = .done branch.message ('}' :: rest)
  alone : readMessage context text.body = .done branch.message []

end BranchText

/-- Branches are derived from one text for each of them. -/
theorem exists_branchTexts
    {context : Context} {source : List Char} {branches : Branches}
    (derived : Derives source (.branches context branches)) :
    ∃ texts : List BranchText,
      source = texts.flatMap BranchText.source ∧
        List.Forall₂ (BranchText.StandsFor context) texts branches := by
  induction branches generalizing source with
  | nil =>
      cases derived with
      | noBranch =>
          exact ⟨[], rfl, .nil⟩
  | cons branch branches inductionHypothesis =>
      cases derived with
      | @branch _ before body after rest selector message _ isWord beforeBlank bodyDerived
          afterBlank restDerived =>
          obtain ⟨texts, rfl, standFor⟩ := inductionHypothesis restDerived
          have alone : readMessage context (body ++ []) = .done message [] :=
            bodyDerived.read_append nofun
          rw [List.append_nil] at alone
          have standsFor :
              BranchText.StandsFor context ⟨selector, before, body, after⟩ ⟨selector, message⟩ :=
            { selector_eq := rfl
              isWord := isWord
              beforeBlank := beforeBlank
              afterBlank := afterBlank
              inPlace := fun rest => bodyDerived.read_append (by simp)
              alone := alone }
          exact ⟨⟨selector, before, body, after⟩ :: texts, by simp [BranchText.source],
            .cons standsFor standFor⟩

/-- The text of a placeholder with branches: key and type with the blanks around them, what stands
between the comma and the branches, and the branches. -/
structure BranchedText where
  keySource : List Char
  typeSource : List Char
  lead : List Char
  branches : List BranchText

namespace BranchedText

def branchesSource (text : BranchedText) : List Char :=
  text.branches.flatMap BranchText.source

def source (text : BranchedText) : List Char :=
  '{' :: text.keySource ++ ',' :: text.typeSource ++ ',' :: text.lead ++ text.branchesSource ++ ['}']

/-- Whether the text has the given key and type, and its branches stand for the given ones. -/
structure StandsFor (context : Context) (key type : String) (branches : Branches)
    (text : BranchedText) : Prop where
  key : Padded isTokenChar key text.keySource
  type : Padded isTokenChar type text.typeSource
  branches : List.Forall₂ (BranchText.StandsFor context) text.branches branches

end BranchedText

section Placeholders

variable {key : String} {branches : Branches} {source : List Char}

theorem exists_branchedText_of_plural
    {kind : PluralKind} {offset : UInt32}
    (derived : Derives source (.placeholder (.plural key kind offset branches))) :
    ∃ text : BranchedText,
      source = text.source ∧
        text.StandsFor .counted key kind.typeName branches ∧
        OffsetForm text.branchesSource text.lead offset := by
  cases derived with
  | @plural keySource typeSource lead source _ _ _ _ keyPadded typePadded form branchesDerived =>
      obtain ⟨texts, rfl, standFor⟩ := exists_branchTexts branchesDerived
      exact ⟨⟨keySource, typeSource, lead, texts⟩, rfl, ⟨keyPadded, typePadded, standFor⟩, form⟩

theorem exists_branchedText_of_choice
    {type : String}
    (derived : Derives source (.placeholder (.choice key type branches))) :
    ∃ text : BranchedText,
      source = text.source ∧
        text.StandsFor .plain key type branches ∧
        AllBlank text.lead := by
  cases derived with
  | @choice keySource typeSource lead source _ _ keyPadded typePadded allBlank casesDerived =>
      obtain ⟨texts, rfl, standFor⟩ := exists_branchTexts casesDerived
      exact ⟨⟨keySource, typeSource, lead, texts⟩, rfl, ⟨keyPadded, typePadded, standFor⟩,
        allBlank⟩

theorem exists_derives_of_readPlaceholder
    {input rest : List Char} {node : Node}
    (found : readPlaceholder input = .done node rest) :
    ∃ source, input = source ++ rest ∧ Derives source (.placeholder node) := by
  obtain ⟨_, tail, brace, bodyFound⟩ := Reading.andThen_eq_done_iff.mp found
  obtain rfl := eq_cons_of_expect brace
  obtain ⟨source, rfl, derived⟩ := readers_sound.2.1 tail bodyFound
  exact ⟨'{' :: source, rfl, derived⟩

end Placeholders

/-! ## The same message in front of any end -/

/-- A text that is read as a message up to a closing brace is read as the same message up to any
other closing brace and up to the end. So in an accepted plural or select the body of each branch
is read as the message of the branch on its own. -/
theorem readMessage_append_of_brace :
    (∀ context consumed rest message,
      rest.head? = some '}' →
      readMessage context (consumed ++ rest) = .done message rest →
      ∀ other, (∀ c ∈ other.head?, c = '}') →
        readMessage context (consumed ++ other) = .done message other) ∧
      (∀ input rest key kind offset branches,
        readPlaceholder input = .done (.plural key kind offset branches) rest →
        ∃ text : BranchedText,
          input = text.source ++ rest ∧
            text.StandsFor .counted key kind.typeName branches ∧
            OffsetForm text.branchesSource text.lead offset) ∧
      ∀ input rest key type cases,
        readPlaceholder input = .done (.choice key type cases) rest →
        ∃ text : BranchedText,
          input = text.source ++ rest ∧
            text.StandsFor .plain key type cases ∧
            AllBlank text.lead := by
  refine ⟨?_, ?_, ?_⟩
  · intro context consumed rest message isClosed found other ends
    obtain ⟨source, inputEq, derived, _⟩ := readers_sound.1 context _ found
    obtain rfl := List.append_cancel_right inputEq
    rw [isClosed] at derived
    exact derived.read_append ends
  · intro input rest key kind offset branches found
    obtain ⟨source, rfl, derived⟩ := exists_derives_of_readPlaceholder found
    obtain ⟨text, rfl, standsFor, form⟩ := exists_branchedText_of_plural derived
    exact ⟨text, rfl, standsFor, form⟩
  · intro input rest key type cases found
    obtain ⟨source, rfl, derived⟩ := exists_derives_of_readPlaceholder found
    obtain ⟨text, rfl, standsFor, allBlank⟩ := exists_branchedText_of_choice derived
    exact ⟨text, rfl, standsFor, allBlank⟩

/-- A message that ends with the apostrophe of a quoted part. -/
def quotedEnd : List Char :=
  "# '\x7d'''''".toList

def quotedEndMessage : Message :=
  [.number, .text " \x7d''"]

/-- A plural with an offset, and what may follow it. -/
def pluralBeforeBrace : List Char :=
  "\x7bn, plural, offset:1 one\x7b'\x7b'#\x7d other\t\x7b\x7bx\x7d\x7d \x7d '".toList

def pluralBranches : Branches :=
  [⟨"one", [.text "\x7b", .number]⟩, ⟨"other", [.argument "x"]⟩]

/-- A select in which the number sign is text. -/
def signSelect : List Char :=
  "\x7bg,select, a\x7b#\x7d\x7d".toList

def signSelectCases : Branches :=
  [⟨"a", [.text "#"]⟩]

theorem readMessage_append_quoted_end :
    readMessage .counted (quotedEnd ++ "\x7d '".toList) =
        .done quotedEndMessage "\x7d '".toList ∧
      readMessage .counted (quotedEnd ++ []) = .done quotedEndMessage [] ∧
      readMessage .counted (quotedEnd ++ "\x7d\x7d".toList) =
        .done quotedEndMessage "\x7d\x7d".toList ∧
      readPlaceholder pluralBeforeBrace =
        .done (.plural "n" .cardinal 1 pluralBranches) " '".toList ∧
      (∃ text : BranchedText,
        pluralBeforeBrace = text.source ++ " '".toList ∧
          text.StandsFor .counted "n" "plural" pluralBranches ∧
          OffsetForm text.branchesSource text.lead 1) ∧
      readPlaceholder signSelect = .done (.choice "g" "select" signSelectCases) [] ∧
      ∃ text : BranchedText,
        signSelect = text.source ++ [] ∧
          text.StandsFor .plain "g" "select" signSelectCases ∧
          AllBlank text.lead := by
  have found :
      readMessage .counted (quotedEnd ++ "\x7d '".toList) =
        .done quotedEndMessage "\x7d '".toList := by
    with_unfolding_all rfl
  have pluralFound :
      readPlaceholder pluralBeforeBrace =
        .done (.plural "n" .cardinal 1 pluralBranches) " '".toList := by
    with_unfolding_all rfl
  have selectFound :
      readPlaceholder signSelect = .done (.choice "g" "select" signSelectCases) [] := by
    with_unfolding_all rfl
  have sameMessage := readMessage_append_of_brace.1 _ _ _ _ (by decide) found
  exact ⟨found, sameMessage [] (by simp), sameMessage _ (by simp), pluralFound,
    readMessage_append_of_brace.2.1 _ _ _ _ _ _ pluralFound, selectFound,
    readMessage_append_of_brace.2.2 _ _ _ _ _ selectFound⟩

end MessagePattern.Grammar
