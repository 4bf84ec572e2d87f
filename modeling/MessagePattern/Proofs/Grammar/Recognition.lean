import MessagePattern.Pattern.Cursor
import MessagePattern.Proofs.Grammar.Completeness

/-!
# Recognition

Parsing accepts exactly the patterns of the grammar, each with the message that it derives, and all
messages that are parsed are well formed.
-/

namespace MessagePattern.Grammar

open Pattern

theorem readWhole_eq_done_iff
    {input rest : List Char} {message : Message} :
    readWhole input = .done message rest ↔
      rest = [] ∧ readMessage .plain input = .done message [] := by
  rw [readWhole, Reading.andThen_eq_done_iff]
  constructor
  · rintro ⟨nodes, middle, found, ended⟩
    split at ended
    · next isEnd =>
        obtain rfl := List.isEmpty_iff.mp isEnd
        cases ended
        exact ⟨rfl, found⟩
    · cases ended
  · rintro ⟨rfl, found⟩
    exact ⟨message, [], found, rfl⟩

theorem parse_eq_ok_iff
    {pattern : String} {message : Message} :
    parse pattern = .ok message ↔
      readMessage .plain pattern.toList = .done message [] := by
  unfold parse Cursor.read Cursor.start
  dsimp only
  split
  · next found =>
      obtain ⟨_, found⟩ := readWhole_eq_done_iff.mp found
      simp [found]
  · next failed =>
      constructor
      · intro impossible
        cases impossible
      · intro found
        rw [readWhole_eq_done_iff.mpr ⟨rfl, found⟩] at failed
        cases failed

theorem parse_of_denotes
    {pattern : String} {message : Message}
    (denotes : Denotes pattern message) :
    parse pattern = .ok message := by
  have found : readMessage .plain (pattern.toList ++ []) = .done message [] :=
    denotes.isReadFrom [] rfl (by simp)
  rw [parse_eq_ok_iff]
  simpa using found

theorem denotes_of_parse
    {pattern : String} {message : Message}
    (parsed : parse pattern = .ok message) :
    Denotes pattern message := by
  obtain ⟨source, sourceEq, derived, _⟩ :=
    readers_sound.1 .plain pattern.toList (parse_eq_ok_iff.mp parsed)
  rw [List.append_nil] at sourceEq
  rw [Denotes, sourceEq]
  exact derived

/-- Parsing recognises the grammar: a pattern is accepted as a message exactly if it denotes the
message, and it denotes no other. -/
theorem parse_eq_ok_iff_denotes (pattern : String) :
    (∀ message, parse pattern = .ok message ↔ Denotes pattern message) ∧
      ∀ left right, Denotes pattern left → Denotes pattern right → left = right := by
  refine ⟨fun message => ⟨denotes_of_parse, parse_of_denotes⟩, ?_⟩
  intro left right leftDenoted rightDenoted
  have parsed := parse_of_denotes leftDenoted
  rw [parse_of_denotes rightDenoted] at parsed
  exact (Except.ok.inj parsed).symm

/-- Apostrophes, an offset, blanks and a number sign, all in one pattern. -/
def offsetPlural : String :=
  "it's \x7bn, plural , offset: 1 =1\x7b'\x7b'''\x7d other \x7b#'#' \x7bx\x7d\x7d\x7d"

def offsetPluralMessage : Message :=
  [.text "it's ",
    .plural "n" .cardinal 1
      [⟨"=1", [.text "\x7b'"]⟩, ⟨"other", [.number, .text "# ", .argument "x"]⟩]]

theorem denotes_offset_plural :
    Denotes offsetPlural offsetPluralMessage ∧
      ∀ message, Denotes offsetPlural message → message = offsetPluralMessage := by
  have parsed : parse offsetPlural = .ok offsetPluralMessage := by
    with_unfolding_all rfl
  have denoted := ((parse_eq_ok_iff_denotes _).1 _).mp parsed
  exact ⟨denoted, fun message other => (parse_eq_ok_iff_denotes _).2 _ _ other denoted⟩

theorem isPlaceholder_of_derives
    {source : List Char} {node : Node}
    (derived : Derives source (.placeholder node)) :
    node.isPlaceholder = true := by
  cases derived <;> rfl

/-- A message that begins with a text is derived from a text that does. -/
theorem exists_first_of_derives_text
    {context : Context} {next : Option Char} {source : List Char} {node : Node} {nodes : Message}
    (derived : Derives source (.message context next (node :: nodes)))
    (isText : node.isPlaceholder = false) :
    ∃ c ∈ source.head?, context.isSyntax c = false := by
  cases derived with
  | text nonempty row _ _ =>
      exact first_append (exists_first_of_textRow row nonempty) _
  | number _ =>
      cases isText
  | placeholder nodeDerived _ =>
      rw [isPlaceholder_of_derives nodeDerived] at isText
      cases isText

def Phrase.IsWellFormed : Phrase → Prop
  | .message context _ nodes => Message.IsWellFormed context nodes
  | .placeholder node => ∀ context, node.IsWellFormed context
  | .branches context entries => branchesWellFormed context entries

/-- What the grammar derives is well formed. -/
theorem Derives.isWellFormed
    {source : List Char} {phrase : Phrase}
    (derived : Derives source phrase) :
    phrase.IsWellFormed := by
  induction derived with
  | empty =>
      trivial
  | @text context next source rest content nodes nonempty row stopsText nodesDerived
      nodesWellFormed =>
      refine ⟨?_, Or.inr ?_, nodesWellFormed⟩
      · rintro rfl
        exact nonempty ((row.source_eq_nil_iff TextPart.nonempty).mpr rfl)
      · intro neighbour isFirst
        by_contra isText
        rw [Bool.not_eq_true] at isText
        obtain ⟨others, rfl⟩ := List.head?_eq_some_iff.mp isFirst
        obtain ⟨c, first, notSyntax⟩ := exists_first_of_derives_text nodesDerived isText
        rw [stopsText c (by simp [Option.mem_def.mp first])] at notSyntax
        cases notSyntax
  | number _ nodesWellFormed =>
      exact ⟨rfl, Or.inl rfl, nodesWellFormed⟩
  | placeholder nodeDerived _ nodeWellFormed nodesWellFormed =>
      exact ⟨nodeWellFormed _, Or.inl (isPlaceholder_of_derives nodeDerived), nodesWellFormed⟩
  | argument keyPadded =>
      intro _
      exact keyPadded.isWord
  | unstyled keyPadded typePadded takesStyle =>
      intro _
      exact ⟨keyPadded.isWord, typePadded.isWord, takesStyle, by simp⟩
  | styled keyPadded typePadded takesStyle _ =>
      intro _
      refine ⟨keyPadded.isWord, typePadded.isWord, takesStyle, ?_⟩
      split <;> simp_all
  | choice keyPadded _ _ _ nonempty nodup casesWellFormed =>
      intro _
      exact ⟨keyPadded.isWord, rfl, nonempty, nodup, casesWellFormed⟩
  | plural keyPadded _ _ _ nonempty nodup branchesWellFormed =>
      intro _
      exact ⟨keyPadded.isWord, nonempty, nodup, branchesWellFormed⟩
  | noBranch =>
      trivial
  | branch isWord _ _ _ _ messageWellFormed branchesWellFormed =>
      exact ⟨isWord, messageWellFormed, branchesWellFormed⟩

/-- Every message that a pattern denotes is well formed. -/
theorem Denotes.isWellFormed
    {pattern : String} {message : Message}
    (denotes : Denotes pattern message) :
    Message.IsWellFormed .plain message :=
  Derives.isWellFormed denotes

/-- Every message that is parsed is well formed. -/
theorem isWellFormed_of_parse
    {pattern : String} {message : Message}
    (parsed : parse pattern = .ok message) :
    Message.IsWellFormed .plain message :=
  (denotes_of_parse parsed).isWellFormed

/-- A select inside a plural, in which a number sign is text again. -/
def selectInPlural : String :=
  "\x7bn,plural,other\x7b# of \x7bg,select,a\x7b#\x7db\x7b\x7bx,date,'\x7d'\x7d\x7d\x7d\x7d\x7d"

def selectInPluralMessage : Message :=
  [.plural "n" .cardinal 0
    [⟨"other",
      [.number, .text " of ",
        .choice "g" "select"
          [⟨"a", [.text "#"]⟩, ⟨"b", [.styled "x" "date" (some "\x7d")]⟩]]⟩]]

theorem isWellFormed_select_in_plural :
    parse selectInPlural = .ok selectInPluralMessage ∧
      Message.IsWellFormed .plain selectInPluralMessage := by
  have parsed : parse selectInPlural = .ok selectInPluralMessage := by
    with_unfolding_all rfl
  exact ⟨parsed, isWellFormed_of_parse parsed⟩

end MessagePattern.Grammar
