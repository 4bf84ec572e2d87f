import MessagePattern.Proofs.Layout.Text

/-!
# Derivations of written messages

What the layout writes for a message derives it, if the message is well formed and unambiguous.
-/

namespace MessagePattern.Layout

open Grammar Pattern

section Words

variable {isWordChar : Char → Bool} {word : String}

theorem padded_before
    (isWord : IsWord isWordChar word) :
    Padded isWordChar word (' ' :: word.toList) := by
  have padded : Padded isWordChar word ([' '] ++ word.toList ++ []) :=
    .mk (by decide) isWord allBlank_nil
  simpa using padded

theorem padded_around
    (isWord : IsWord isWordChar word) :
    Padded isWordChar word (' ' :: word.toList ++ [' ']) := by
  have blank : AllBlank [' '] := by decide
  simpa using Padded.mk blank isWord blank

end Words

theorem isWord_typeName (kind : PluralKind) :
    IsWord isTokenChar kind.typeName := by
  cases kind <;> decide

theorem allBlank_leadSource (width : Nat) (selector : String) :
    AllBlank (leadSource width selector) := by
  refine allBlank_cons (by decide) ?_
  intro c member
  obtain rfl := List.eq_of_mem_replicate member
  decide

/-- A selector that begins as an offset clause does has all of its beginning in itself. -/
theorem readsAsOffset_of_beginsOffset
    {selector : String} {rest : List Char}
    (isWord : IsWord isSelectorChar selector)
    (begins : BeginsOffset (selector.toList ++ ' ' :: '{' :: rest)) :
    ReadsAsOffset selector := by
  obtain ⟨blanks, digit, tail, allBlank, isDigit, equality⟩ := begins
  have selectorEnds : ∀ c ∈ (' ' :: '{' :: rest).head?, isSelectorChar c = false := by
    simpa using by decide
  have markInside : ∀ c ∈ offsetMark, isSelectorChar c = true :=
    List.all_eq_true.mp (by decide)
  have selectorEq :
      selector.toList = offsetMark ++ (blanks ++ digit :: tail).takeWhile isSelectorChar := by
    rw [← takeWhile_run_append isWord.inside selectorEnds, equality, List.append_assoc,
      List.takeWhile_append_of_pos markInside]
  have restEq :
      ' ' :: '{' :: rest = (blanks ++ digit :: tail).dropWhile isSelectorChar := by
    rw [← dropWhile_run_append isWord.inside selectorEnds, equality, List.append_assoc,
      List.dropWhile_append_of_pos markInside]
  have digitNotBlank := not_blank_of_isDigit isDigit
  cases blanks with
  | nil =>
      have digitInside : isSelectorChar digit = true := by
        have notBrace : digit ≠ '{' ∧ digit ≠ '}' := by
          constructor <;> rintro rfl <;> revert isDigit <;> decide
        simp [isSelectorChar, digitNotBlank, notBrace]
      refine ⟨digit, tail.takeWhile isSelectorChar, isDigit, ?_⟩
      rw [selectorEq, List.nil_append, List.takeWhile_cons_of_pos digitInside]
  | cons c blanks =>
      -- The blank ends the selector, and a brace is where the digit should be.
      have blank : isBlank c = true := allBlank c (by simp)
      rw [List.cons_append,
        List.dropWhile_cons_of_neg (by simp [isSelectorChar_of_isBlank blank])] at restEq
      have brace : skipBlanks (' ' :: '{' :: rest) = '{' :: rest := by
        rw [← List.singleton_append, skipBlanks_append _ (by decide)]
        exact skipBlanks_of_head (by simpa using by decide)
      have digits : skipBlanks (c :: (blanks ++ digit :: tail)) = digit :: tail := by
        rw [← List.cons_append, skipBlanks_append _ allBlank]
        exact skipBlanks_of_head (by simpa using digitNotBlank)
      rw [restEq, digits] at brace
      obtain rfl : digit = '{' := (List.cons.inj brace).1
      exact absurd isDigit (by decide)

/-- What is written for an offset gives the offset back. -/
theorem offsetForm_offsetSource
    {selector : String} {offset : UInt32}
    (isWord : IsWord isSelectorChar selector)
    (unambiguous : offset = 0 → ¬ ReadsAsOffset selector)
    (width : Nat) (rest : List Char) :
    OffsetForm (selector.toList ++ ' ' :: '{' :: rest)
      (offsetSource offset ++ leadSource width selector) offset := by
  have leadBlank := allBlank_leadSource width selector
  unfold offsetSource
  split
  · next isZero =>
      subst isZero
      refine .absent leadBlank fun begins => ?_
      exact unambiguous rfl (readsAsOffset_of_beginsOffset isWord begins)
  · have form :
        OffsetForm (selector.toList ++ ' ' :: '{' :: rest)
          ([' '] ++ offsetMark ++ [] ++ offset.toNat.repr.toList ++ leadSource width selector)
          (.ofNat (digitsValue offset.toNat.repr.toList)) := by
      refine .present (by decide) allBlank_nil ?_ ?_ ?_ leadBlank ?_
      · rw [Nat.toList_repr]
        exact Nat.toDigits_ne_nil
      · rw [Nat.toList_repr]
        intro c member
        exact Nat.isDigit_of_mem_toDigits (by decide) (by decide) member
      · rw [digitsValue_repr]
        exact offset.toNat_lt_size
      · simp [leadSource]
    rw [digitsValue_repr, UInt32.ofNat_toNat] at form
    simpa using form

/-! ## Messages -/

section Messages

variable {context : Context} {next : Option Char}

/-- A placeholder begins with a syntax character, at which a text in front of it ends. -/
theorem exists_first_of_isPlaceholder
    {node : Node}
    (wellFormed : node.IsWellFormed context)
    (isPlaceholder : node.isPlaceholder = true) :
    ∃ c ∈ (nodeSource context node).head?, context.isSyntax c = true := by
  cases node with
  | text content =>
      cases isPlaceholder
  | number =>
      obtain rfl : context = .counted := wellFormed
      exact ⟨'#', by simp, rfl⟩
  | argument key =>
      exact ⟨'{', by simp, rfl⟩
  | styled key type style =>
      refine ⟨'{', ?_, rfl⟩
      simp [nodeSource, nodeFragments, headFragments]
  | choice key type cases =>
      exact ⟨'{', by simp [headSource], rfl⟩
  | plural key kind offset branches =>
      exact ⟨'{', by simp [headSource], rfl⟩

theorem stops_messageSource
    {message : Message}
    (wellFormed : Message.IsWellFormed context message)
    (beginsWithPlaceholder : ∀ node ∈ message.head?, node.isPlaceholder = true)
    (stops : ∀ c ∈ next, context.isSyntax c = true) :
    ∀ c ∈ (messageSource context message).head?.or next, context.isSyntax c = true := by
  cases message with
  | nil =>
      simpa using stops
  | cons node nodes =>
      obtain ⟨nodeWellFormed, _, _⟩ := wellFormed
      obtain ⟨d, first, isSyntax⟩ :=
        exists_first_of_isPlaceholder nodeWellFormed (beginsWithPlaceholder node rfl)
      simpa [Option.mem_def.mp first] using isSyntax

theorem ne_apostrophe_of_stops
    (stops : ∀ c ∈ next, context.isSyntax c = true) :
    next ≠ some '\'' := by
  intro isApostrophe
  exact ne_apostrophe_of_isSyntax (stops '\'' isApostrophe) rfl

theorem derives_styled
    {key type : String} {style : Option String}
    (wellFormed : (Node.styled key type style).IsWellFormed context) :
    Derives (nodeSource context (.styled key type style))
      (.placeholder (.styled key type style)) := by
  obtain ⟨keyIsWord, typeIsWord, takesStyle, styleNonempty⟩ := wellFormed
  cases style with
  | none =>
      have derived :=
        Derives.unstyled (padded_before keyIsWord) (padded_around typeIsWord) takesStyle
      simpa [headSource] using derived
  | some style =>
      have nonempty : style ≠ "" := by simpa using styleNonempty
      have derived :=
        Derives.styled (padded_before keyIsWord) (padded_before typeIsWord) takesStyle
          (styleForm_quoteStyle style)
      rw [nodeSource_styled nonempty]
      simpa [headSource, nonempty] using derived

/-- What is written for branches is blank in front of the first of them. The blanks in front of
each further one are those behind the one before it. -/
def BranchesDerive (context : Context) (width : Nat) (branches : Branches) : Prop :=
  ∃ blanks rest,
    AllBlank blanks ∧
      branchesSource context width branches ++ ['\n'] = blanks ++ rest ∧
      Derives rest (.branches context branches) ∧
      ∀ branch ∈ branches.head?,
        blanks = leadSource width branch.selector ∧
          ∃ tail, rest = branch.selector.toList ++ ' ' :: '{' :: tail

theorem derives_choice
    {key : String} {cases : Branches}
    (keyIsWord : IsWord isTokenChar key)
    (nonempty : cases ≠ [])
    (nodup : (cases.map Branch.selector).Nodup)
    (derive : BranchesDerive .plain (selectorWidth cases) cases) :
    Derives (nodeSource context (.choice key "select" cases))
      (.placeholder (.choice key "select" cases)) := by
  obtain ⟨blanks, rest, allBlank, sourceEq, derived, _⟩ := derive
  have selectIsWord : IsWord isTokenChar "select" := by decide
  have isPlain : Context.ofType "select" = .plain := by decide
  have placeholder :=
    Derives.choice (padded_before keyIsWord) (padded_before selectIsWord) allBlank derived
      nonempty nodup
  rw [nodeSource_choice, isPlain, sourceEq]
  simpa [headSource] using placeholder

theorem derives_plural
    {key : String} {kind : PluralKind} {offset : UInt32} {branches : Branches}
    (wellFormed : (Node.plural key kind offset branches).IsWellFormed context)
    (unambiguous : offset = 0 → ∀ branch ∈ branches.head?, ¬ ReadsAsOffset branch.selector)
    (derive : BranchesDerive .counted (selectorWidth branches) branches) :
    Derives (nodeSource context (.plural key kind offset branches))
      (.placeholder (.plural key kind offset branches)) := by
  obtain ⟨keyIsWord, nonempty, nodup, branchesWellFormed⟩ := wellFormed
  obtain ⟨blanks, rest, _, sourceEq, derived, first⟩ := derive
  obtain ⟨⟨selector, message⟩, others, rfl⟩ := List.exists_cons_of_ne_nil nonempty
  obtain ⟨rfl, tail, rfl⟩ := first _ rfl
  have isWord : IsWord isSelectorChar selector := branchesWellFormed.1
  have form :=
    offsetForm_offsetSource isWord (fun isZero => unambiguous isZero _ rfl)
      (selectorWidth (⟨selector, message⟩ :: others)) tail
  have placeholder :=
    Derives.plural (padded_before keyIsWord) (padded_before (isWord_typeName kind)) form derived
      nonempty nodup
  rw [nodeSource_plural, sourceEq]
  simpa [headSource] using placeholder

theorem branchesDerive_cons
    {width : Nat} {selector : String} {message : Message} {branches : Branches}
    (isWord : IsWord isSelectorChar selector)
    (messageDerived :
      Derives (messageSource context message) (.message context (some '}') message))
    (derive : BranchesDerive context width branches) :
    BranchesDerive context width (⟨selector, message⟩ :: branches) := by
  obtain ⟨blanks, rest, allBlank, sourceEq, derived, _⟩ := derive
  have blank : AllBlank [' '] := by decide
  have branch := Derives.branch isWord blank messageDerived allBlank derived
  refine ⟨_, _, allBlank_leadSource width selector, ?_, branch, ?_⟩
  · simp [sourceEq]
  · rintro _ ⟨⟩
    exact ⟨rfl, messageSource context message ++ '}' :: (blanks ++ rest), by simp⟩

/-- Whether a node is written in braces. -/
def hasBraces : Node → Bool
  | .text _ | .number => false
  | .argument _ | .styled _ _ _ | .choice _ _ _ | .plural _ _ _ _ => true

/-- Whether a node that is written in braces is derived from what is written for it. -/
def BracesDerive (context : Context) (node : Node) : Prop :=
  hasBraces node = true → Derives (nodeSource context node) (.placeholder node)

/-- A node in front of a derived message makes a longer one, if a text ends where the message
begins. -/
theorem derives_nodeSource_append
    {node : Node} {rest : List Char} {nodes : Message}
    (wellFormed : node.IsWellFormed context)
    (derive : BracesDerive context node)
    (endsText : node.isPlaceholder = true ∨ ∀ c ∈ rest.head?.or next, context.isSyntax c = true)
    (restDerived : Derives rest (.message context next nodes)) :
    Derives (nodeSource context node ++ rest) (.message context next (node :: nodes)) := by
  cases node with
  | text content =>
      have stops := endsText.resolve_left (by simp [Node.isPlaceholder])
      rw [nodeSource_text]
      have row := row_of_pieces context content.toList (ne_apostrophe_of_stops stops)
      exact Derives.text (source_pieces_ne_nil wellFormed) row stops restDerived
  | number =>
      obtain rfl : context = .counted := wellFormed
      simpa using Derives.number restDerived
  | argument key =>
      exact (derive rfl).placeholder restDerived
  | styled key type style =>
      exact (derive rfl).placeholder restDerived
  | choice key type cases =>
      exact (derive rfl).placeholder restDerived
  | plural key kind offset branches =>
      exact (derive rfl).placeholder restDerived

mutual

theorem derive_nodeSource
    (context : Context) (node : Node)
    (wellFormed : node.IsWellFormed context)
    (unambiguous : node.IsUnambiguous) :
    BracesDerive context node := by
  intro inBraces
  match node with
  | .text content =>
      cases inBraces
  | .number =>
      cases inBraces
  | .argument key =>
      rw [nodeSource_argument]
      exact Derives.argument (padded_around wellFormed)
  | .styled key type style =>
      exact derives_styled wellFormed
  | .choice key type cases =>
      obtain ⟨keyIsWord, rfl, nonempty, nodup, casesWellFormed⟩ := wellFormed
      have derive :=
        derive_branchesSource .plain (selectorWidth cases) cases casesWellFormed unambiguous
      exact derives_choice keyIsWord nonempty nodup derive
  | .plural key kind offset branches =>
      have ⟨_, _, _, branchesWellFormed⟩ := wellFormed
      have derive :=
        derive_branchesSource .counted (selectorWidth branches) branches branchesWellFormed
          unambiguous.2
      exact derives_plural wellFormed unambiguous.1 derive

/-- What is written for a message derives it. -/
theorem derives_messageSource
    (context : Context) (next : Option Char) (message : Message)
    (wellFormed : Message.IsWellFormed context message)
    (unambiguous : Message.IsUnambiguous message)
    (stops : ∀ c ∈ next, context.isSyntax c = true) :
    Derives (messageSource context message) (.message context next message) := by
  match message with
  | [] =>
      rw [messageSource_nil]
      exact .empty
  | node :: nodes =>
      obtain ⟨nodeWellFormed, notNeighbours, nodesWellFormed⟩ := wellFormed
      have derive := derive_nodeSource context node nodeWellFormed unambiguous.1
      have restDerived :=
        derives_messageSource context next nodes nodesWellFormed unambiguous.2 stops
      have endsText := notNeighbours.imp_right fun beginsWithPlaceholder =>
        stops_messageSource nodesWellFormed beginsWithPlaceholder stops
      rw [messageSource_cons]
      exact derives_nodeSource_append nodeWellFormed derive endsText restDerived

theorem derive_branchesSource
    (context : Context) (width : Nat) (branches : Branches)
    (wellFormed : branchesWellFormed context branches)
    (unambiguous : branchesUnambiguous branches) :
    BranchesDerive context width branches := by
  match branches with
  | [] =>
      exact ⟨['\n'], [], by decide, by simp, .noBranch, by simp⟩
  | ⟨selector, message⟩ :: branches =>
      obtain ⟨isWord, messageWellFormed, branchesWellFormed⟩ := wellFormed
      have messageDerived :=
        derives_messageSource context (some '}') message messageWellFormed unambiguous.1
          (by simp [Context.isSyntax])
      exact branchesDerive_cons isWord messageDerived
        (derive_branchesSource context width branches branchesWellFormed unambiguous.2)

end

end Messages

end MessagePattern.Layout
