import MessagePattern.Proofs.Layout.RoundTrip

/-!
# What is printed again

A printed message that is parsed and printed as the same text is unambiguous: at the first plural
whose selector was taken for an offset, the text that is printed again differs.
-/

namespace MessagePattern.Layout

open Grammar Pattern

/-- Blanks in front of two texts do not matter to which begins with which. -/
theorem prefix_of_blanks
    {left right text other : List Char}
    (leftBlank : AllBlank left)
    (rightBlank : AllBlank right)
    (textFirst : ∃ c ∈ text.head?, isBlank c = false)
    (otherFirst : ∀ c ∈ other.head?, isBlank c = false)
    (begins : left ++ text <+: right ++ other) :
    text <+: other := by
  obtain ⟨rest, equality⟩ := begins
  have textStops := forall_first (first_append textFirst rest)
  have skipped := congrArg skipBlanks equality
  rw [List.append_assoc, skipBlanks_append _ leftBlank, skipBlanks_append _ rightBlank,
    skipBlanks_of_head textStops, skipBlanks_of_head otherFirst] at skipped
  exact ⟨rest, skipped⟩

section Selectors

variable {selector : String} {rest : List Char}

theorem first_of_isSelector
    (isWord : IsWord isSelectorChar selector) (rest : List Char) :
    ∃ c ∈ (selector.toList ++ rest).head?, isBlank c = false := by
  obtain ⟨c, first, inside⟩ := isWord.exists_first rest
  exact ⟨c, first, not_blank_of_isSelectorChar inside⟩

theorem not_blank_of_mem_head?_selector
    (isWord : IsWord isSelectorChar selector) (rest : List Char) :
    ∀ c ∈ (selector.toList ++ rest).head?, isBlank c = false :=
  forall_first (first_of_isSelector isWord rest)

theorem takeWhile_selector
    (isWord : IsWord isSelectorChar selector) (rest : List Char) :
    (selector.toList ++ ' ' :: rest).takeWhile isSelectorChar = selector.toList :=
  takeWhile_run_append isWord.inside (by simpa using by decide)

theorem eq_of_selector_begins
    {other : String} {otherRest : List Char}
    (isWord : IsWord isSelectorChar selector)
    (otherIsWord : IsWord isSelectorChar other)
    (begins : other.toList ++ ' ' :: otherRest <+: selector.toList ++ ' ' :: rest) :
    other = selector := by
  obtain ⟨more, equality⟩ := begins
  rw [List.append_assoc, List.cons_append] at equality
  have runs := congrArg (List.takeWhile isSelectorChar) equality
  rw [takeWhile_selector isWord, takeWhile_selector otherIsWord] at runs
  exact String.toList_inj.mp runs

end Selectors

section Reading

variable {context : Context} {input tail rest : List Char} {again : Message}

theorem exists_of_readMessage_brace
    (begins : input.head? = some '{')
    (found : readMessage context input = .done again rest) :
    ∃ node middle nodes,
      readPlaceholder input = .done node middle ∧
        readMessage context middle = .done nodes rest ∧
        again = node :: nodes := by
  obtain ⟨body, rfl⟩ := List.head?_eq_some_iff.mp begins
  rcases cases_of_readMessage found with
    ⟨_, _, stops⟩ | ⟨_, node, middle, nodes, equality, nodeFound, nodesFound, rfl⟩ |
      ⟨_, _, _, ⟨c, first, notSyntax⟩, _⟩ | ⟨_, _, _, equality, _⟩
  · exact absurd (stops '{' rfl) (by decide)
  · cases equality
    exact ⟨node, middle, nodes, nodeFound, nodesFound, rfl⟩
  · obtain rfl : '{' = c := by simpa using first
    simp [Context.isSyntax] at notSyntax
  · cases equality

/-- A node that is derived is read, and reading goes on behind it. -/
theorem readMessage_nodeSource
    {node : Node}
    (wellFormed : node.IsWellFormed context)
    (derive : BracesDerive context node)
    (endsText : node.isPlaceholder = true ∨ ∀ c ∈ tail.head?, context.isSyntax c = true) :
    readMessage context (nodeSource context node ++ tail) =
      (readMessage context tail).map (node :: ·) := by
  have ofBraces :
      hasBraces node = true →
        readMessage context (nodeSource context node ++ tail) =
          (readMessage context tail).map (node :: ·) := by
    intro inBraces
    exact readMessage_placeholder ((derive inBraces).isReadFrom tail)
  cases node with
  | text content =>
      have stops := endsText.resolve_left (by simp [Node.isPlaceholder])
      have row := row_of_pieces context content.toList (ne_apostrophe_of_stops stops)
      have startsWithText :=
        first_append (exists_first_of_textRow row (source_pieces_ne_nil wellFormed)) tail
      rw [nodeSource_text, readMessage_text startsWithText (readText_of_row row stops),
        String.ofList_toList]
  | number =>
      obtain rfl : context = .counted := wellFormed
      rw [nodeSource_number, List.singleton_append, readMessage_number]
  | argument key =>
      exact ofBraces rfl
  | styled key type style =>
      exact ofBraces rfl
  | choice key type cases =>
      exact ofBraces rfl
  | plural key kind offset branches =>
      exact ofBraces rfl

theorem readPlaceholder_headSource
    {key type : String}
    (keyIsWord : IsWord isTokenChar key)
    (typeIsWord : IsWord isTokenChar type) (input : List Char) :
    readPlaceholder (headSource key type ++ ',' :: input) =
      (readDetail key type input).andThen readRemainder := by
  have opened :
      readOpening (' ' :: key.toList ++ ',' :: (' ' :: type.toList ++ ',' :: input)) =
        readDetail key type input := by
    rw [readOpening_comma (padded_before keyIsWord), readType_comma (padded_before typeIsWord)]
  simp only [headSource, List.append_assoc, List.cons_append] at opened ⊢
  rw [readPlaceholder, expect_cons, Reading.andThen_done, readPlaceholderBody_eq, opened]

theorem exists_of_readPlaceholder_choice
    {key : String} {node : Node}
    (keyIsWord : IsWord isTokenChar key)
    (found : readPlaceholder (headSource key "select" ++ ',' :: input) = .done node rest) :
    ∃ cases,
      readBranches .plain input = .done cases ('}' :: rest) ∧
        node = .choice key "select" cases := by
  rw [readPlaceholder_headSource keyIsWord (by decide), readDetail_select,
    Reading.andThen_done] at found
  exact exists_of_readRemainder_branches found

theorem exists_of_readPlaceholder_plural
    {key : String} {kind : PluralKind} {node : Node}
    (keyIsWord : IsWord isTokenChar key)
    (found : readPlaceholder (headSource key kind.typeName ++ ',' :: input) = .done node rest) :
    ∃ offset middle branches,
      readOffset (skipBlanks input) = .done offset middle ∧
        readBranches .counted middle = .done branches ('}' :: rest) ∧
        node = .plural key kind offset branches := by
  rw [readPlaceholder_headSource keyIsWord (isWord_typeName kind), readDetail_plural] at found
  obtain ⟨opening, middle, opened, found⟩ := Reading.andThen_eq_done_iff.mp found
  obtain ⟨offset, offsetFound, rfl⟩ := Reading.map_eq_done_iff.mp opened
  obtain ⟨branches, branchesFound, rfl⟩ := exists_of_readRemainder_branches found
  exact ⟨offset, middle, branches, offsetFound, branchesFound, rfl⟩

end Reading

/-! ## Messages that are read again -/

/-- If what is written for a node begins with what is written for the message that is read from
it, the node is unambiguous. -/
def NodeReread (context : Context) (node : Node) : Prop :=
  ∀ ⦃tail rest again⦄,
    readMessage context (nodeSource context node ++ tail) = .done again rest →
    messageSource context again <+: nodeSource context node ++ tail →
    node.IsUnambiguous

def MessageReread (context : Context) (message : Message) : Prop :=
  ∀ ⦃tail rest again⦄,
    (∀ c ∈ tail.head?, c = '}') →
    readMessage context (messageSource context message ++ tail) = .done again rest →
    messageSource context again <+: messageSource context message ++ tail →
    Message.IsUnambiguous message

def BranchesReread (context : Context) (branches : Branches) : Prop :=
  ∀ ⦃width otherWidth seen tail rest again⦄,
    readBranchesAfter context seen
        (skipBlanks (branchesSource context width branches ++ '\n' :: '}' :: tail)) =
      .done again rest →
    branchesSource context otherWidth again <+:
      branchesSource context width branches ++ '\n' :: '}' :: tail →
    branchesUnambiguous branches

section Steps

variable {context : Context}

theorem source_of_branches
    (width : Nat) (selector : String) (message : Message) (branches : Branches)
    (tail : List Char) :
    branchesSource context width (⟨selector, message⟩ :: branches) ++ '\n' :: '}' :: tail =
      leadSource width selector ++
        (selector.toList ++
          ' ' :: '{' :: (messageSource context message ++
            '}' :: (branchesSource context width branches ++ '\n' :: '}' :: tail))) := by
  simp

theorem messageReread_cons
    {node : Node} {nodes : Message}
    (wellFormed : Message.IsWellFormed context (node :: nodes))
    (nodeReread : NodeReread context node)
    (nodesReread : MessageReread context nodes) :
    MessageReread context (node :: nodes) := by
  intro tail rest again stops found begins
  obtain ⟨nodeWellFormed, notNeighbours, nodesWellFormed⟩ := wellFormed
  rw [messageSource_cons, List.append_assoc] at found begins
  have nodeUnambiguous := nodeReread found begins
  have stopsText : ∀ c ∈ tail.head?, context.isSyntax c = true := by
    intro c first
    rw [stops c first]
    simp [Context.isSyntax]
  have endsText := notNeighbours.imp_right fun beginsWithPlaceholder =>
    stops_messageSource nodesWellFormed beginsWithPlaceholder stopsText
  rw [← List.head?_append] at endsText
  -- An unambiguous node is read as itself, so that both texts go on with what follows it.
  have derive := derive_nodeSource context node nodeWellFormed nodeUnambiguous
  rw [readMessage_nodeSource nodeWellFormed derive endsText] at found
  obtain ⟨others, othersFound, rfl⟩ := Reading.map_eq_done_iff.mp found
  rw [messageSource_cons, List.prefix_append_right_inj] at begins
  exact ⟨nodeUnambiguous, nodesReread stops othersFound begins⟩

theorem nodeReread_choice
    {key : String} {cases : Branches}
    (keyIsWord : IsWord isTokenChar key)
    (casesReread : BranchesReread .plain cases) :
    NodeReread context (.choice key "select" cases) := by
  intro tail rest again found begins
  have isPlain : Context.ofType "select" = .plain := by decide
  obtain ⟨node, middle, nodes, nodeFound, _, rfl⟩ :=
    exists_of_readMessage_brace (by simp [headSource]) found
  simp only [nodeSource_choice, isPlain, List.append_assoc, List.cons_append, List.nil_append]
    at nodeFound
  obtain ⟨others, othersFound, rfl⟩ := exists_of_readPlaceholder_choice keyIsWord nodeFound
  simp only [messageSource_cons, nodeSource_choice, isPlain, List.append_assoc, List.cons_append,
    List.nil_append, List.prefix_append_right_inj, List.cons_prefix_cons, true_and] at begins
  exact casesReread othersFound ((List.prefix_append _ _).trans begins)

/-- What is left of a selector that was taken for an offset is too short to be the selector. -/
theorem ne_of_readOffset
    {selector other : String} {input middle body : List Char} {offset : UInt32}
    (isWord : IsWord isSelectorChar selector)
    (readsAsOffset : ReadsAsOffset selector)
    (offsetFound : readOffset (selector.toList ++ ' ' :: '{' :: input) = .done offset middle)
    (otherFound : readSelector (skipBlanks middle) = .done other body) :
    other ≠ selector := by
  rintro rfl
  obtain ⟨digit, digits, isDigit, selectorEq⟩ := readsAsOffset
  have clause :
      offsetDigits? (other.toList ++ ' ' :: '{' :: input) =
        some (digit :: (digits ++ ' ' :: '{' :: input)) :=
    offsetDigits?_eq_some_iff.mpr
      ⟨[], digit, _, allBlank_nil, isDigit, rfl, by simp [selectorEq]⟩
  have middleEq : middle = digits.dropWhile Char.isDigit ++ ' ' :: '{' :: input := by
    rw [readOffset, clause] at offsetFound
    dsimp only at offsetFound
    split at offsetFound
    · cases offsetFound
      rw [List.dropWhile_cons_of_pos isDigit, List.dropWhile_append]
      split
      · next noneLeft =>
          rw [List.isEmpty_iff.mp noneLeft]
          rfl
      · rfl
    · cases offsetFound
  obtain ⟨before, beforeBlank, beforeEq⟩ := exists_blanks_append_skipBlanks middle
  obtain ⟨after, _, afterBlank, afterEq⟩ := exists_of_readSelector otherFound
  have noBrace : '{' ∉ other.toList := fun member =>
    absurd (isWord.inside _ member) (by decide)
  have noBraceLeft : '{' ∉ digits.dropWhile Char.isDigit ++ [' '] := by
    intro member
    refine noBrace ?_
    rw [List.mem_append, List.mem_singleton] at member
    have inDigits := member.resolve_right (by decide)
    simp [selectorEq, (List.dropWhile_sublist _).mem inDigits]
  have noBraceRight : '{' ∉ before ++ other.toList ++ after := by
    intro member
    rw [List.mem_append, List.mem_append] at member
    rcases member with (inBefore | inSelector) | inAfter
    · exact absurd (beforeBlank _ inBefore) (by decide)
    · exact noBrace inSelector
    · exact absurd (afterBlank _ inAfter) (by decide)
  -- Both ways of writing the text have their first brace in the same place.
  have bothEq :
      digits.dropWhile Char.isDigit ++ [' '] ++ '{' :: input =
        before ++ other.toList ++ after ++ '{' :: body := by
    rw [afterEq, middleEq] at beforeEq
    simpa using beforeEq
  have places := congrArg (List.idxOf '{') bothEq
  rw [List.idxOf_append, if_neg noBraceLeft, List.idxOf_cons_self, List.idxOf_append,
    if_neg noBraceRight, List.idxOf_cons_self] at places
  have shorter := (List.dropWhile_sublist Char.isDigit (l := digits)).length_le
  have markLength : offsetMark.length = 7 := by decide
  simp only [selectorEq, List.length_append, List.length_cons, List.length_nil, markLength]
    at places
  omega

/-- If branches are written again as they were, their first selector was not taken for an
offset. -/
theorem not_readsAsOffset_of_reread
    {selector : String} {width otherWidth : Nat} {body middle rest more : List Char}
    {offset : UInt32} {again : Branches}
    (isWord : IsWord isSelectorChar selector)
    (offsetFound : readOffset (selector.toList ++ ' ' :: '{' :: body) = .done offset middle)
    (branchesFound : readBranches context middle = .done again rest)
    (begins :
      offsetSource offset ++ (branchesSource context otherWidth again ++ more) <+:
        leadSource width selector ++ (selector.toList ++ ' ' :: '{' :: body)) :
    ¬ ReadsAsOffset selector := by
  intro readsAsOffset
  rcases cases_of_readBranchesAfter branchesFound with
    ⟨_, _, notFirst, _⟩ | ⟨other, _, message, _, branches, otherFound, _, _, _, rfl⟩
  · exact notFirst rfl
  · obtain ⟨_, otherIsWord, _, _⟩ := exists_of_readSelector otherFound
    have isZero : offset = 0 := by
      by_contra nonzero
      simp [offsetSource, nonzero, leadSource] at begins
    rw [isZero, offsetSource, if_pos rfl, List.nil_append, branchesSource_cons,
      List.append_assoc, List.append_assoc] at begins
    have begins :=
      prefix_of_blanks (allBlank_leadSource _ _) (allBlank_leadSource _ _)
        (first_of_isSelector otherIsWord _) (not_blank_of_mem_head?_selector isWord _) begins
    exact ne_of_readOffset isWord readsAsOffset offsetFound otherFound
      (eq_of_selector_begins isWord otherIsWord begins)

/-- The offset of a plural is read as it was written, up to the first selector. -/
theorem readOffset_offsetSource
    {selector : String} {offset : UInt32}
    (isWord : IsWord isSelectorChar selector)
    (unambiguous : offset = 0 → ¬ ReadsAsOffset selector)
    (width : Nat) (body : List Char) :
    ∃ middle,
      readOffset
          (skipBlanks
            (offsetSource offset ++
              (leadSource width selector ++ (selector.toList ++ ' ' :: '{' :: body)))) =
        .done offset middle ∧
      skipBlanks middle = selector.toList ++ ' ' :: '{' :: body := by
  have form := offsetForm_offsetSource isWord unambiguous width body
  have notBlank := not_blank_of_mem_head?_selector isWord (' ' :: '{' :: body)
  simpa using readOffset_of_form form [] (by simp) (by simpa using notBlank)

theorem nodeReread_plural
    {key : String} {kind : PluralKind} {offset : UInt32} {branches : Branches}
    (wellFormed : (Node.plural key kind offset branches).IsWellFormed context)
    (branchesReread : BranchesReread .counted branches) :
    NodeReread context (.plural key kind offset branches) := by
  intro tail rest again found begins
  obtain ⟨keyIsWord, nonempty, _, branchesWellFormed⟩ := wellFormed
  obtain ⟨⟨selector, message⟩, others, rfl⟩ := List.exists_cons_of_ne_nil nonempty
  have isWord : IsWord isSelectorChar selector := branchesWellFormed.1
  have notBlank := not_blank_of_mem_head?_selector isWord
  obtain ⟨node, _, nodes, nodeFound, _, rfl⟩ :=
    exists_of_readMessage_brace (by simp [headSource]) found
  simp only [nodeSource_plural, List.append_assoc, List.cons_append, List.nil_append]
    at nodeFound
  obtain ⟨otherOffset, middle, otherBranches, offsetFound, branchesFound, rfl⟩ :=
    exists_of_readPlaceholder_plural keyIsWord nodeFound
  simp only [messageSource_cons, nodeSource_plural, List.append_assoc, List.cons_append,
    List.nil_append, List.prefix_append_right_inj, List.cons_prefix_cons, true_and] at begins
  -- Only the offset is settled here; the induction hypothesis does the rest behind it.
  have unambiguous : offset = 0 → ¬ ReadsAsOffset selector := by
    rintro rfl
    rw [source_of_branches] at offsetFound begins
    rw [offsetSource, if_pos rfl, List.nil_append] at offsetFound
    rw [skipBlanks_append _ (allBlank_leadSource _ _), skipBlanks_of_head (notBlank _)]
      at offsetFound
    exact not_readsAsOffset_of_reread isWord offsetFound branchesFound begins
  have branchesFound : readBranchesAfter .counted [] (skipBlanks middle) = _ := branchesFound
  obtain ⟨after, offsetRead, skipped⟩ :=
    readOffset_offsetSource isWord unambiguous (selectorWidth (⟨selector, message⟩ :: others))
      (messageSource .counted message ++
        '}' ::
          (branchesSource .counted (selectorWidth (⟨selector, message⟩ :: others)) others ++
            '\n' :: '}' :: tail))
  rw [source_of_branches, offsetRead] at offsetFound
  cases offsetFound
  rw [skipped, ← skipBlanks_of_head (notBlank _),
    ← skipBlanks_append _ (allBlank_leadSource _ _), ← source_of_branches] at branchesFound
  rw [List.prefix_append_right_inj] at begins
  refine ⟨?_, branchesReread branchesFound ((List.prefix_append _ _).trans begins)⟩
  rintro isZero _ ⟨⟩
  exact unambiguous isZero

theorem branchesReread_cons
    {selector : String} {message : Message} {branches : Branches}
    (isWord : IsWord isSelectorChar selector)
    (wellFormed : Message.IsWellFormed context message)
    (messageReread : MessageReread context message)
    (branchesReread : BranchesReread context branches) :
    BranchesReread context (⟨selector, message⟩ :: branches) := by
  intro width otherWidth seen tail rest again found begins
  rw [source_of_branches] at found begins
  rw [skipBlanks_append _ (allBlank_leadSource width selector),
    skipBlanks_of_head (not_blank_of_mem_head?_selector isWord _)] at found
  rcases cases_of_readBranchesAfter found with
    ⟨_, _, _, closes⟩ |
      ⟨other, body, otherMessage, after, others, otherFound, messageFound, _, othersFound, rfl⟩
  · obtain ⟨c, first, inside⟩ := isWord.exists_first _
    rw [closes] at first
    obtain rfl : '}' = c := by simpa using first
    exact absurd inside (by decide)
  · have blank : AllBlank [' '] := by decide
    have selectorFound :=
      readSelector_of_isWord isWord blank
        (messageSource context message ++
          '}' :: (branchesSource context width branches ++ '\n' :: '}' :: tail))
    rw [List.singleton_append] at selectorFound
    rw [selectorFound] at otherFound
    cases otherFound
    have begins := prefix_of_blanks (allBlank_leadSource _ _) (allBlank_leadSource _ _)
      (first_of_isSelector isWord _) (not_blank_of_mem_head?_selector isWord _)
      (by simpa using begins)
    simp only [List.prefix_append_right_inj, List.cons_prefix_cons, true_and] at begins
    have unambiguous :=
      messageReread (by simp) messageFound ((List.prefix_append _ _).trans begins)
    have derived :=
      derives_messageSource context (some '}') message wellFormed unambiguous
        (by simp [Context.isSyntax])
    rw [derived.isReadFrom _ rfl (by simp)] at messageFound
    cases messageFound
    simp only [List.prefix_append_right_inj, List.cons_prefix_cons, true_and] at begins
    exact ⟨unambiguous, branchesReread othersFound begins⟩

end Steps

mutual

theorem nodeReread
    (context : Context) (node : Node)
    (wellFormed : node.IsWellFormed context) :
    NodeReread context node := by
  match node with
  | .text content =>
      intro _ _ _ _ _
      trivial
  | .argument key =>
      intro _ _ _ _ _
      trivial
  | .number =>
      intro _ _ _ _ _
      trivial
  | .styled key type style =>
      intro _ _ _ _ _
      trivial
  | .choice key type cases =>
      obtain ⟨keyIsWord, rfl, _, _, casesWellFormed⟩ := wellFormed
      exact nodeReread_choice keyIsWord (branchesReread .plain cases casesWellFormed)
  | .plural key kind offset branches =>
      exact nodeReread_plural wellFormed (branchesReread .counted branches wellFormed.2.2.2)

theorem messageReread
    (context : Context) (message : Message)
    (wellFormed : Message.IsWellFormed context message) :
    MessageReread context message := by
  match message with
  | [] =>
      intro _ _ _ _ _ _
      trivial
  | node :: nodes =>
      exact messageReread_cons wellFormed (nodeReread context node wellFormed.1)
        (messageReread context nodes wellFormed.2.2)

theorem branchesReread
    (context : Context) (branches : Branches)
    (wellFormed : branchesWellFormed context branches) :
    BranchesReread context branches := by
  match branches with
  | [] =>
      intro _ _ _ _ _ _ _ _
      trivial
  | ⟨selector, message⟩ :: branches =>
      obtain ⟨isWord, messageWellFormed, branchesWellFormed⟩ := wellFormed
      exact branchesReread_cons isWord messageWellFormed
        (messageReread context message messageWellFormed)
        (branchesReread context branches branchesWellFormed)

end

theorem isUnambiguous_of_reprint
    {message again : Message}
    (wellFormed : Message.IsWellFormed .plain message)
    (parsed : parse (print message) = .ok again)
    (reprinted : print again = print message) :
    Message.IsUnambiguous message := by
  have found := parse_eq_ok_iff.mp parsed
  have sourcesEq := congrArg String.toList reprinted
  rw [toList_print] at found
  rw [toList_print, toList_print] at sourcesEq
  rw [← List.append_nil (messageSource .plain message)] at found
  exact messageReread .plain message wellFormed (by simp) found ⟨[], by rw [sourcesEq]⟩

/-- A well-formed message is printed so that printing what is parsed from it changes nothing
exactly if it is unambiguous. -/
theorem map_print_parse_print_iff
    {message : Message}
    (wellFormed : Message.IsWellFormed .plain message) :
    (parse (print message)).map print = .ok (print message) ↔ Message.IsUnambiguous message := by
  constructor
  · intro stable
    cases parsed : parse (print message) with
    | error error =>
        rw [parsed] at stable
        cases stable
    | ok again =>
        rw [parsed] at stable
        exact isUnambiguous_of_reprint wellFormed parsed (Except.ok.inj stable)
  · intro unambiguous
    rw [parse_of_denotes (denotes_print wellFormed unambiguous)]
    rfl

end MessagePattern.Layout
