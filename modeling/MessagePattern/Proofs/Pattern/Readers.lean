import MessagePattern.Pattern.Message

/-!
# The readers of messages, placeholders and branches

What one step of each reader does when it succeeds, and induction over all three.
-/

namespace MessagePattern.Pattern

/-- What holds of each reader if it holds of those it calls holds of all three. -/
theorem readers_induction
    {MessageGoal : Context → List Char → Prop}
    {PlaceholderGoal : List Char → Prop}
    {BranchesGoal : Context → List String → List Char → Prop}
    (message :
      ∀ context input,
        (∀ shorter, shorter.length < input.length → PlaceholderGoal shorter) →
        (∀ shorter, shorter.length < input.length → MessageGoal context shorter) →
        MessageGoal context input)
    (placeholder :
      ∀ input,
        (∀ context shorter, shorter.length ≤ input.length → BranchesGoal context [] shorter) →
        PlaceholderGoal input)
    (branches :
      ∀ context seen input,
        (∀ shorter, shorter.length < input.length → MessageGoal context shorter) →
        (∀ selector shorter,
          shorter.length < input.length → BranchesGoal context (selector :: seen) shorter) →
        BranchesGoal context seen input) :
    (∀ context input, MessageGoal context input) ∧
      (∀ input, PlaceholderGoal input) ∧
      ∀ context seen input, BranchesGoal context seen input := by
  have ofSize :
      ∀ size,
        (∀ context input, input.length = size → MessageGoal context input) ∧
          (∀ input, input.length = size → PlaceholderGoal input) ∧
          ∀ context seen input, input.length = size → BranchesGoal context seen input := by
    intro size
    induction size using Nat.strongRecOn with
    | ind size inductionHypothesis =>
        have messageStep :
            ∀ context input, input.length = size → MessageGoal context input := by
          rintro context input rfl
          exact message context input
            (fun shorter isShorter => (inductionHypothesis _ isShorter).2.1 shorter rfl)
            (fun shorter isShorter => (inductionHypothesis _ isShorter).1 context shorter rfl)
        have branchesStep :
            ∀ context seen input, input.length = size → BranchesGoal context seen input := by
          rintro context seen input rfl
          exact branches context seen input
            (fun shorter isShorter => (inductionHypothesis _ isShorter).1 context shorter rfl)
            (fun selector shorter isShorter =>
              (inductionHypothesis _ isShorter).2.2 context (selector :: seen) shorter rfl)
        refine ⟨messageStep, ?_, branchesStep⟩
        rintro input rfl
        refine placeholder input fun context shorter notLonger => ?_
        rcases Nat.lt_or_eq_of_le notLonger with isShorter | sameLength
        · exact (inductionHypothesis _ isShorter).2.2 context [] shorter rfl
        · exact branchesStep context [] shorter sameLength
  exact ⟨fun context input => (ofSize _).1 context input rfl,
    fun input => (ofSize _).2.1 input rfl,
    fun context seen input => (ofSize _).2.2 context seen input rfl⟩

section Message

variable {context : Context} {input rest : List Char}

theorem length_le_of_readMessage
    {message : Message}
    (found : readMessage context input = .done message rest) :
    rest.length ≤ input.length := by
  have shorter := readMessage_rest_length_le context input
  rwa [found] at shorter

theorem length_le_of_readPlaceholderBody
    {node : Node}
    (found : readPlaceholderBody input = .done node rest) :
    rest.length ≤ input.length := by
  have shorter := readPlaceholderBody_rest_length_le input
  rwa [found] at shorter

theorem readMessage_stop
    (stops : ∀ c ∈ input.head?, c = '}') :
    readMessage context input = .done [] input := by
  cases input with
  | nil =>
      exact readMessage_nil context
  | cons c tail =>
      rw [readMessage_cons, if_pos (stops c rfl)]

theorem readMessage_placeholder
    {node : Node}
    (found : readPlaceholder input = .done node rest) :
    readMessage context input = (readMessage context rest).map (node :: ·) := by
  obtain ⟨_, tail, brace, bodyFound⟩ := Reading.andThen_eq_done_iff.mp found
  obtain rfl := eq_cons_of_expect brace
  rw [readMessage_cons, if_neg (by decide), if_pos rfl, bodyFound, Reading.andThen_done]

theorem readMessage_text
    {text : List Char}
    (isText : ∃ c ∈ input.head?, context.isSyntax c = false)
    (found : readText context none input = .done text rest) :
    readMessage context input = (readMessage context rest).map (.text (.ofList text) :: ·) := by
  obtain ⟨c, first, notSyntax⟩ := isText
  obtain ⟨tail, rfl⟩ := List.head?_eq_some_iff.mp first
  obtain ⟨notClosing, notOpening⟩ : c ≠ '}' ∧ c ≠ '{' := by
    constructor <;> rintro rfl <;> simp [Context.isSyntax] at notSyntax
  rw [readMessage_cons, if_neg notClosing, if_neg notOpening, if_pos notSyntax, found,
    Reading.andThen_done]

theorem readMessage_number (tail : List Char) :
    readMessage .counted ('#' :: tail) = (readMessage .counted tail).map (.number :: ·) := by
  rw [readMessage_cons, if_neg (by decide), if_neg (by decide), if_neg (by decide)]

/-- What is read as a message is empty, or begins with a placeholder, a text or a number sign. -/
theorem cases_of_readMessage
    {message : Message}
    (found : readMessage context input = .done message rest) :
    (message = [] ∧ rest = input ∧ ∀ c ∈ input.head?, c = '}') ∨
      (∃ tail node middle nodes,
        input = '{' :: tail ∧
          readPlaceholderBody tail = .done node middle ∧
          readMessage context middle = .done nodes rest ∧
          message = node :: nodes) ∨
      (∃ text middle nodes,
        (∃ c ∈ input.head?, context.isSyntax c = false) ∧
          readText context none input = .done text middle ∧
          readMessage context middle = .done nodes rest ∧
          message = .text (.ofList text) :: nodes) ∨
      ∃ tail nodes,
        context = .counted ∧
          input = '#' :: tail ∧
          readMessage context tail = .done nodes rest ∧
          message = .number :: nodes := by
  cases input with
  | nil =>
      rw [readMessage_nil, Reading.done.injEq] at found
      exact Or.inl ⟨found.1.symm, found.2.symm, by simp⟩
  | cons c tail =>
      rw [readMessage_cons] at found
      split at found
      · next isClosing =>
          rw [Reading.done.injEq] at found
          exact Or.inl ⟨found.1.symm, found.2.symm, by simpa using isClosing⟩
      · next notClosing =>
          right
          split at found
          · next isOpening =>
              subst isOpening
              obtain ⟨node, middle, nodeFound, restFound⟩ :=
                Reading.andThen_eq_done_iff.mp found
              obtain ⟨nodes, nodesFound, rfl⟩ := Reading.map_eq_done_iff.mp restFound
              exact Or.inl ⟨tail, node, middle, nodes, rfl, nodeFound, nodesFound, rfl⟩
          · next notOpening =>
              right
              split at found
              · next isText =>
                  obtain ⟨text, middle, textFound, restFound⟩ :=
                    Reading.andThen_eq_done_iff.mp found
                  obtain ⟨nodes, nodesFound, rfl⟩ := Reading.map_eq_done_iff.mp restFound
                  exact Or.inl
                    ⟨text, middle, nodes, ⟨c, rfl, isText⟩, textFound, nodesFound, rfl⟩
              · next isSyntax =>
                  obtain ⟨nodes, nodesFound, rfl⟩ := Reading.map_eq_done_iff.mp found
                  obtain ⟨rfl, rfl⟩ : context = .counted ∧ c = '#' := by
                    simpa [Context.isSyntax, notClosing, notOpening] using isSyntax
                  exact Or.inr ⟨tail, nodes, rfl, rfl, nodesFound, rfl⟩

end Message

/-- Branches that make a node are read up to its closing brace. -/
theorem exists_of_readRemainder_branches
    {context : Context} {make : Branches → Node} {what : String}
    {input rest : List Char} {node : Node}
    (found :
      ((readBranches context input).andThen fun branches tail =>
        (expect '}' what tail).map fun _ => make branches) = .done node rest) :
    ∃ branches,
      readBranches context input = .done branches ('}' :: rest) ∧ node = make branches := by
  obtain ⟨branches, tail, branchesFound, closed⟩ := Reading.andThen_eq_done_iff.mp found
  obtain ⟨_, closing, rfl⟩ := Reading.map_eq_done_iff.mp closed
  obtain rfl := eq_cons_of_expect closing
  exact ⟨branches, branchesFound, rfl⟩

/-- What is read as a placeholder has an opening, and branches if the opening asks for them. -/
theorem cases_of_readPlaceholderBody
    {input rest : List Char} {node : Node}
    (found : readPlaceholderBody input = .done node rest) :
    readOpening input = .done (.closed node) rest ∨
      (∃ key kind offset middle branches,
        readOpening input = .done (.plural key kind offset) middle ∧
          readBranches .counted middle = .done branches ('}' :: rest) ∧
          node = .plural key kind offset branches) ∨
      ∃ key middle cases,
        readOpening input = .done (.select key) middle ∧
          readBranches .plain middle = .done cases ('}' :: rest) ∧
          node = .choice key "select" cases := by
  rw [readPlaceholderBody_eq] at found
  obtain ⟨opening, middle, opened, remainder⟩ := Reading.andThen_eq_done_iff.mp found
  cases opening with
  | closed closedNode =>
      cases remainder
      exact Or.inl opened
  | plural key kind offset =>
      obtain ⟨branches, branchesFound, rfl⟩ := exists_of_readRemainder_branches remainder
      exact Or.inr (Or.inl ⟨key, kind, offset, middle, branches, opened, branchesFound, rfl⟩)
  | select key =>
      obtain ⟨cases, casesFound, rfl⟩ := exists_of_readRemainder_branches remainder
      exact Or.inr (Or.inr ⟨key, middle, cases, opened, casesFound, rfl⟩)

/-- What is read as branches ends, or begins with a branch that has a selector of its own. -/
theorem cases_of_readBranchesAfter
    {context : Context} {seen : List String} {input rest : List Char} {branches : Branches}
    (found : readBranchesAfter context seen input = .done branches rest) :
    (branches = [] ∧ rest = input ∧ seen ≠ [] ∧ input.head? = some '}') ∨
      ∃ selector body message after others,
        readSelector input = .done selector body ∧
          readMessage context body = .done message ('}' :: after) ∧
          selector ∉ seen ∧
          readBranchesAfter context (selector :: seen) (skipBlanks after) =
            .done others rest ∧
          branches = ⟨selector, message⟩ :: others := by
  cases input with
  | nil =>
      rw [readBranchesAfter_nil] at found
      cases found
  | cons c tail =>
      rw [readBranchesAfter_cons] at found
      split at found
      · next isClosing =>
          subst isClosing
          split at found
          · cases found
          · next notFirst =>
              rw [Reading.done.injEq] at found
              exact Or.inl ⟨found.1.symm, found.2.symm, by simpa using notFirst, rfl⟩
      · right
        obtain ⟨selector, body, selectorFound, found⟩ := Reading.andThen_eq_done_iff.mp found
        obtain ⟨message, closing, messageFound, found⟩ := Reading.andThen_eq_done_iff.mp found
        obtain ⟨_, after, brace, found⟩ := Reading.andThen_eq_done_iff.mp found
        obtain rfl := eq_cons_of_expect brace
        split at found
        · cases found
        · next isNew =>
            obtain ⟨others, othersFound, rfl⟩ := Reading.map_eq_done_iff.mp found
            exact ⟨selector, body, message, after, others, selectorFound, messageFound,
              by simpa using isNew, othersFound, rfl⟩

end MessagePattern.Pattern
