import MessagePattern.Pattern.Opening

/-!
Reading messages, placeholders and branches, which contain each other.

The three readers are defined together as readings that carry the bound on what they leave, which is
why they come to an end; `readMessage`, `readPlaceholder` and `readBranches` forget the bound and
have the equations that later modules use.
-/

namespace MessagePattern.Pattern

mutual

/-- Reads nodes up to the end of the text or a closing brace. -/
def messageWithin (context : Context) (input : List Char) : ReadingOf input Message :=
  match input with
  | [] => ⟨.done [] [], by simp⟩
  | c :: tail =>
    if c = '}' then ⟨.done [] (c :: tail), by simp⟩
    else if c = '{' then
      ((placeholderWithin tail).andThen fun node rest _ =>
        (messageWithin context rest).map (node :: ·)).widen (by simp)
    else if isText : context.isSyntax c = false then
      have shorter := readText_rest_length_lt context c tail isText
      ReadingOf.follow ⟨readText context none (c :: tail), Nat.le_of_lt shorter⟩
        (fun _ _ found => by dsimp only at found; rw [found] at shorter; exact shorter)
        fun text rest _ => (messageWithin context rest).map (.text (.ofList text) :: ·)
    else ((messageWithin context tail).map (.number :: ·)).widen (by simp)
termination_by 3 * input.length
decreasing_by all_goals (simp_all only [List.length_cons]; omega)

/-- Reads a placeholder, whose opening brace has been read, with its closing brace. -/
def placeholderWithin (input : List Char) : ReadingOf input Node :=
  ReadingOf.andThen ⟨readOpening input, readOpening_rest_length_le input⟩
    fun opening rest _ =>
      match opening with
      | .closed node => ⟨.done node rest, Nat.le_refl _⟩
      | .plural key kind offset =>
        have isEnd := skipBlanks_length_le rest
        ((branchesWithin .counted [] (skipBlanks rest)).andThen fun branches rest _ =>
          ⟨(expect '}' "a closing brace" rest).map fun _ => .plural key kind offset branches,
            by simpa using expect_rest_length_le _ _ rest⟩).widen isEnd
      | .select key =>
        have isEnd := skipBlanks_length_le rest
        ((branchesWithin .plain [] (skipBlanks rest)).andThen fun branches rest _ =>
          ⟨(expect '}' "a closing brace" rest).map fun _ => .choice key "select" branches,
            by simpa using expect_rest_length_le _ _ rest⟩).widen isEnd
termination_by 3 * input.length + 2
decreasing_by all_goals omega

/-- Reads branches up to the closing brace of their placeholder, which stays unread, in a text
that does not begin with a blank. The selectors read before are `seen`. -/
def branchesWithin (context : Context) (seen : List String) (input : List Char) :
    ReadingOf input Branches :=
  match input with
  | [] => ⟨.stop .unexpectedEndOfInput [], by simp⟩
  | c :: tail =>
    if c = '}' then
      if seen.isEmpty then ⟨.stop .missingSubmessages (c :: tail), by simp⟩
      else ⟨.done [] (c :: tail), by simp⟩
    else
      ReadingOf.follow ⟨readSelector (c :: tail), readSelector_rest_length_le (c :: tail)⟩
        (fun _ _ found => length_lt_of_readSelector found)
        fun selector rest _ =>
          (messageWithin context rest).andThen fun message rest _ =>
            ReadingOf.andThen ⟨expect '}' "a closing brace" rest, expect_rest_length_le _ _ rest⟩
              fun _ rest _ =>
                have isEnd := skipBlanks_length_le rest
                if seen.contains selector then
                  ⟨.failed (.duplicateSelector selector) (c :: tail) rest, by simp⟩
                else
                  ((branchesWithin context (selector :: seen) (skipBlanks rest)).map
                    (⟨selector, message⟩ :: ·)).widen isEnd
termination_by 3 * input.length + 1
decreasing_by all_goals (simp_all only [List.length_cons]; omega)

end

/-! ## The readers -/

/-- Reads nodes up to the end of the text or a closing brace, which is left unread. -/
def readMessage (context : Context) (input : List Char) : Reading Message :=
  (messageWithin context input).val

/-- Reads a placeholder whose opening brace has been read. -/
def readPlaceholderBody (input : List Char) : Reading Node :=
  (placeholderWithin input).val

/-- Reads a placeholder from its opening to its closing brace. -/
def readPlaceholder (input : List Char) : Reading Node :=
  (expect '{' "an opening brace" input).andThen fun _ rest => readPlaceholderBody rest

/-- Reads further branches after those with the given selectors, in a text that does not begin
with a blank. -/
def readBranchesAfter (context : Context) (seen : List String) (input : List Char) :
    Reading Branches :=
  (branchesWithin context seen input).val

/-- Reads branches up to the closing brace of their placeholder, which is left unread. -/
def readBranches (context : Context) (input : List Char) : Reading Branches :=
  readBranchesAfter context [] (skipBlanks input)

/-! ## Their equations -/

@[simp] theorem readMessage_nil (context : Context) :
    readMessage context [] = .done [] [] := by
  rw [readMessage, messageWithin]

theorem readMessage_cons (context : Context) (c : Char) (tail : List Char) :
    readMessage context (c :: tail) =
      if c = '}' then .done [] (c :: tail)
      else if c = '{' then
        (readPlaceholderBody tail).andThen fun node rest =>
          (readMessage context rest).map (node :: ·)
      else if context.isSyntax c = false then
        (readText context none (c :: tail)).andThen fun text rest =>
          (readMessage context rest).map (.text (.ofList text) :: ·)
      else (readMessage context tail).map (.number :: ·) := by
  rw [readMessage, messageWithin]
  split
  · rfl
  · split
    · rw [ReadingOf.val_widen]
      exact ReadingOf.val_andThen _ _ _ fun _ _ _ => rfl
    · split
      · exact ReadingOf.val_follow _ _ _ _ fun _ _ _ => rfl
      · rfl

/-- How a placeholder goes on after its opening. -/
def readRemainder (opening : Opening) (input : List Char) : Reading Node :=
  match opening with
  | .closed node => .done node input
  | .plural key kind offset =>
    (readBranches .counted input).andThen fun branches rest =>
      (expect '}' "a closing brace" rest).map fun _ => .plural key kind offset branches
  | .select key =>
    (readBranches .plain input).andThen fun branches rest =>
      (expect '}' "a closing brace" rest).map fun _ => .choice key "select" branches

theorem readPlaceholderBody_eq (input : List Char) :
    readPlaceholderBody input = (readOpening input).andThen readRemainder := by
  rw [readPlaceholderBody, placeholderWithin]
  refine ReadingOf.val_andThen _ _ _ fun opening rest _ => ?_
  cases opening with
  | closed node => rfl
  | plural key kind offset =>
      rw [ReadingOf.val_widen]
      exact ReadingOf.val_andThen _ _ _ fun _ _ _ => rfl
  | select key =>
      rw [ReadingOf.val_widen]
      exact ReadingOf.val_andThen _ _ _ fun _ _ _ => rfl

@[simp] theorem readBranchesAfter_nil (context : Context) (seen : List String) :
    readBranchesAfter context seen [] = .stop .unexpectedEndOfInput [] := by
  rw [readBranchesAfter, branchesWithin]

theorem readBranchesAfter_cons
    (context : Context) (seen : List String) (c : Char) (tail : List Char) :
    readBranchesAfter context seen (c :: tail) =
      if c = '}' then
        if seen.isEmpty then .stop .missingSubmessages (c :: tail) else .done [] (c :: tail)
      else
        (readSelector (c :: tail)).andThen fun selector rest =>
          (readMessage context rest).andThen fun message rest =>
            (expect '}' "a closing brace" rest).andThen fun _ rest =>
              if seen.contains selector then
                .failed (.duplicateSelector selector) (c :: tail) rest
              else
                (readBranchesAfter context (selector :: seen) (skipBlanks rest)).map
                  (⟨selector, message⟩ :: ·) := by
  rw [readBranchesAfter, branchesWithin]
  split
  · split <;> rfl
  · refine ReadingOf.val_follow _ _ _ _ fun selector rest _ => ?_
    refine ReadingOf.val_andThen _ _ _ fun message rest _ => ?_
    refine ReadingOf.val_andThen _ _ _ fun _ rest _ => ?_
    dsimp only
    split <;> rfl

theorem readMessage_rest_length_le (context : Context) (input : List Char) :
    (readMessage context input).rest.length ≤ input.length :=
  (messageWithin context input).property

theorem readPlaceholderBody_rest_length_le (input : List Char) :
    (readPlaceholderBody input).rest.length ≤ input.length :=
  (placeholderWithin input).property

/-- Reads a message that is the whole text. -/
def readWhole (input : List Char) : Reading Message :=
  (readMessage .plain input).andThen fun message rest =>
    if rest.isEmpty then .done message rest else .stop .unmatchedClosingBrace rest

end MessagePattern.Pattern
