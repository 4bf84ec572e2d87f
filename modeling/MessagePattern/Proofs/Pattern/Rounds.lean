import MessagePattern.Proofs.Pattern.Machine

/-!
# The machine round by round

What each loop of the machine does in one round, and what the programs that call each other do up to
the call. The loops and programs are put together of these parts.
-/

namespace MessagePattern.Pattern.Machine

/-- What a round of a loop comes to: the loop goes on in some state, or it is left with a value. -/
inductive Round (σ α : Type) where
  | again (state : σ)
  | leave (value : α)

/-- What is done after a round. -/
def Round.goOn {σ α : Type} (rounds : σ → Machine α) : Round σ α → Machine α
  | again state => rounds state
  | leave value => return value

/-- A round of the inside of a quoted part. -/
def quotedRound (start : Nat) (text : List Char) :
    Machine (Round (List Char) (List Char)) := do
  match ← peek with
  | none => throw ⟨.unterminatedQuote, start⟩
  | some c =>
    if c = '\'' then
      if (← peekSecond) = some '\'' then
        advance 2
        return .again (text ++ ['\''])
      else
        advance 1
        return .leave text
    else
      advance c.utf8Size
      return .again (text ++ [c])

/-- Reads a character of literal text, or a quoted part, behind the text read before. -/
def literalPiece (context : Context) (text : List Char) (rounds : Nat) (c : Char) :
    Machine (List Char) := do
  if c = '\'' then
    match ← peekSecond with
    | none =>
      advance 1
      return text ++ ['\'']
    | some d =>
      if d = '\'' then
        advance 2
        return text ++ ['\'']
      else if context.isSyntax d then
        let start ← position
        advance 1
        quoted start text rounds
      else
        advance 1
        return text ++ ['\'']
  else
    advance c.utf8Size
    return text ++ [c]

/-- A round of literal text. -/
def literalRound (context : Context) (text : List Char) (rounds : Nat) :
    Machine (Round (List Char) (List Char)) := do
  match ← peek with
  | none => return .leave text
  | some c =>
    if context.isSyntax c then return .leave text
    else return .again (← literalPiece context text rounds c)

/-- A round of a style, whose state is the style read before and how much of it is kept. -/
def styleRound (state : List Char × Nat) (rounds : Nat) :
    Machine (Round (List Char × Nat) (List Char)) := do
  let (style, significant) := state
  match ← peek with
  | none => return .leave (← truncate style significant)
  | some c =>
    if c = '}' then return .leave (← truncate style significant)
    else if c = '{' then fail (.invalidCharacter c)
    else if c = '\'' then
      if (← peekSecond) = some '\'' then
        advance 2
        return .again (style ++ ['\''], byteLength (style ++ ['\'']))
      else
        let start ← position
        advance 1
        let style ← quoted start style rounds
        return .again (style, byteLength style)
    else
      advance c.utf8Size
      return .again (style ++ [c], if isBlank c then significant else byteLength (style ++ [c]))

/-- A round of a message, which reads one node. -/
def messageRound (context : Context) (nodes : Message) (rounds : Nat) :
    Machine (Round Message Message) := do
  match ← peek with
  | none => return .leave nodes
  | some c =>
    if c = '}' then return .leave nodes
    else if c = '{' then
      return .again (nodes ++ [← placeholder rounds])
    else if c = '#' ∧ context = .counted then
      advance 1
      return .again (nodes ++ [.number])
    else
      let text ← literal context [] rounds
      return .again (nodes ++ [.text (.ofList text)])

/-- Reads up to the message of the next branch, and gives the position of its selector with it. There
is no next branch at a closing brace. -/
def branchLead (before : Branches) : Machine (Option (Nat × List Char)) := do
  skipBlanks
  match ← peek with
  | none => fail .unexpectedEndOfInput
  | some c =>
    if c = '}' then
      if before.isEmpty then fail .missingSubmessages else return none
    else
      let start ← position
      let selector ← takeRun isSelectorChar
      if selector.isEmpty then fail (.expected "a selector")
      else
        skipBlanks
        require '{' "an opening brace"
        return some (start, selector)

/-- A round of branches, which reads one of them. -/
def branchesRound (context : Context) (before : Branches) (rounds : Nat) :
    Machine (Round Branches Branches) := do
  match ← branchLead before with
  | none => return .leave before
  | some (start, selector) =>
    let message ← message context [] rounds
    require '}' "a closing brace"
    if before.any fun branch => branch.selector == .ofList selector then
      throw ⟨.duplicateSelector (.ofList selector), start⟩
    else return .again (before ++ [⟨.ofList selector, message⟩])

/-- Reads a placeholder up to its branches, or all of it if it has none. -/
def opening (rounds : Nat) : Machine Opening := do
  require '{' "an opening brace"
  let (key, next) ← word .emptyKey
  if next = '}' then
    advance 1
    return .closed (.argument (.ofList key))
  else
    advance 1
    let (type, next) ← word (.expected "a placeholder type")
    if next = '}' then
      if (PluralKind.ofType? (.ofList type)).isSome || String.ofList type = "select" then
        fail .missingSubmessages
      else
        advance 1
        return .closed (.styled (.ofList key) (.ofList type) none)
    else
      advance 1
      match PluralKind.ofType? (.ofList type) with
      | some kind =>
        skipBlanks
        return .plural (.ofList key) kind (← offset)
      | none =>
        if String.ofList type = "select" then return .select (.ofList key)
        else
          let style ← style rounds
          require '}' "a closing brace"
          return .closed (.styled (.ofList key) (.ofList type)
            (if style.isEmpty then none else some (.ofList style)))

/-- Reads the branches of a placeholder, if it has any, and its closing brace. -/
def remainder (rounds : Nat) : Opening → Machine Node
  | .closed node => return node
  | .plural key kind offset => do
    let branches ← branches .counted [] rounds
    require '}' "a closing brace"
    return .plural key kind offset branches
  | .select key => do
    let cases ← branches .plain [] rounds
    require '}' "a closing brace"
    return .choice key "select" cases

/-! ## Loops of rounds -/

section Loops

variable (rounds : Nat)

theorem fail_bind {α β : Type} (cause : Cause) (next : α → Machine β) :
    (fail cause >>= next) = fail cause := rfl

theorem quoted_succ (start : Nat) (text : List Char) :
    quoted start text (rounds + 1) =
      quotedRound start text >>= Round.goOn (quoted start · rounds) := by
  rw [quoted, quotedRound, bind_assoc]
  refine bind_congr fun first => ?_
  cases first with
  | none =>
      rfl
  | some c =>
      dsimp only
      split
      · rw [bind_assoc]
        refine bind_congr fun second => ?_
        split <;> simp [Round.goOn]
      · simp [Round.goOn]

theorem literal_succ (context : Context) (text : List Char) :
    literal context text (rounds + 1) =
      literalRound context text rounds >>= Round.goOn (literal context · rounds) := by
  rw [literal, literalRound, bind_assoc]
  refine bind_congr fun first => ?_
  cases first with
  | none =>
      simp [Round.goOn]
  | some c =>
      dsimp only
      split
      · simp [Round.goOn]
      · rw [bind_assoc, literalPiece]
        split
        · rw [bind_assoc]
          refine bind_congr fun second => ?_
          cases second with
          | none =>
              simp [Round.goOn]
          | some d =>
              dsimp only
              split
              · simp [Round.goOn]
              · split <;> simp [Round.goOn]
        · simp [Round.goOn]

theorem styleFrom_succ (state : List Char × Nat) :
    styleFrom state.1 state.2 (rounds + 1) =
      styleRound state rounds >>= Round.goOn fun state => styleFrom state.1 state.2 rounds := by
  rw [styleFrom, styleRound, bind_assoc]
  refine bind_congr fun first => ?_
  cases first with
  | none =>
      simp [Round.goOn]
  | some c =>
      dsimp only
      split
      · simp [Round.goOn]
      · split
        · rw [fail_bind]
        · split
          · rw [bind_assoc]
            refine bind_congr fun second => ?_
            split <;> simp [Round.goOn]
          · simp [Round.goOn]

theorem message_succ (context : Context) (nodes : Message) :
    message context nodes (rounds + 1) =
      messageRound context nodes rounds >>= Round.goOn (message context · rounds) := by
  rw [message, messageRound, bind_assoc]
  refine bind_congr fun first => ?_
  cases first with
  | none =>
      simp [Round.goOn]
  | some c =>
      dsimp only
      split
      · simp [Round.goOn]
      · split
        · simp [Round.goOn]
        · split <;> simp [Round.goOn]

theorem branches_succ (context : Context) (before : Branches) :
    branches context before (rounds + 1) =
      branchesRound context before rounds >>= Round.goOn (branches context · rounds) := by
  rw [branches, branchesRound, branchLead]
  simp only [bind_assoc]
  refine bind_congr fun _ => bind_congr fun first => ?_
  cases first with
  | none =>
      rfl
  | some c =>
      dsimp only
      split
      · split
        · rfl
        · simp [Round.goOn]
      · simp only [bind_assoc]
        refine bind_congr fun start => bind_congr fun selector => ?_
        split
        · rfl
        · simp only [bind_assoc, pure_bind]
          refine bind_congr fun _ => bind_congr fun _ => bind_congr fun message =>
            bind_congr fun _ => ?_
          split
          · rfl
          · simp [Round.goOn]

theorem placeholder_succ_succ :
    placeholder (rounds + 2) = opening rounds >>= remainder rounds := by
  rw [placeholder, opening, bind_assoc]
  refine bind_congr fun _ => ?_
  rw [bind_assoc]
  refine bind_congr fun (key, next) => ?_
  dsimp only
  split
  · simp [remainder]
  · simp only [bind_assoc]
    refine bind_congr fun _ => bind_congr fun (type, next) => ?_
    dsimp only
    split
    · split
      · rfl
      · simp [remainder]
    · rw [bind_assoc, detail]
      refine bind_congr fun _ => ?_
      cases PluralKind.ofType? (String.ofList type) with
      | some kind =>
          simp [remainder]
      | none =>
          dsimp only
          split
          · next isSelect =>
              simp [remainder, isSelect]
          · simp [remainder]

end Loops

end MessagePattern.Pattern.Machine
