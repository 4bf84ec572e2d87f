import Mathlib.Logic.Relation
import MessagePattern.Proofs.Pattern.Progress
import MessagePattern.Proofs.Pattern.Requests

/-!
# Termination

Each way from a reader back to itself, through the readers that it calls, shortens the text that is
left. So every reader comes to an end with a value or a fault, whatever the text is.
-/

namespace MessagePattern.Pattern

/-- Wherever a cursor stands, there is a content in which it stands there. -/
theorem Cursor.exists_isIn (cursor : Cursor) :
    ∃ content, cursor.IsIn content := by
  have width : byteLength (List.replicate cursor.offset 'a') = cursor.offset := by
    induction cursor.offset with
    | zero =>
        rfl
    | succ offset inductionHypothesis =>
        rw [List.replicate_succ, byteLength_cons, inductionHypothesis, Nat.add_comm]
        rfl
  refine ⟨.ofList (List.replicate cursor.offset 'a' ++ cursor.rest),
    List.replicate cursor.offset 'a', splitBytes?_eq_some_iff.mpr ⟨?_, width⟩⟩
  rw [String.toList_ofList]

namespace Machine

/-! ## Ways between the readers -/

/-- The readers that call each other. -/
inductive Reader where
  | message
  | placeholder
  | branches

/-- Whether a reader at a cursor calls a reader at another, or goes on there itself with its next
round. Calls count whatever was read before, and however many rounds there are. -/
inductive Passes : Reader × Cursor → Reader × Cursor → Prop where
  | nextNode {context : Context} {nodes after : Message} {rounds : Nat} {cursor next : Cursor} :
    Yields (messageRound context nodes rounds) cursor (.again after) next →
      Passes (.message, cursor) (.message, next)
  | placeholder {cursor : Cursor} :
    cursor.rest.head? = some '{' → Passes (.message, cursor) (.placeholder, cursor)
  | branches {opened : Opening} {rounds : Nat} {cursor next : Cursor} :
    Yields (opening rounds) cursor opened next → Passes (.placeholder, cursor) (.branches, next)
  | branchMessage {before : Branches} {lead : Nat × List Char} {cursor next : Cursor} :
    Yields (branchLead before) cursor (some lead) next →
      Passes (.branches, cursor) (.message, next)
  | nextBranch {context : Context} {before after : Branches} {rounds : Nat} {cursor next : Cursor} :
    Yields (branchesRound context before rounds) cursor (.again after) next →
      Passes (.branches, cursor) (.branches, next)

/-- A message counts for more than a placeholder, which it calls without reading anything. -/
def Reader.rank : Reader → Nat
  | message => 1
  | placeholder | branches => 0

/-- What becomes less with each way from one reader to another. -/
def weight (place : Reader × Cursor) : Nat :=
  2 * place.2.rest.length + place.1.rank

theorem weight_lt_of_isPast
    {reader next : Reader} {cursor last : Cursor}
    (isPast : last.IsPast cursor) :
    weight (next, last) < weight (reader, cursor) := by
  have shorter := isPast.2
  cases reader <;> cases next <;> simp only [weight, Reader.rank] <;> omega

/-- Each way from a reader shortens what is left, except that a placeholder begins where its message
has stopped. -/
theorem Passes.isPast_or
    {earlier later : Reader × Cursor}
    (passes : Passes earlier later) :
    later.2.IsPast earlier.2 ∨
      ∃ cursor, earlier = (.message, cursor) ∧ later = (.placeholder, cursor) := by
  cases passes with
  | nextNode yields =>
      exact Or.inl ((message_isLoop _).shortens _ _ _ _ _ yields)
  | placeholder opens =>
      exact Or.inr ⟨_, rfl, rfl⟩
  | branches yields =>
      exact Or.inl ((readsSome_opening _).isPast yields trivial)
  | branchMessage yields =>
      exact Or.inl ((branchLead_reads _).isPast yields rfl)
  | nextBranch yields =>
      exact Or.inl ((branches_isLoop _).shortens _ _ _ _ _ yields)

theorem Passes.weight_lt
    {earlier later : Reader × Cursor}
    (passes : Passes earlier later) :
    weight later < weight earlier := by
  rcases passes.isPast_or with isPast | ⟨cursor, rfl, rfl⟩
  · exact weight_lt_of_isPast isPast
  · exact Nat.lt_succ_self _

theorem Passes.suffix
    {earlier later : Reader × Cursor}
    (passes : Passes earlier later) :
    later.2.rest <:+ earlier.2.rest := by
  rcases passes.isPast_or with isPast | ⟨cursor, rfl, rfl⟩
  · exact isPast.1
  · exact List.suffix_rfl

theorem passes_wellFounded : WellFounded fun later earlier => Passes earlier later :=
  Subrelation.wf Passes.weight_lt (measure weight).wf

/-- However many ways there are from one place to another, no text is put back. -/
theorem weight_lt_of_transGen
    {earlier later : Reader × Cursor}
    (ways : Relation.TransGen Passes earlier later) :
    later.2.rest <:+ earlier.2.rest ∧ weight later < weight earlier := by
  induction ways with
  | single passes =>
      exact ⟨passes.suffix, passes.weight_lt⟩
  | tail _ passes inductionHypothesis =>
      exact ⟨passes.suffix.trans inductionHypothesis.1,
        Nat.lt_trans passes.weight_lt inductionHypothesis.2⟩

/-- A reader that comes back to itself has less text left. -/
theorem isPast_of_transGen
    {reader : Reader} {cursor next : Cursor}
    (ways : Relation.TransGen Passes (reader, cursor) (reader, next)) :
    next.IsPast cursor := by
  obtain ⟨isEnd, lighter⟩ := weight_lt_of_transGen ways
  refine ⟨isEnd, ?_⟩
  simp only [weight] at lighter
  omega

/-! ## Returning -/

/-- Whether a program comes to one result at a cursor as soon as it is given enough rounds. -/
def ReturnsAt {α : Type} (program : (rounds : Nat) → Machine α) (cursor : Cursor) : Prop :=
  ∃ outcome enough, ∀ rounds, enough ≤ rounds → (program rounds).run.run cursor = some outcome

/-- A program runs from where a cursor stands as a reading says. -/
theorem run_of_performs
    {α : Type} {machine : Machine α} {cursor : Cursor} {reading : Reading α}
    (performs :
      Performs (cursor.offset + byteLength cursor.rest) machine cursor.rest reading) :
    machine.run.run cursor =
      some (reading.outcome (cursor.offset + byteLength cursor.rest)) := by
  have before : Cursor.before (cursor.offset + byteLength cursor.rest) cursor.rest = cursor := by
    rw [Cursor.before, Nat.add_sub_cancel]
  have run := performs.2 (Nat.le_add_left _ _)
  rwa [before] at run

namespace ReturnsAt

variable {α β σ : Type} {program : (rounds : Nat) → Machine α}
  {next : (rounds : Nat) → α → Machine β} {cursor : Cursor}

theorem of_add
    (count : Nat)
    (returns : ReturnsAt (fun rounds => program (rounds + count)) cursor) :
    ReturnsAt program cursor := by
  obtain ⟨outcome, enough, run⟩ := returns
  refine ⟨outcome, enough + count, fun rounds isEnough => ?_⟩
  obtain ⟨fewer, rfl⟩ := Nat.exists_eq_add_of_le' (Nat.le_of_add_left_le isEnough)
  exact run fewer (Nat.le_of_add_le_add_right isEnough)

theorem pure (value : α) :
    ReturnsAt (fun _ => Pure.pure value) cursor :=
  ⟨_, 0, fun _ _ => rfl⟩

theorem throw (error : PatternError) :
    ReturnsAt (fun _ => (throw error : Machine α)) cursor :=
  ⟨_, 0, fun _ _ => rfl⟩

theorem fail (cause : Cause) :
    ReturnsAt (fun _ => (fail cause : Machine α)) cursor :=
  ⟨_, 0, fun _ _ => rfl⟩

/-- A program that does what a reading says comes to a result. -/
theorem of_performs
    {reading : Reading α} (enough : Nat)
    (performs : ∀ rounds, enough ≤ rounds →
      Performs (cursor.offset + byteLength cursor.rest) (program rounds) cursor.rest reading) :
    ReturnsAt program cursor :=
  ⟨_, enough, fun rounds isEnough => run_of_performs (performs rounds isEnough)⟩

theorem bind
    (returns : ReturnsAt program cursor)
    (returnsNext : ∀ value last rounds,
      Yields (program rounds) cursor value last → ReturnsAt (next · value) last) :
    ReturnsAt (fun rounds => program rounds >>= next rounds) cursor := by
  obtain ⟨⟨result, middle⟩, enough, run⟩ := returns
  cases result with
  | error error =>
      refine ⟨(.error error, middle), enough, fun rounds isEnough => ?_⟩
      simp only [ExceptT.run_bind, StateT.run_bind, run rounds isEnough]
      rfl
  | ok value =>
      obtain ⟨outcome, enoughNext, runNext⟩ :=
        returnsNext value middle enough (run enough (Nat.le_refl _))
      refine ⟨outcome, max enough enoughNext, fun rounds isEnough => ?_⟩
      obtain ⟨isEnough, isEnoughNext⟩ := Nat.max_le.mp isEnough
      simp only [ExceptT.run_bind, StateT.run_bind, run rounds isEnough]
      exact runNext rounds isEnoughNext

/-- A program that reads a value is followed by what comes next where it stops. -/
theorem step
    {machine : Machine α} {value : α} {input rest : List Char}
    (atInput : cursor.rest = input)
    (performs :
      Performs (cursor.offset + byteLength input) machine input (.done value rest))
    (returnsNext : ∀ last : Cursor, last.rest = rest → ReturnsAt (next · value) last) :
    ReturnsAt (fun rounds => machine >>= next rounds) cursor := by
  subst atInput
  have run := run_of_performs performs
  refine bind ⟨_, 0, fun _ _ => run⟩ fun read last _ yields => ?_
  cases run.symm.trans yields
  exact returnsNext _ rfl

end ReturnsAt

theorem returnsAt_require (c : Char) (what : String) (cursor : Cursor) :
    ReturnsAt (fun _ => require c what) cursor :=
  .of_performs 0 fun _ _ => require_performs c what _

section Loops

variable {α σ : Type} {program : σ → (rounds : Nat) → Machine α}
  {round : σ → (rounds : Nat) → Machine (Round σ α)}

theorem IsLoop.returnsAt_of_round
    {state : σ} {cursor : Cursor}
    (isLoop : IsLoop program round)
    (returns : ReturnsAt (round state) cursor)
    (returnsAfter : ∀ after next rounds,
      Yields (round state rounds) cursor (.again after) next → ReturnsAt (program after) next) :
    ReturnsAt (program state) cursor := by
  refine .of_add 1 ?_
  simp only [isLoop.unrolls]
  refine returns.bind fun outcome last rounds yields => ?_
  cases outcome with
  | again after =>
      exact returnsAfter after last rounds yields
  | leave value =>
      exact .pure value

/-- A loop comes to an end if each of its rounds does. -/
theorem IsLoop.returnsAt
    (isLoop : IsLoop program round)
    (returns : ∀ state cursor, ReturnsAt (round state) cursor)
    (state : σ) (cursor : Cursor) :
    ReturnsAt (program state) cursor := by
  induction length : cursor.rest.length using Nat.strongRecOn generalizing state cursor with
  | ind size inductionHypothesis =>
      refine isLoop.returnsAt_of_round (returns state cursor) fun after next rounds yields => ?_
      have isPast := isLoop.shortens _ _ _ _ _ yields
      exact inductionHypothesis _ (length ▸ isPast.2) after next rfl

theorem quotedRound_returnsAt (start : Nat) (text : List Char) (cursor : Cursor) :
    ReturnsAt (fun _ => quotedRound start text) cursor := by
  refine .step rfl (peek_performs _) fun last atInput => ?_
  cases input : cursor.rest with
  | nil =>
      exact .throw _
  | cons c tail =>
      rw [input] at atInput
      dsimp only [List.head?_cons]
      split
      · next isApostrophe =>
          subst isApostrophe
          refine .step atInput (peekSecond_performs _) fun last atInput => ?_
          dsimp only [List.tail_cons]
          split
          · next isDoubled =>
              obtain ⟨rest, rfl⟩ := List.head?_eq_some_iff.mp isDoubled
              exact .step atInput (advance_performs ['\'', '\''] rest) fun _ _ => .pure _
          · exact .step atInput (advance_performs ['\''] tail) fun _ _ => .pure _
      · exact .step atInput (advanceChar_performs c tail) fun _ _ => .pure _

theorem quoted_returnsAt (start : Nat) (text : List Char) (cursor : Cursor) :
    ReturnsAt (quoted start text) cursor :=
  (quoted_isLoop start).returnsAt (quotedRound_returnsAt start) text cursor

theorem literal_returnsAt (context : Context) (text : List Char) (cursor : Cursor) :
    ReturnsAt (literal context text) cursor :=
  .of_performs (cursor.rest.length + 1) fun _ enough => literal_performs text enough

theorem style_returnsAt (cursor : Cursor) : ReturnsAt style cursor :=
  .of_performs (cursor.rest.length + 1) fun _ enough => style_performs enough

end Loops

section Opening

variable {total rounds : Nat}

/-- The part of a placeholder before its branches does what the reader of openings says. -/
theorem opening_performs
    {input : List Char}
    (enough : input.length ≤ rounds) :
    Performs total (opening rounds) input
      ((expect '{' "an opening brace" input).andThen fun _ rest => readOpening rest) := by
  -- What reads a word is followed by nothing here, unlike within a placeholder.
  have whole : ∀ reading : Reading Opening, reading.andThen .done = reading := by
    intro reading
    cases reading <;> rfl
  refine (require_performs '{' "an opening brace" input).bind fun _ body opening => ?_
  rw [eq_cons_of_expect opening, List.length_cons] at enough
  rw [← whole (readOpening body), readOpening_eq_readWord]
  refine word_bind_performs ?_ ?_
  · intro key rest
    exact .step (advance_performs ['}'] rest) (.pure _)
  · intro key rest shorter
    refine .step (advance_performs [','] rest) ?_
    rw [readType_eq_readWord]
    refine word_bind_performs ?_ ?_
    · intro type last
      dsimp only
      rw [if_pos rfl]
      split
      · exact fail_performs _ _
      · exact .step (advance_performs ['}'] last) (.pure _)
    · intro type last shorterLast
      refine .step (advance_performs [','] last) ?_
      rw [whole, readDetail]
      cases PluralKind.ofType? (.ofList type) with
      | some kind =>
          refine .step (skipBlanks_performs last) ?_
          exact (offset_performs total _).map _
      | none =>
          dsimp only
          split
          · exact .pure _
          · refine (style_performs (by omega)).bind fun style rest _ => ?_
            exact (require_performs '}' "a closing brace" rest).map _

theorem opening_returnsAt (cursor : Cursor) : ReturnsAt opening cursor :=
  .of_performs cursor.rest.length fun _ enough => opening_performs enough

end Opening

theorem branchLead_returnsAt (before : Branches) (cursor : Cursor) :
    ReturnsAt (fun _ => branchLead before) cursor := by
  refine .step rfl (skipBlanks_performs _) fun _ atLead => ?_
  refine .step atLead (peek_performs _) fun _ atLead => ?_
  cases (MessagePattern.skipBlanks cursor.rest).head? with
  | none =>
      exact .fail _
  | some c =>
      dsimp only
      split
      · split
        · exact .fail _
        · exact .pure _
      · refine .step atLead (position_performs _) fun _ atSelector => ?_
        refine .step atSelector (takeRun_performs isSelectorChar _) fun _ afterSelector => ?_
        split
        · exact .fail _
        · exact .step afterSelector (skipBlanks_performs _) fun last _ =>
            (returnsAt_require _ _ last).bind fun _ _ _ _ => .pure _

/-- Whether a reader comes to a result at a cursor, whatever it has read before. -/
def Reader.Returns (cursor : Cursor) : Reader → Prop
  | message => ∀ context nodes, ReturnsAt (Machine.message context nodes) cursor
  | placeholder => ReturnsAt Machine.placeholder cursor
  | branches => ∀ context before, ReturnsAt (Machine.branches context before) cursor

section Steps

variable {cursor : Cursor}

theorem message_returns_step
    (returns : ∀ reader next, Passes (.message, cursor) (reader, next) → reader.Returns next) :
    Reader.message.Returns cursor := by
  intro context nodes
  refine (message_isLoop context).returnsAt_of_round ?_ fun after next rounds yields =>
    returns .message next (.nextNode yields) context after
  refine (ReturnsAt.of_performs 0 fun _ _ => peek_performs _).bind fun first last _ yields => ?_
  obtain ⟨rfl, rfl⟩ := yields_peek_iff.mp yields
  cases first : cursor.rest.head? with
  | none =>
      exact .pure _
  | some c =>
      dsimp only
      split
      · exact .pure _
      · split
        · next isOpening =>
            subst isOpening
            exact (returns .placeholder cursor (.placeholder first)).bind fun _ _ _ _ => .pure _
        · split
          · next isNumber =>
              obtain ⟨rfl, _⟩ := isNumber
              obtain ⟨tail, atNumber⟩ := List.head?_eq_some_iff.mp first
              exact .step atNumber (advance_performs ['#'] tail) fun _ _ => .pure _
          · exact (literal_returnsAt context [] cursor).bind fun _ _ _ _ => .pure _

theorem placeholder_returns_step
    (returns : ∀ reader next, Passes (.placeholder, cursor) (reader, next) → reader.Returns next) :
    Reader.placeholder.Returns cursor := by
  refine .of_add 2 ?_
  simp only [placeholder_succ_succ]
  refine (opening_returnsAt cursor).bind fun opened next rounds yields => ?_
  have branchesReturn := returns .branches next (.branches yields)
  cases opened with
  | closed node =>
      exact .pure node
  | plural key kind offset =>
      exact (branchesReturn .counted []).bind fun _ _ _ _ =>
        (returnsAt_require _ _ _).bind fun _ _ _ _ => .pure _
  | select key =>
      exact (branchesReturn .plain []).bind fun _ _ _ _ =>
        (returnsAt_require _ _ _).bind fun _ _ _ _ => .pure _

theorem branches_returns_step
    (returns : ∀ reader next, Passes (.branches, cursor) (reader, next) → reader.Returns next) :
    Reader.branches.Returns cursor := by
  intro context before
  refine (branches_isLoop context).returnsAt_of_round ?_ fun after next rounds yields =>
    returns .branches next (.nextBranch yields) context after
  refine (branchLead_returnsAt before cursor).bind fun lead next _ yields => ?_
  cases lead with
  | none =>
      exact .pure _
  | some lead =>
      have messageReturns := returns .message next (.branchMessage yields) context []
      refine messageReturns.bind fun message _ _ _ => ?_
      refine (returnsAt_require _ _ _).bind fun _ _ _ _ => ?_
      split
      · exact .throw _
      · exact .pure _

end Steps

theorem readers_return (reader : Reader) (cursor : Cursor) : reader.Returns cursor := by
  -- A reader comes to an end if those it passes to do, so the induction follows the calls.
  have ofPlace : ∀ place : Reader × Cursor, place.1.Returns place.2 := by
    intro place
    induction place using passes_wellFounded.induction with
    | h place inductionHypothesis =>
        obtain ⟨reader, cursor⟩ := place
        have returns :
            ∀ next last, Passes (reader, cursor) (next, last) → next.Returns last :=
          fun next last passes => inductionHypothesis (next, last) passes
        cases reader with
        | message =>
            exact message_returns_step returns
        | placeholder =>
            exact placeholder_returns_step returns
        | branches =>
            exact branches_returns_step returns
  exact ofPlace (reader, cursor)

/-- The machine answers as the readers do, wherever a cursor stands. -/
theorem stepBytes?_eq_some_step (cursor : Cursor) (request : Request) :
    cursor.stepBytes? request = some (cursor.step request) := by
  obtain ⟨content, isIn⟩ := cursor.exists_isIn
  exact (step_serves isIn request).bytewise

/-- Each loop goes on only after a round that has read some text, and a reader comes back to itself
only with less text left. So all of the readers come to an end everywhere, and the machine gives the
answers of the readers. -/
structure ReadersTerminate : Prop where
  quotedLoop : ∀ start, IsLoop (quoted start) fun text _ => quotedRound start text
  literalLoop : ∀ context, IsLoop (literal context) (literalRound context)
  styleLoop : IsLoop (fun state => styleFrom state.1 state.2) styleRound
  messageLoop : ∀ context, IsLoop (message context) (messageRound context)
  branchesLoop : ∀ context, IsLoop (branches context) (branchesRound context)
  placeholderCalls : ∀ rounds, placeholder (rounds + 2) = opening rounds >>= remainder rounds
  cycleShortens :
    ∀ reader cursor next,
      Relation.TransGen Passes (reader, cursor) (reader, next) → next.IsPast cursor
  quotedReturns : ∀ start text cursor, ReturnsAt (quoted start text) cursor
  literalReturns : ∀ context text cursor, ReturnsAt (literal context text) cursor
  styleReturns : ∀ cursor, ReturnsAt style cursor
  readerReturns : ∀ (reader : Reader) cursor, reader.Returns cursor
  answers : ∀ (cursor : Cursor) request, cursor.stepBytes? request = some (cursor.step request)

theorem readers_terminate : ReadersTerminate where
  quotedLoop := quoted_isLoop
  literalLoop := literal_isLoop
  styleLoop := styleFrom_isLoop
  messageLoop := message_isLoop
  branchesLoop := branches_isLoop
  placeholderCalls := placeholder_succ_succ
  cycleShortens := fun _ _ _ => isPast_of_transGen
  quotedReturns := quoted_returnsAt
  literalReturns := literal_returnsAt
  styleReturns := style_returnsAt
  readerReturns := readers_return
  answers := stepBytes?_eq_some_step

/-- In front of a plural that has a branch with a message of its own. -/
def outerStart : Cursor :=
  .start "\x7bn,plural,other\x7ba\x7d\x7d"

/-- In front of the message of the branch. -/
def innerStart : Cursor :=
  ⟨16, ['a', '}', '}']⟩

/-- A message is read in a branch of a plural of another message. -/
theorem readers_terminate_nested :
    Relation.TransGen Passes (.message, outerStart) (.message, innerStart) ∧
      innerStart.IsPast outerStart := by
  have openingYields :
      Yields (opening 0) outerStart (.plural "n" .cardinal 0)
        ⟨10, "other".toList ++ '{' :: innerStart.rest⟩ := by
    with_unfolding_all rfl
  have leadYields :
      Yields (branchLead []) ⟨10, "other".toList ++ '{' :: innerStart.rest⟩
        (some (10, "other".toList)) innerStart := by
    with_unfolding_all rfl
  have ways : Relation.TransGen Passes (.message, outerStart) (.message, innerStart) := by
    apply Relation.TransGen.tail _ (.branchMessage leadYields)
    apply Relation.TransGen.tail _ (.branches openingYields)
    exact .single (.placeholder rfl)
  exact ⟨ways, readers_terminate.cycleShortens _ _ _ ways⟩

end Machine

end MessagePattern.Pattern
