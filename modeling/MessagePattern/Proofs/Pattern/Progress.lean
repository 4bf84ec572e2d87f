import MessagePattern.Proofs.Pattern.Rounds

/-!
# Progress of the machine

No program puts text back, and a round after which its loop goes on has read some of the text. For
messages this takes that a character at which no text can begin is one that messages know what to do
with.
-/

namespace MessagePattern.Pattern

/-- Whether less of the text is left at a cursor than was left at an earlier one. -/
def Cursor.IsPast (cursor earlier : Cursor) : Prop :=
  cursor.rest <:+ earlier.rest ∧ cursor.rest.length < earlier.rest.length

theorem Cursor.IsPast.of_suffix
    {cursor earlier last : Cursor}
    (isPast : cursor.IsPast earlier)
    (isEnd : last.rest <:+ cursor.rest) :
    last.IsPast earlier :=
  ⟨isEnd.trans isPast.1, Nat.lt_of_le_of_lt isEnd.length_le isPast.2⟩

namespace Machine

variable {α β σ : Type} {machine : Machine α} {next : α → Machine β} {cursor last : Cursor}

/-- Whether a program succeeds with a value and moves from one cursor to another. -/
def Yields (machine : Machine α) (cursor : Cursor) (value : α) (last : Cursor) : Prop :=
  machine.run.run cursor = some (.ok value, last)

theorem yields_pure_iff {value other : α} :
    Yields (pure value) cursor other last ↔ value = other ∧ cursor = last := by
  simp [Yields]

theorem yields_bind_iff {value : β} :
    Yields (machine >>= next) cursor value last ↔
      ∃ first middle, Yields machine cursor first middle ∧ Yields (next first) middle value last := by
  simp only [Yields, ExceptT.run_bind, StateT.run_bind]
  cases machine.run.run cursor with
  | none =>
      simp
  | some outcome =>
      obtain ⟨result, middle⟩ := outcome
      cases result with
      | ok first =>
          constructor
          · intro found
            exact ⟨first, middle, rfl, found⟩
          · rintro ⟨_, _, equality, found⟩
            cases equality
            exact found
      | error error =>
          simp

theorem yields_peek_iff {first : Option Char} :
    Yields peek cursor first last ↔ cursor.rest.head? = first ∧ cursor = last := by
  change some _ = some _ ↔ _
  simp

/-- Whether a program that succeeds puts no text back, and has read some of the text if its value is
one of a kind. -/
def Reads (Past : α → Prop) (machine : Machine α) : Prop :=
  ∀ cursor value last,
    Yields machine cursor value last →
      last.rest <:+ cursor.rest ∧ (Past value → last.rest.length < cursor.rest.length)

/-- Whether a program that succeeds puts no text back. -/
def ReadsOn (machine : Machine α) : Prop :=
  Reads (fun _ => False) machine

/-- Whether a program that succeeds has read some of the text. -/
def ReadsSome (machine : Machine α) : Prop :=
  Reads (fun _ => True) machine

namespace Reads

variable {Past : α → Prop} {PastNext : β → Prop}

theorem isPast
    {value : α}
    (reads : Reads Past machine)
    (yields : Yields machine cursor value last)
    (past : Past value) :
    last.IsPast cursor :=
  have moves := reads cursor value last yields
  ⟨moves.1, moves.2 past⟩

theorem readsOn
    (reads : Reads Past machine) :
    ReadsOn machine :=
  fun cursor value last yields => ⟨(reads cursor value last yields).1, False.elim⟩

theorem pure
    {value : α}
    (notPast : ¬ Past value) :
    Reads Past (Pure.pure value) := by
  intro cursor other last yields
  obtain ⟨rfl, rfl⟩ := yields_pure_iff.mp yields
  exact ⟨List.suffix_rfl, fun past => absurd past notPast⟩

theorem throw (error : PatternError) :
    Reads Past (throw error) := by
  rintro _ _ _ ⟨⟩

theorem fail (cause : Cause) :
    Reads Past (fail cause) := by
  rintro _ _ _ ⟨⟩

theorem exhausted :
    Reads Past exhausted := by
  rintro _ _ _ ⟨⟩

/-- What is read by either of two programs is read by both after one another. -/
theorem bind
    (reads : Reads Past machine)
    (afterPast : ∀ value, Past value → ReadsOn (next value))
    (afterNotPast : ∀ value, ¬ Past value → Reads PastNext (next value)) :
    Reads PastNext (machine >>= next) := by
  intro cursor value last yields
  obtain ⟨first, middle, firstYields, nextYields⟩ := yields_bind_iff.mp yields
  obtain ⟨firstEnd, firstShorter⟩ := reads _ _ _ firstYields
  by_cases past : Past first
  · have nextEnd := (afterPast first past _ _ _ nextYields).1
    exact ⟨nextEnd.trans firstEnd,
      fun _ => Nat.lt_of_le_of_lt nextEnd.length_le (firstShorter past)⟩
  · obtain ⟨nextEnd, nextShorter⟩ := afterNotPast first past _ _ _ nextYields
    exact ⟨nextEnd.trans firstEnd,
      fun isNext => Nat.lt_of_lt_of_le (nextShorter isNext) firstEnd.length_le⟩

end Reads

theorem ReadsOn.bind
    {PastNext : β → Prop}
    (reads : ReadsOn machine)
    (readsNext : ∀ value, Reads PastNext (next value)) :
    Reads PastNext (machine >>= next) :=
  Reads.bind reads (fun _ past => past.elim) fun value _ => readsNext value

theorem ReadsSome.bind
    {PastNext : β → Prop}
    (reads : ReadsSome machine)
    (readsNext : ∀ value, ReadsOn (next value)) :
    Reads PastNext (machine >>= next) :=
  Reads.bind reads (fun value _ => readsNext value) fun _ notPast => (notPast trivial).elim

section Moves

theorem readsOn_get : ReadsOn get := by
  intro cursor value last yields
  cases yields
  exact ⟨List.suffix_rfl, False.elim⟩

theorem readsOn_peek : ReadsOn peek :=
  readsOn_get.bind fun _ => .pure not_false

theorem readsOn_peekSecond : ReadsOn peekSecond :=
  readsOn_get.bind fun _ => .pure not_false

theorem readsOn_position : ReadsOn position :=
  readsOn_get.bind fun _ => .pure not_false

theorem readsOn_widthWhile (isInside : Char → Bool) : ReadsOn (widthWhile isInside) :=
  readsOn_get.bind fun _ => .pure not_false

theorem exists_of_yields_advance
    {width : Nat} {value : Unit}
    (yields : Yields (advance width) cursor value last) :
    ∃ front, cursor.rest = front ++ last.rest ∧ byteLength front = width := by
  obtain ⟨⟨front, rest⟩, cut, equality⟩ := Option.map_eq_some_iff.mp yields
  cases equality
  exact ⟨front, splitBytes?_eq_some_iff.mp cut⟩

theorem readsOn_advance (width : Nat) : ReadsOn (advance width) := by
  intro cursor value last yields
  obtain ⟨front, restEq, _⟩ := exists_of_yields_advance yields
  exact ⟨⟨front, restEq.symm⟩, False.elim⟩

theorem readsSome_advance
    {width : Nat}
    (positive : 0 < width) :
    ReadsSome (advance width) := by
  intro cursor value last yields
  obtain ⟨front, restEq, widthEq⟩ := exists_of_yields_advance yields
  refine ⟨⟨front, restEq.symm⟩, fun _ => ?_⟩
  cases front with
  | nil =>
      rw [byteLength_nil] at widthEq
      omega
  | cons c front =>
      rw [restEq, List.length_append, List.length_cons]
      omega

theorem readsSome_advanceChar (c : Char) : ReadsSome (advance c.utf8Size) :=
  readsSome_advance c.utf8Size_pos

theorem readsOn_slice (width : Nat) : ReadsOn (slice width) := by
  intro cursor value last yields
  obtain ⟨_, _, equality⟩ := Option.map_eq_some_iff.mp yields
  cases equality
  exact ⟨List.suffix_rfl, False.elim⟩

theorem readsOn_truncate (text : List Char) (width : Nat) : ReadsOn (truncate text width) := by
  intro cursor value last yields
  obtain ⟨_, _, equality⟩ := Option.map_eq_some_iff.mp yields
  cases equality
  exact ⟨List.suffix_rfl, False.elim⟩

theorem readsOn_takeRun (isInside : Char → Bool) : ReadsOn (takeRun isInside) :=
  (readsOn_widthWhile isInside).bind fun width =>
    (readsOn_slice width).bind fun _ => (readsOn_advance width).bind fun _ => .pure not_false

theorem readsOn_skipBlanks : ReadsOn skipBlanks :=
  (readsOn_widthWhile isBlank).bind readsOn_advance

theorem readsSome_require (c : Char) (what : String) : ReadsSome (require c what) := by
  refine readsOn_peek.bind fun first => ?_
  cases first with
  | none =>
      exact .fail _
  | some d =>
      dsimp only
      split
      · exact readsSome_advanceChar d
      · exact .fail _

theorem readsOn_offset : ReadsOn offset := by
  refine readsOn_get.bind fun cursor => ?_
  split
  · exact .pure not_false
  · refine (readsOn_advance _).bind fun _ => readsOn_skipBlanks.bind fun _ =>
      readsOn_position.bind fun _ => (readsOn_widthWhile _).bind fun width =>
        (readsOn_slice width).bind fun digits => ?_
    split
    · exact (readsOn_advance width).bind fun _ => .pure not_false
    · exact .throw _

theorem readsOn_word (missing : Cause) : ReadsOn (word missing) := by
  refine readsOn_skipBlanks.bind fun _ => (readsOn_takeRun _).bind fun word => ?_
  split
  · exact .fail _
  · refine readsOn_skipBlanks.bind fun _ => readsOn_peek.bind fun first => ?_
    cases first with
    | none =>
        exact .fail _
    | some c =>
        dsimp only
        split
        · exact .pure not_false
        · exact .fail _

end Moves

/-! ## Loops -/

/-- Whether a loop goes on after a round. -/
def Round.GoesOn : Round σ α → Prop
  | again _ => True
  | leave _ => False

/-- A loop in a program: it does one round after another, and each round after which it goes on has
read some of the text. -/
structure IsLoop (program : σ → (rounds : Nat) → Machine α)
    (round : σ → (rounds : Nat) → Machine (Round σ α)) : Prop where
  exhausts : ∀ state, program state 0 = exhausted
  unrolls :
    ∀ state rounds,
      program state (rounds + 1) = round state rounds >>= Round.goOn (program · rounds)
  shortens :
    ∀ state rounds cursor after next,
      Yields (round state rounds) cursor (.again after) next → next.IsPast cursor

/-- What a round leaves goes on to be read. -/
theorem Round.readsOn_goOn
    {rounds : σ → Machine α}
    (reads : ∀ state, ReadsOn (rounds state)) (round : Round σ α) :
    ReadsOn (round.goOn rounds) := by
  cases round with
  | again state =>
      exact reads state
  | leave value =>
      exact .pure not_false

theorem IsLoop.readsOn
    {program : σ → (rounds : Nat) → Machine α}
    {round : σ → (rounds : Nat) → Machine (Round σ α)}
    (isLoop : IsLoop program round)
    (reads : ∀ state rounds, Reads Round.GoesOn (round state rounds))
    (state : σ) (rounds : Nat) :
    ReadsOn (program state rounds) := by
  induction rounds generalizing state with
  | zero =>
      rw [isLoop.exhausts]
      exact .exhausted
  | succ rounds inductionHypothesis =>
      rw [isLoop.unrolls]
      exact (reads state rounds).readsOn.bind (Round.readsOn_goOn inductionHypothesis)

section Loops

theorem quotedRound_reads (start : Nat) (text : List Char) :
    Reads Round.GoesOn (quotedRound start text) := by
  refine readsOn_peek.bind fun first => ?_
  cases first with
  | none =>
      exact .throw _
  | some c =>
      dsimp only
      split
      · refine readsOn_peekSecond.bind fun second => ?_
        split
        · exact (readsSome_advance Nat.two_pos).bind fun _ => .pure not_false
        · exact (readsOn_advance 1).bind fun _ => .pure not_false
      · exact (readsSome_advanceChar c).bind fun _ => .pure not_false

theorem quoted_isLoop (start : Nat) :
    IsLoop (quoted start) fun text _ => quotedRound start text where
  exhausts _ := rfl
  unrolls text rounds := quoted_succ rounds start text
  shortens text _ _ _ _ yields := (quotedRound_reads start text).isPast yields trivial

theorem readsOn_quoted (start : Nat) (text : List Char) (rounds : Nat) :
    ReadsOn (quoted start text rounds) :=
  (quoted_isLoop start).readsOn (fun text _ => quotedRound_reads start text) text rounds

variable (context : Context)

theorem readsSome_literalPiece (text : List Char) (rounds : Nat) (c : Char) :
    ReadsSome (literalPiece context text rounds c) := by
  rw [literalPiece]
  split
  · refine readsOn_peekSecond.bind fun second => ?_
    cases second with
    | none =>
        exact (readsSome_advance Nat.one_pos).bind fun _ => .pure not_false
    | some d =>
        dsimp only
        split
        · exact (readsSome_advance Nat.two_pos).bind fun _ => .pure not_false
        · split
          · exact readsOn_position.bind fun start =>
              (readsSome_advance Nat.one_pos).bind fun _ => readsOn_quoted start text rounds
          · exact (readsSome_advance Nat.one_pos).bind fun _ => .pure not_false
  · exact (readsSome_advanceChar c).bind fun _ => .pure not_false

theorem literalRound_reads (text : List Char) (rounds : Nat) :
    Reads Round.GoesOn (literalRound context text rounds) := by
  refine readsOn_peek.bind fun first => ?_
  cases first with
  | none =>
      exact .pure not_false
  | some c =>
      dsimp only
      split
      · exact .pure not_false
      · exact (readsSome_literalPiece context text rounds c).bind fun _ => .pure not_false

theorem literal_isLoop :
    IsLoop (literal context) (literalRound context) where
  exhausts _ := rfl
  unrolls text rounds := literal_succ rounds context text
  shortens text rounds _ _ _ yields := (literalRound_reads context text rounds).isPast yields trivial

theorem readsOn_literal (text : List Char) (rounds : Nat) :
    ReadsOn (literal context text rounds) :=
  (literal_isLoop context).readsOn (literalRound_reads context) text rounds

theorem styleRound_reads (state : List Char × Nat) (rounds : Nat) :
    Reads Round.GoesOn (styleRound state rounds) := by
  refine readsOn_peek.bind fun first => ?_
  cases first with
  | none =>
      exact (readsOn_truncate _ _).bind fun _ => .pure not_false
  | some c =>
      dsimp only
      split
      · exact (readsOn_truncate _ _).bind fun _ => .pure not_false
      · split
        · exact .fail _
        · split
          · refine readsOn_peekSecond.bind fun second => ?_
            split
            · exact (readsSome_advance Nat.two_pos).bind fun _ => .pure not_false
            · exact readsOn_position.bind fun start =>
                (readsSome_advance Nat.one_pos).bind fun _ =>
                  (readsOn_quoted start state.1 rounds).bind fun _ => .pure not_false
          · exact (readsSome_advanceChar c).bind fun _ => .pure not_false

theorem styleFrom_isLoop :
    IsLoop (fun state => styleFrom state.1 state.2) styleRound where
  exhausts _ := rfl
  unrolls state rounds := styleFrom_succ rounds state
  shortens state rounds _ _ _ yields := (styleRound_reads state rounds).isPast yields trivial

theorem readsOn_style (rounds : Nat) : ReadsOn (style rounds) :=
  readsOn_skipBlanks.bind fun _ => styleFrom_isLoop.readsOn styleRound_reads ([], 0) rounds

end Loops

/-! ## Messages, placeholders and branches -/

section Readers

variable {context : Context}

/-- Text is read where none of the syntax characters comes next. -/
theorem isPast_of_yields_literal
    {text read : List Char} {rounds : Nat} {c : Char}
    (first : cursor.rest.head? = some c)
    (notSyntax : ¬ context.isSyntax c = true)
    (yields : Yields (literal context text rounds) cursor read last) :
    last.IsPast cursor := by
  cases rounds with
  | zero =>
      cases yields
  | succ rounds =>
      obtain ⟨round, middle, roundYields, restYields⟩ :=
        yields_bind_iff.mp (literal_succ rounds context text ▸ yields)
      obtain ⟨_, _, peeked, againYields⟩ := yields_bind_iff.mp roundYields
      obtain ⟨rfl, rfl⟩ := yields_peek_iff.mp peeked
      rw [first] at againYields
      dsimp only at againYields
      rw [if_neg notSyntax] at againYields
      obtain ⟨piece, _, pieceYields, pureYields⟩ := yields_bind_iff.mp againYields
      obtain ⟨rfl, rfl⟩ := yields_pure_iff.mp pureYields
      have isPast := (readsSome_literalPiece context text rounds c).isPast pieceYields trivial
      exact isPast.of_suffix (readsOn_literal context piece rounds _ _ _ restYields).1

/-- Each node of a message has something in it: what does not begin a placeholder or a number sign is
text, unless the message ends before it. -/
theorem messageRound_reads
    {nodes : Message} {rounds : Nat}
    (readsPlaceholder : ReadsSome (placeholder rounds)) :
    Reads Round.GoesOn (messageRound context nodes rounds) := by
  intro cursor round last yields
  obtain ⟨_, _, peeked, nodeYields⟩ := yields_bind_iff.mp yields
  obtain ⟨rfl, rfl⟩ := yields_peek_iff.mp peeked
  cases first : cursor.rest.head? with
  | none =>
      rw [first] at nodeYields
      exact Reads.pure not_false _ _ _ nodeYields
  | some c =>
      rw [first] at nodeYields
      dsimp only at nodeYields
      split at nodeYields
      · exact Reads.pure not_false _ _ _ nodeYields
      · next notClosing =>
          split at nodeYields
          · exact (readsPlaceholder.bind fun _ => .pure not_false) _ _ _ nodeYields
          · next notOpening =>
              split at nodeYields
              · exact ((readsSome_advance Nat.one_pos).bind fun _ => .pure not_false) _ _ _ nodeYields
              · next notNumber =>
                  -- All that text stops at is dealt with above, so text does not stop here.
                  have notSyntax : ¬ context.isSyntax c = true := by
                    simpa [Context.isSyntax, notClosing, notOpening, and_comm] using notNumber
                  obtain ⟨text, middle, textYields, pureYields⟩ := yields_bind_iff.mp nodeYields
                  obtain ⟨rfl, rfl⟩ := yields_pure_iff.mp pureYields
                  have isPast := isPast_of_yields_literal first notSyntax textYields
                  exact ⟨isPast.1, fun _ => isPast.2⟩

theorem branchLead_reads (before : Branches) :
    Reads (fun lead => lead.isSome = true) (branchLead before) := by
  refine readsOn_skipBlanks.bind fun _ => readsOn_peek.bind fun first => ?_
  cases first with
  | none =>
      exact .fail _
  | some c =>
      dsimp only
      split
      · split
        · exact .fail _
        · exact .pure (by simp)
      · refine readsOn_position.bind fun start => (readsOn_takeRun _).bind fun selector => ?_
        split
        · exact .fail _
        · exact readsOn_skipBlanks.bind fun _ =>
            (readsSome_require _ _).bind fun _ => .pure not_false

theorem branchesRound_reads
    {before : Branches} {rounds : Nat}
    (readsMessage : ReadsOn (message context [] rounds)) :
    Reads Round.GoesOn (branchesRound context before rounds) := by
  refine (branchLead_reads before).bind (fun lead isSome => ?_) fun lead isNone => ?_
  · obtain ⟨⟨start, selector⟩, rfl⟩ := Option.isSome_iff_exists.mp isSome
    refine readsMessage.bind fun message => (readsSome_require _ _).readsOn.bind fun _ => ?_
    split
    · exact .throw _
    · exact .pure not_false
  · obtain rfl := Option.not_isSome_iff_eq_none.mp isNone
    exact .pure not_false

/-- Whether the programs that call each other put nothing back, and placeholders are not empty. -/
structure ReadersReadOn (rounds : Nat) : Prop where
  ofMessage : ∀ context nodes, ReadsOn (message context nodes rounds)
  ofPlaceholder : ReadsSome (placeholder rounds)
  ofDetail : ∀ key type, ReadsOn (detail key type rounds)
  ofBranches : ∀ context before, ReadsOn (branches context before rounds)

section Steps

variable {rounds : Nat}

theorem readsSome_placeholder_step
    (readsDetail : ∀ key type, ReadsOn (detail key type rounds)) :
    ReadsSome (placeholder (rounds + 1)) := by
  rw [placeholder]
  refine (readsSome_require _ _).bind fun _ => (readsOn_word _).bind fun keyAndNext => ?_
  dsimp only
  split
  · exact (readsOn_advance 1).bind fun _ => .pure not_false
  · refine (readsOn_advance 1).bind fun _ => (readsOn_word _).bind fun typeAndNext => ?_
    split
    · split
      · exact .fail _
      · exact (readsOn_advance 1).bind fun _ => .pure not_false
    · exact (readsOn_advance 1).bind fun _ => (readsDetail _ _).bind fun _ =>
        (readsSome_require _ _).readsOn.bind fun _ => .pure not_false

theorem readsOn_detail_step
    (readsBranches : ∀ context before, ReadsOn (branches context before rounds))
    (key type : String) :
    ReadsOn (detail key type (rounds + 1)) := by
  rw [detail]
  cases PluralKind.ofType? type with
  | some kind =>
      exact readsOn_skipBlanks.bind fun _ => readsOn_offset.bind fun _ =>
        (readsBranches _ _).bind fun _ => .pure not_false
  | none =>
      dsimp only
      split
      · exact (readsBranches _ _).bind fun _ => .pure not_false
      · exact (readsOn_style rounds).bind fun _ => .pure not_false

end Steps

theorem readers_readOn (rounds : Nat) : ReadersReadOn rounds := by
  induction rounds with
  | zero =>
      exact
        { ofMessage := fun _ _ => .exhausted
          ofPlaceholder := .exhausted
          ofDetail := fun _ _ => .exhausted
          ofBranches := fun _ _ => .exhausted }
  | succ rounds inductionHypothesis =>
      refine
        { ofMessage := fun context nodes => ?_
          ofPlaceholder := readsSome_placeholder_step inductionHypothesis.ofDetail
          ofDetail := readsOn_detail_step inductionHypothesis.ofBranches
          ofBranches := fun context before => ?_ }
      · rw [message_succ]
        exact (messageRound_reads inductionHypothesis.ofPlaceholder).readsOn.bind
          (Round.readsOn_goOn (inductionHypothesis.ofMessage context))
      · rw [branches_succ]
        exact (branchesRound_reads (inductionHypothesis.ofMessage context [])).readsOn.bind
          (Round.readsOn_goOn (inductionHypothesis.ofBranches context))

theorem readsSome_opening (rounds : Nat) : ReadsSome (opening rounds) := by
  refine (readsSome_require _ _).bind fun _ => (readsOn_word _).bind fun keyAndNext => ?_
  dsimp only
  split
  · exact (readsOn_advance 1).bind fun _ => .pure not_false
  · refine (readsOn_advance 1).bind fun _ => (readsOn_word _).bind fun typeAndNext => ?_
    split
    · split
      · exact .fail _
      · exact (readsOn_advance 1).bind fun _ => .pure not_false
    · refine (readsOn_advance 1).bind fun _ => ?_
      cases PluralKind.ofType? (.ofList typeAndNext.1) with
      | some kind =>
          exact readsOn_skipBlanks.bind fun _ => readsOn_offset.bind fun _ => .pure not_false
      | none =>
          dsimp only
          split
          · exact .pure not_false
          · exact (readsOn_style rounds).bind fun _ =>
              (readsSome_require _ _).readsOn.bind fun _ => .pure not_false

variable (context)

theorem message_isLoop :
    IsLoop (message context) (messageRound context) where
  exhausts _ := by rw [message]
  unrolls nodes rounds := message_succ rounds context nodes
  shortens _ rounds _ _ _ yields :=
    (messageRound_reads (readers_readOn rounds).ofPlaceholder).isPast yields trivial

theorem branches_isLoop :
    IsLoop (branches context) (branchesRound context) where
  exhausts _ := by rw [branches]
  unrolls before rounds := branches_succ rounds context before
  shortens _ rounds _ _ _ yields :=
    (branchesRound_reads ((readers_readOn rounds).ofMessage context [])).isPast yields trivial

end Readers

end Machine

end MessagePattern.Pattern
