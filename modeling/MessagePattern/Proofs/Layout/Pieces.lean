import MessagePattern.Proofs.Layout.Text

/-!
# The pieces of a text

What the pieces of a text look like and which of them can be neighbours, and that there is no other
way to cut a text into such pieces.
-/

namespace MessagePattern.Layout

open Pattern

namespace Piece

/-- Whether a plain piece is text alone, and a quoted one a run. -/
def IsShaped (context : Context) : Piece → Prop
  | plain chars => chars ≠ [] ∧ ∀ c ∈ chars, context.isSyntax c = false
  | quoted run =>
    (∃ c ∈ run.head?, context.isSyntax c = true) ∧
      (∃ c ∈ run.getLast?, context.isSyntax c = true) ∧
        ∀ c ∈ run, context.isSyntax c = true ∨ c = '\''

end Piece

section Pieces

variable {context : Context} {c : Char} {pieces : List Piece}

theorem isShaped_quoted_append
    {front run : List Char}
    (isSyntax : context.isSyntax c = true)
    (onlyApostrophes : ∀ d ∈ front, d = '\'')
    (isShaped : (Piece.quoted run).IsShaped context) :
    (Piece.quoted (c :: front ++ run)).IsShaped context := by
  obtain ⟨_, ⟨last, isLast, lastIsSyntax⟩, inside⟩ := isShaped
  refine ⟨⟨c, rfl, isSyntax⟩, ⟨last, ?_, lastIsSyntax⟩, ?_⟩
  · rw [List.getLast?_append, Option.mem_def.mp isLast]
    rfl
  · intro d member
    rcases List.mem_append.mp member with inFront | inRun
    · rcases List.mem_cons.mp inFront with rfl | inFront
      · exact Or.inl isSyntax
      · exact Or.inr (onlyApostrophes d inFront)
    · exact inside d inRun

theorem isShaped_quoted_singleton
    (isSyntax : context.isSyntax c = true) :
    (Piece.quoted [c]).IsShaped context :=
  ⟨⟨c, rfl, isSyntax⟩, ⟨c, rfl, isSyntax⟩, by simp [isSyntax]⟩

theorem isShaped_consSyntaxChar
    (isSyntax : context.isSyntax c = true)
    (shaped : ∀ piece ∈ pieces, piece.IsShaped context) :
    ∀ piece ∈ consSyntaxChar c pieces, piece.IsShaped context := by
  unfold consSyntaxChar
  split
  · obtain ⟨isShaped, restShaped⟩ := List.forall_mem_cons.mp shaped
    have extended := isShaped_quoted_append isSyntax (List.forall_mem_nil (· = '\'')) isShaped
    exact List.forall_mem_cons.mpr ⟨extended, restShaped⟩
  · obtain ⟨_, restShaped⟩ := List.forall_mem_cons.mp shaped
    split
    · next onlyApostrophes =>
        obtain ⟨isShaped, restShaped⟩ := List.forall_mem_cons.mp restShaped
        have joined := isShaped_quoted_append isSyntax (by simpa using onlyApostrophes) isShaped
        exact List.forall_mem_cons.mpr ⟨joined, restShaped⟩
    · exact List.forall_mem_cons.mpr ⟨isShaped_quoted_singleton isSyntax, shaped⟩
  · exact List.forall_mem_cons.mpr ⟨isShaped_quoted_singleton isSyntax, shaped⟩

theorem isShaped_consPlainChar
    (notSyntax : context.isSyntax c = false)
    (shaped : ∀ piece ∈ pieces, piece.IsShaped context) :
    ∀ piece ∈ consPlainChar c pieces, piece.IsShaped context := by
  unfold consPlainChar
  split
  · obtain ⟨⟨_, charsPlain⟩, restShaped⟩ := List.forall_mem_cons.mp shaped
    refine List.forall_mem_cons.mpr ⟨⟨by simp, ?_⟩, restShaped⟩
    exact List.forall_mem_cons.mpr ⟨notSyntax, charsPlain⟩
  · exact List.forall_mem_cons.mpr ⟨⟨by simp, by simpa using notSyntax⟩, shaped⟩

end Pieces

theorem isShaped_pieces (context : Context) (text : List Char) :
    ∀ piece ∈ pieces context text, piece.IsShaped context := by
  induction text with
  | nil =>
      exact List.forall_mem_nil _
  | cons c text inductionHypothesis =>
      rw [pieces]
      split
      · next isSyntax =>
          exact isShaped_consSyntaxChar isSyntax inductionHypothesis
      · next notSyntax =>
          exact isShaped_consPlainChar (by simpa using notSyntax) inductionHypothesis

section Neighbours

variable {context : Context} {pieces : List Piece}

theorem separated_of_append
    (earlier : List Piece) {later : List Piece}
    (separated : Separated context (earlier ++ later)) :
    Separated context later := by
  match earlier with
  | [] =>
      exact separated
  | .plain chars :: earlier =>
      exact separated_of_append earlier separated.2.2
  | .quoted run :: earlier =>
      exact separated_of_append earlier separated.2.2

/-- Plain and quoted pieces take turns, and between two quoted ones there is more than apostrophes. -/
structure TakesTurns (pieces : List Piece) : Prop where
  alternate : ∀ left right, [left, right] <:+: pieces → left.isQuoted ≠ right.isQuoted
  between : ∀ left middle right,
    [left, middle, right] <:+: pieces →
      left.isQuoted = true → right.isQuoted = true → ∃ c ∈ middle.chars, c ≠ '\''

theorem TakesTurns.of_cons
    {piece : Piece}
    (takesTurns : TakesTurns (piece :: pieces)) :
    TakesTurns pieces where
  alternate left right isPart := takesTurns.alternate left right (List.infix_cons isPart)
  between left middle right isPart :=
    takesTurns.between left middle right (List.infix_cons isPart)

theorem takesTurns_of_separated
    (separated : Separated context pieces) :
    TakesTurns pieces where
  alternate := by
    rintro left right ⟨earlier, later, rfl⟩
    rw [List.append_assoc] at separated
    have separated := separated_of_append earlier separated
    cases left with
    | plain chars =>
        have rightQuoted : right.isQuoted = true := separated.2.1 right rfl
        rw [rightQuoted]
        exact Bool.false_ne_true
    | quoted run =>
        cases right with
        | plain chars =>
            exact Bool.false_ne_true.symm
        | quoted other =>
            exact absurd separated.2.1 id
  between := by
    rintro left middle right ⟨earlier, later, rfl⟩ leftQuoted rightQuoted
    rw [List.append_assoc] at separated
    have separated := separated_of_append earlier separated
    match left, middle, leftQuoted with
    | .quoted run, .plain chars, _ =>
        exact separated.2.1.resolve_left (List.cons_ne_nil _ _)
    | .quoted run, .quoted other, _ =>
        exact absurd separated.2.1 id

theorem separated_of_takesTurns
    (pieces : List Piece)
    (shaped : ∀ piece ∈ pieces, piece.IsShaped context)
    (takesTurns : TakesTurns pieces) :
    Separated context pieces := by
  match pieces with
  | [] =>
      trivial
  | .plain chars :: pieces =>
      obtain ⟨⟨_, charsPlain⟩, restShaped⟩ := List.forall_mem_cons.mp shaped
      refine ⟨charsPlain, ?_, separated_of_takesTurns pieces restShaped takesTurns.of_cons⟩
      intro next isNext
      obtain ⟨rest, rfl⟩ := List.head?_eq_some_iff.mp isNext
      have different := takesTurns.alternate (.plain chars) next ⟨[], rest, rfl⟩
      exact Bool.ne_false_iff.mp different.symm
  | .quoted run :: pieces =>
      obtain ⟨⟨beginsWithSyntax, _⟩, restShaped⟩ := List.forall_mem_cons.mp shaped
      refine ⟨beginsWithSyntax, ?_, separated_of_takesTurns pieces restShaped takesTurns.of_cons⟩
      match pieces with
      | [] =>
          trivial
      | [.plain chars] =>
          exact Or.inl rfl
      | .plain chars :: next :: rest =>
          have different :=
            takesTurns.alternate (.plain chars) next ⟨[.quoted run], rest, rfl⟩
          have nextQuoted : next.isQuoted = true := Bool.ne_false_iff.mp different.symm
          exact Or.inr
            (takesTurns.between (.quoted run) (.plain chars) next ⟨[], rest, rfl⟩ rfl nextQuoted)
      | .quoted other :: rest =>
          exact absurd rfl (takesTurns.alternate (.quoted run) (.quoted other) ⟨[], rest, rfl⟩)

end Neighbours

/-! ## No other pieces -/

section Unique

variable {context : Context} {text : List Char} {parts : List Piece}

theorem consPlainChar_of_endsPlain
    (c : Char)
    (endsPlain : ∀ next ∈ parts.head?, next.isQuoted = true) :
    consPlainChar c parts = .plain [c] :: parts := by
  match parts, endsPlain with
  | [], _ | .quoted run :: rest, _ =>
      rfl
  | .plain others :: rest, endsPlain =>
      cases endsPlain (.plain others) rfl

theorem pieces_plain_append
    {chars : List Char}
    (nonempty : chars ≠ [])
    (charsPlain : ∀ c ∈ chars, context.isSyntax c = false)
    (restEq : pieces context text = parts)
    (endsPlain : ∀ next ∈ parts.head?, next.isQuoted = true) :
    pieces context (chars ++ text) = .plain chars :: parts := by
  induction chars with
  | nil =>
      exact absurd rfl nonempty
  | cons c chars inductionHypothesis =>
      obtain ⟨notSyntax, charsPlain⟩ := List.forall_mem_cons.mp charsPlain
      rw [List.cons_append, pieces, if_neg (by simp [notSyntax])]
      by_cases isLast : chars = []
      · rw [isLast, List.nil_append, restEq]
        exact consPlainChar_of_endsPlain c endsPlain
      · rw [inductionHypothesis isLast charsPlain]
        rfl

theorem consSyntaxChar_of_endsRun
    (c : Char)
    (endsRun : EndsRun parts) :
    consSyntaxChar c parts = .quoted [c] :: parts := by
  match parts, endsRun with
  | [], _ | [.plain chars], _ | .plain chars :: .plain others :: rest, _ =>
      rfl
  | .plain chars :: .quoted run :: rest, endsRun =>
      have notOnlyApostrophes : ¬ chars.all (· == '\'') = true := by
        simpa using endsRun.resolve_left (List.cons_ne_nil _ _)
      rw [consSyntaxChar, if_neg notOnlyApostrophes]

/-- Behind its first character a longer run goes on with apostrophes in front of a shorter run. -/
theorem exists_run_of_tail
    {c : Char} {tail : List Char}
    (isShaped : (Piece.quoted (c :: tail)).IsShaped context)
    (nonempty : tail ≠ []) :
    ∃ marks run,
      tail = marks ++ run ∧
        (∀ d ∈ marks, d = '\'') ∧ (Piece.quoted run).IsShaped context := by
  obtain ⟨_, ⟨last, isLast, lastIsSyntax⟩, inside⟩ := isShaped
  have inTail : last ∈ tail.getLast? := by
    obtain ⟨d, rest, rfl⟩ := List.exists_cons_of_ne_nil nonempty
    rwa [List.getLast?_cons_cons] at isLast
  obtain ⟨marks, run, rfl, onlyApostrophes, runStops⟩ := exists_apostrophes_append tail
  -- The run ends with a syntax character, so there is more to it than these apostrophes.
  have runNonempty : run ≠ [] := by
    rintro rfl
    rw [List.append_nil] at inTail
    have isApostrophe := onlyApostrophes last (List.mem_of_mem_getLast? inTail)
    exact ne_apostrophe_of_isSyntax lastIsSyntax isApostrophe
  obtain ⟨d, rest, rfl⟩ := List.exists_cons_of_ne_nil runNonempty
  have runInside : ∀ e ∈ d :: rest, context.isSyntax e = true ∨ e = '\'' := fun e member =>
    inside e (List.mem_cons_of_mem _ (List.mem_append_right _ member))
  refine ⟨marks, d :: rest, rfl, onlyApostrophes, ⟨d, rfl, ?_⟩, ⟨last, ?_, lastIsSyntax⟩,
    runInside⟩
  · exact (runInside d List.mem_cons_self).resolve_right (runStops d rfl)
  · rw [List.getLast?_append, List.getLast?_cons] at inTail
    rw [List.getLast?_cons]
    exact inTail

/-- A run is put together from its end: the apostrophes between two of its syntax characters are a
plain piece until the first of the two is put in front of them. -/
theorem pieces_run_append
    (run : List Char)
    (isShaped : (Piece.quoted run).IsShaped context)
    (restEq : pieces context text = parts)
    (endsRun : EndsRun parts) :
    pieces context (run ++ text) = .quoted run :: parts := by
  match run with
  | [] =>
      obtain ⟨⟨_, first, _⟩, _⟩ := isShaped
      cases first
  | c :: tail =>
      have isSyntax : context.isSyntax c = true := forall_first isShaped.1 c rfl
      rw [List.cons_append, pieces, if_pos isSyntax]
      by_cases tailEmpty : tail = []
      · rw [tailEmpty, List.nil_append, restEq]
        exact consSyntaxChar_of_endsRun c endsRun
      · obtain ⟨marks, others, tailEq, onlyApostrophes, othersShaped⟩ :=
          exists_run_of_tail isShaped tailEmpty
        have shorter : others.length < (c :: tail).length := by
          rw [tailEq, List.length_cons, List.length_append]
          omega
        have othersEq := pieces_run_append others othersShaped restEq endsRun
        rw [tailEq, List.append_assoc]
        by_cases marksEmpty : marks = []
        · rw [marksEmpty, List.nil_append, othersEq]
          rfl
        · have marksPlain : ∀ d ∈ marks, context.isSyntax d = false := by
            intro d member
            rw [onlyApostrophes d member]
            exact isSyntax_apostrophe context
          rw [pieces_plain_append marksEmpty marksPlain othersEq (by simp [Piece.isQuoted]),
            consSyntaxChar, if_pos (by simpa using onlyApostrophes)]
          rfl
termination_by run.length

theorem pieces_flatMap_chars
    (parts : List Piece)
    (shaped : ∀ part ∈ parts, part.IsShaped context)
    (separated : Separated context parts) :
    pieces context (parts.flatMap Piece.chars) = parts := by
  match parts, separated with
  | [], _ =>
      rfl
  | .plain chars :: parts, ⟨_, endsPlain, restSeparated⟩ =>
      obtain ⟨⟨nonempty, charsPlain⟩, restShaped⟩ := List.forall_mem_cons.mp shaped
      have restEq := pieces_flatMap_chars parts restShaped restSeparated
      exact pieces_plain_append nonempty charsPlain restEq endsPlain
  | .quoted run :: parts, ⟨_, endsRun, restSeparated⟩ =>
      obtain ⟨isShaped, restShaped⟩ := List.forall_mem_cons.mp shaped
      have restEq := pieces_flatMap_chars parts restShaped restSeparated
      exact pieces_run_append run isShaped restEq endsRun

end Unique

/-- The pieces of a text are the shaped ones that take turns and make up the text. -/
theorem pieces_eq_iff
    {context : Context} {text : List Char} {parts : List Piece} :
    pieces context text = parts ↔
      (∀ part ∈ parts, part.IsShaped context) ∧
        TakesTurns parts ∧
        parts.flatMap Piece.chars = text := by
  constructor
  · rintro rfl
    exact ⟨isShaped_pieces context text, takesTurns_of_separated (separated_pieces context text),
      chars_pieces context text⟩
  · rintro ⟨shaped, takesTurns, rfl⟩
    exact pieces_flatMap_chars parts shaped (separated_of_takesTurns parts shaped takesTurns)

end MessagePattern.Layout
