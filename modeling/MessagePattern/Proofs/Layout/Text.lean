import MessagePattern.Proofs.Grammar.Opening
import MessagePattern.Proofs.Layout.Source

/-!
# Written text and written styles

What quoting writes for a text or a style is a row of parts that stands for it.
-/

namespace MessagePattern.Layout

open Grammar

def Piece.isQuoted : Piece → Bool
  | plain _ => false
  | quoted _ => true

/-- Whether a quoted run can end in front of the pieces: its closing apostrophe must not meet
another run, nor apostrophes that go on to one. -/
def EndsRun : List Piece → Prop
  | [] => True
  | .plain chars :: pieces => pieces = [] ∨ ∃ c ∈ chars, c ≠ '\''
  | .quoted _ :: _ => False

/-- Whether quoted runs begin with a syntax character and plain pieces have none, and each piece
ends where the next one begins. -/
def Separated (context : Context) : List Piece → Prop
  | [] => True
  | .plain chars :: pieces =>
    (∀ c ∈ chars, context.isSyntax c = false) ∧
      (∀ next ∈ pieces.head?, next.isQuoted = true) ∧ Separated context pieces
  | .quoted run :: pieces =>
    (∃ c ∈ run.head?, context.isSyntax c = true) ∧ EndsRun pieces ∧ Separated context pieces

section Pieces

variable {context : Context} {c : Char} {pieces : List Piece}

theorem separated_consSyntaxChar
    (isSyntax : context.isSyntax c = true)
    (separated : Separated context pieces) :
    Separated context (consSyntaxChar c pieces) := by
  unfold consSyntaxChar
  split
  · obtain ⟨_, endsRun, restSeparated⟩ := separated
    exact ⟨⟨c, rfl, isSyntax⟩, endsRun, restSeparated⟩
  · next chars run rest =>
      have ⟨_, _, _, endsRun, restSeparated⟩ := separated
      split
      · exact ⟨⟨c, rfl, isSyntax⟩, endsRun, restSeparated⟩
      · next notOnlyApostrophes =>
          refine ⟨⟨c, rfl, isSyntax⟩, Or.inr ?_, separated⟩
          simpa using notOnlyApostrophes
  · next notQuoted notPlainQuoted =>
      refine ⟨⟨c, rfl, isSyntax⟩, ?_, separated⟩
      match pieces, separated with
      | [], _ =>
          trivial
      | [.plain chars], _ =>
          exact Or.inl rfl
      | .plain chars :: .plain others :: rest, separated =>
          cases separated.2.1 (.plain others) rfl
      | .plain chars :: .quoted run :: rest, _ =>
          exact absurd rfl (notPlainQuoted chars run rest)
      | .quoted run :: rest, _ =>
          exact absurd rfl (notQuoted run rest)

theorem separated_consPlainChar
    (notSyntax : context.isSyntax c = false)
    (separated : Separated context pieces) :
    Separated context (consPlainChar c pieces) := by
  unfold consPlainChar
  split
  · obtain ⟨charsPlain, endsPlain, restSeparated⟩ := separated
    exact ⟨by simpa [notSyntax] using charsPlain, endsPlain, restSeparated⟩
  · next notPlain =>
      refine ⟨by simpa using notSyntax, ?_, separated⟩
      intro next isNext
      cases next with
      | plain chars =>
          obtain ⟨rest, rfl⟩ := List.head?_eq_some_iff.mp isNext
          exact absurd rfl (notPlain chars rest)
      | quoted run =>
          rfl

theorem chars_consSyntaxChar (c : Char) (pieces : List Piece) :
    (consSyntaxChar c pieces).flatMap Piece.chars = c :: pieces.flatMap Piece.chars := by
  unfold consSyntaxChar
  split
  · simp [Piece.chars]
  · split <;> simp [Piece.chars]
  · simp [Piece.chars]

theorem chars_consPlainChar (c : Char) (pieces : List Piece) :
    (consPlainChar c pieces).flatMap Piece.chars = c :: pieces.flatMap Piece.chars := by
  unfold consPlainChar
  split <;> simp [Piece.chars]

end Pieces

theorem separated_pieces (context : Context) (text : List Char) :
    Separated context (pieces context text) := by
  induction text with
  | nil =>
      trivial
  | cons c text inductionHypothesis =>
      rw [pieces]
      split
      · next isSyntax =>
          exact separated_consSyntaxChar isSyntax inductionHypothesis
      · next notSyntax =>
          exact separated_consPlainChar (by simpa using notSyntax) inductionHypothesis

/-- The pieces make up the text. -/
theorem chars_pieces (context : Context) (text : List Char) :
    (pieces context text).flatMap Piece.chars = text := by
  induction text with
  | nil =>
      rfl
  | cons c text inductionHypothesis =>
      rw [pieces]
      split
      · rw [chars_consSyntaxChar, inductionHypothesis]
      · rw [chars_consPlainChar, inductionHypothesis]

/-! ## Rows of written text -/

section Rows

variable {context : Context} {next : Option Char}

theorem row_plain
    {chars : List Char}
    (charsPlain : ∀ c ∈ chars, context.isSyntax c = false) :
    Row (TextPart context) next (doubleApostrophes chars) chars := by
  induction chars with
  | nil =>
      exact Row.nil
  | cons c chars inductionHypothesis =>
      have rest := inductionHypothesis fun d member => charsPlain d (by simp [member])
      rw [doubleApostrophes_cons]
      split
      · next isApostrophe =>
          subst isApostrophe
          exact Row.cons .doubled rest
      · next notApostrophe =>
          exact Row.cons (.char notApostrophe (charsPlain c (by simp))) rest

/-- Apostrophes that follow a quoted part are doubled, so the first of each two of them can be
moved in front of the closing one. -/
theorem quoted_append_apostrophes
    {run marks : List Char}
    (onlyApostrophes : ∀ c ∈ marks, c = '\'') :
    '\'' :: doubleApostrophes run ++ ['\''] ++ doubleApostrophes marks =
      '\'' :: doubleApostrophes (run ++ marks) ++ ['\''] := by
  have moved : ['\''] ++ doubleApostrophes marks = doubleApostrophes marks ++ ['\''] := by
    induction marks with
    | nil =>
        rfl
    | cons c marks inductionHypothesis =>
        obtain rfl : c = '\'' := onlyApostrophes c (by simp)
        have rest := inductionHypothesis fun d member => onlyApostrophes d (by simp [member])
        simpa using rest
  rw [List.append_assoc, moved, doubleApostrophes_append]
  simp

theorem row_quoted
    {run : List Char}
    (beginsWithSyntax : ∃ c ∈ run.head?, context.isSyntax c = true)
    (closes : next ≠ some '\'') :
    TextPart context next ('\'' :: doubleApostrophes run ++ ['\'']) run := by
  obtain ⟨c, first, isSyntax⟩ := beginsWithSyntax
  obtain ⟨content, rfl⟩ := List.head?_eq_some_iff.mp first
  exact .quoted isSyntax closes

theorem head?_doubleApostrophes
    (text : List Char) :
    (doubleApostrophes text).head? = text.head? := by
  cases text with
  | nil =>
      rfl
  | cons c text =>
      rw [doubleApostrophes_cons]
      split <;> simp_all

/-- A quoted run takes in the apostrophes behind it, which is why the parts of written text are not
those of its pieces one by one. -/
theorem row_quoted_append
    {run chars source values : List Char}
    (beginsWithSyntax : ∃ c ∈ run.head?, context.isSyntax c = true)
    (charsPlain : ∀ c ∈ chars, context.isSyntax c = false)
    (endsRun : (source = [] ∧ next ≠ some '\'') ∨ ∃ c ∈ chars, c ≠ '\'')
    (row : Row (TextPart context) next source values) :
    Row (TextPart context) next
      ('\'' :: doubleApostrophes run ++ ['\''] ++ (doubleApostrophes chars ++ source))
      (run ++ (chars ++ values)) := by
  obtain ⟨marks, others, rfl, onlyApostrophes, othersStop⟩ := exists_apostrophes_append chars
  have beginsWithSyntax := first_append beginsWithSyntax marks
  have closes : (doubleApostrophes others ++ source).head?.or next ≠ some '\'' := by
    rw [List.head?_append, head?_doubleApostrophes]
    cases first : others.head? with
    | none =>
        obtain rfl := List.head?_eq_none_iff.mp first
        rcases endsRun with ⟨rfl, closes⟩ | ⟨c, member, notApostrophe⟩
        · simpa using closes
        · exact absurd (onlyApostrophes c (by simpa using member)) notApostrophe
    | some c =>
        simpa using othersStop c first
  have othersRow :
      Row (TextPart context) next (doubleApostrophes others ++ source) (others ++ values) :=
    (row_plain fun c member => charsPlain c (by simp [member])).append row
  have quotedRow := Row.cons (row_quoted beginsWithSyntax closes) othersRow
  rw [← quoted_append_apostrophes onlyApostrophes] at quotedRow
  simpa using quotedRow

/-- Separated pieces are written as a row of parts. -/
theorem row_of_separated
    (pieces : List Piece)
    (separated : Separated context pieces)
    (closes : next ≠ some '\'') :
    Row (TextPart context) next (pieces.flatMap Piece.source) (pieces.flatMap Piece.chars) := by
  match pieces, separated with
  | [], _ =>
      exact Row.nil
  | .plain chars :: pieces, ⟨charsPlain, _, restSeparated⟩ =>
      exact (row_plain charsPlain).append (row_of_separated pieces restSeparated closes)
  | [.quoted run], ⟨beginsWithSyntax, _, _⟩ =>
      simpa [Piece.source, Piece.chars] using Row.single (row_quoted beginsWithSyntax closes)
  | .quoted run :: .plain chars :: pieces,
      ⟨beginsWithSyntax, endsRun, charsPlain, _, restSeparated⟩ =>
      have restRow := row_of_separated pieces restSeparated closes
      refine row_quoted_append beginsWithSyntax charsPlain ?_ restRow
      exact endsRun.imp_left fun isLast => ⟨by simp [isLast], closes⟩

/-- A text is written as a row of parts that stands for it. -/
theorem row_of_pieces
    (context : Context) (text : List Char)
    (closes : next ≠ some '\'') :
    Row (TextPart context) next ((pieces context text).flatMap Piece.source) text := by
  have row := row_of_separated _ (separated_pieces context text) closes
  rwa [chars_pieces] at row

theorem source_pieces_ne_nil
    {content : String}
    (nonempty : content ≠ "") :
    (pieces context content.toList).flatMap Piece.source ≠ [] := by
  have row : Row (TextPart context) none _ content.toList :=
    row_of_pieces context content.toList (by simp)
  intro isEmpty
  rw [row.source_eq_nil_iff TextPart.nonempty, String.toList_eq_nil_iff] at isEmpty
  exact nonempty isEmpty

end Rows

section Style

variable {next : Option Char} {style : List Char}

theorem row_doubleApostrophes
    (noBrace : ∀ c ∈ style, c ≠ '{' ∧ c ≠ '}') :
    Row StylePart next (doubleApostrophes style) style := by
  induction style with
  | nil =>
      exact Row.nil
  | cons c style inductionHypothesis =>
      have rest := inductionHypothesis fun d member => noBrace d (by simp [member])
      obtain ⟨notOpening, notClosing⟩ := noBrace c (by simp)
      rw [doubleApostrophes_cons]
      split
      · next isApostrophe =>
          subst isApostrophe
          exact Row.cons .doubled rest
      · next notApostrophe =>
          exact Row.cons (.char notApostrophe notOpening notClosing) rest

/-- Apostrophes at the front of a quoted style are doubled parts in front of the quoted one. -/
theorem row_quotedStyle
    (notOnlyApostrophes : ∃ c ∈ style, c ≠ '\'')
    (closes : next ≠ some '\'') :
    Row StylePart next ('\'' :: doubleApostrophes style ++ ['\'']) style := by
  induction style with
  | nil =>
      obtain ⟨c, member, _⟩ := notOnlyApostrophes
      exact absurd member List.not_mem_nil
  | cons c style inductionHypothesis =>
      by_cases isApostrophe : c = '\''
      · subst isApostrophe
        have rest := inductionHypothesis (by simpa using notOnlyApostrophes)
        exact Row.cons .doubled rest
      · exact Row.single (.quoted isApostrophe closes)

/-- A style is written as a row of parts that stands for it. -/
theorem row_quoteStyle
    (style : List Char)
    (closes : next ≠ some '\'') :
    Row StylePart next (quoteStyle style) style := by
  unfold quoteStyle
  split
  · next needsQuotes =>
      refine row_quotedStyle ?_ closes
      obtain ⟨c, member, isSpecial⟩ := List.any_eq_true.mp needsQuotes
      refine ⟨c, member, ?_⟩
      rintro rfl
      revert isSpecial
      decide
  · next needsNone =>
      refine row_doubleApostrophes fun c member => ?_
      rw [Bool.not_eq_true, List.any_eq_false] at needsNone
      have notSpecial := needsNone c member
      simp_all

theorem mem_doubleApostrophes
    {c : Char} {text : List Char}
    (member : c ∈ doubleApostrophes text) :
    c ∈ text := by
  obtain ⟨d, inText, isWritten⟩ := List.mem_flatMap.mp member
  split at isWritten <;> simp_all

/-- The written form of a style begins and ends with an apostrophe, or has no blanks at all. -/
theorem trimmed_quoteStyle (style : List Char) :
    Trimmed (quoteStyle style) := by
  unfold quoteStyle
  split
  · refine ⟨?_, ?_⟩
    · simpa using by decide
    · simp only [List.getLast?_concat, Option.mem_def, Option.some.injEq]
      rintro _ rfl
      decide
  · next needsNone =>
      have notBlank : ∀ c ∈ doubleApostrophes style, isBlank c = false := by
        intro c member
        rw [Bool.not_eq_true, List.any_eq_false] at needsNone
        have notSpecial := needsNone c (mem_doubleApostrophes member)
        simp_all
      exact ⟨fun c first => notBlank c (List.mem_of_mem_head? first),
        fun c last => notBlank c (List.mem_of_mem_getLast? last)⟩

/-- A style is written between two blanks. -/
theorem styleForm_quoteStyle (style : String) :
    StyleForm ([' '] ++ quoteStyle style.toList ++ [' ']) style := by
  have blank : AllBlank [' '] := by decide
  exact .mk blank (trimmed_quoteStyle _) (row_quoteStyle _ (by decide)) blank

end Style

end MessagePattern.Layout
