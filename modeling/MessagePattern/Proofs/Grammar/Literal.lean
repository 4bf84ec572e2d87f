import MessagePattern.Proofs.Grammar.Phrase

/-!
# Literal text and styles

The readers of literal text and of styles read exactly the rows of parts of the grammar.
-/

namespace MessagePattern.Grammar

open Layout Pattern

namespace Row

variable {Part : Option Char → List Char → List Char → Prop} {next : Option Char}

/-- A single part is a row. -/
theorem single
    {part value : List Char}
    (fits : Part next part value) :
    Row Part next part value := by
  have row : Row Part next (part ++ []) (value ++ []) :=
    Row.cons (by simpa using fits) Row.nil
  simpa using row

/-- Two rows make one, if the first is one in front of the second. -/
theorem append
    {left right leftValue rightValue : List Char}
    (leftRow : Row Part (right.head?.or next) left leftValue)
    (rightRow : Row Part next right rightValue) :
    Row Part next (left ++ right) (leftValue ++ rightValue) := by
  induction leftRow with
  | nil =>
      simpa using rightRow
  | @cons part value source values fits _ inductionHypothesis =>
      rw [List.append_assoc, List.append_assoc]
      refine Row.cons ?_ inductionHypothesis
      rwa [List.head?_append, Option.or_assoc]

/-- If no part is empty and none stands for nothing, an empty value has an empty row. -/
theorem source_eq_nil_iff
    {source value : List Char}
    (nonempty : ∀ {next part value}, Part next part value → part ≠ [] ∧ value ≠ [])
    (row : Row Part next source value) :
    source = [] ↔ value = [] := by
  cases row with
  | nil =>
      simp
  | cons fits _ =>
      simp [nonempty fits]

end Row

/-- `quoted` reads the inside of a quoted part, after which `plain` goes on. -/
structure ReadsQuoted (quoted plain : List Char → Reading (List Char)) : Prop where
  failed : ∃ cause place rest, quoted [] = .failed cause place rest
  doubled : ∀ rest, quoted ('\'' :: '\'' :: rest) = (quoted rest).map ('\'' :: ·)
  closing : ∀ {rest}, rest.head? ≠ some '\'' → quoted ('\'' :: rest) = plain rest
  char : ∀ {c rest}, c ≠ '\'' → quoted (c :: rest) = (quoted rest).map (c :: ·)

namespace ReadsQuoted

variable {quoted plain : List Char → Reading (List Char)}

/-- A quoted part is read up to the apostrophe that closes it. -/
theorem read_content
    (reads : ReadsQuoted quoted plain)
    (content : List Char) {rest : List Char}
    (closes : rest.head? ≠ some '\'') :
    quoted (doubleApostrophes content ++ '\'' :: rest) =
      (plain rest).map (content ++ ·) := by
  induction content with
  | nil =>
      rw [doubleApostrophes_nil, List.nil_append, reads.closing closes]
      cases plain rest <;> rfl
  | cons c tail inductionHypothesis =>
      by_cases isApostrophe : c = '\''
      · subst isApostrophe
        simp [reads.doubled, inductionHypothesis]
      · simp [isApostrophe, reads.char isApostrophe, inductionHypothesis]

/-- What is read begins with the inside of a quoted part and the apostrophe that closes it. -/
theorem exists_content
    (reads : ReadsQuoted quoted plain)
    {input content rest : List Char}
    (found : quoted input = .done content rest) :
    ∃ inside tail values,
      input = doubleApostrophes inside ++ '\'' :: tail ∧
        tail.head? ≠ some '\'' ∧
        plain tail = .done values rest ∧
        content = inside ++ values := by
  cases input with
  | nil =>
      obtain ⟨_, _, _, fails⟩ := reads.failed
      rw [fails] at found
      cases found
  | cons c tail =>
      by_cases isApostrophe : c = '\''
      · subst isApostrophe
        by_cases isDoubled : tail.head? = some '\''
        · obtain ⟨after, rfl⟩ := List.head?_eq_some_iff.mp isDoubled
          rw [reads.doubled] at found
          obtain ⟨before, afterFound, rfl⟩ := Reading.map_eq_done_iff.mp found
          obtain ⟨inside, tail, values, rfl, closes, tailFound, rfl⟩ :=
            exists_content reads afterFound
          exact ⟨'\'' :: inside, tail, values, by simp, closes, tailFound, rfl⟩
        · rw [reads.closing isDoubled] at found
          exact ⟨[], tail, content, rfl, isDoubled, found, rfl⟩
      · rw [reads.char isApostrophe] at found
        obtain ⟨before, tailFound, rfl⟩ := Reading.map_eq_done_iff.mp found
        obtain ⟨inside, after, values, rfl, closes, afterFound, rfl⟩ :=
          exists_content reads tailFound
        exact ⟨c :: inside, after, values, by simp [isApostrophe], closes, afterFound, rfl⟩
termination_by input.length

end ReadsQuoted

/-! ## Reading text -/

section Text

variable {context : Context}

theorem readsQuoted_readText (context : Context) (opening : List Char) :
    ReadsQuoted (readText context (some opening)) (readText context none) where
  failed := ⟨_, _, _, by rw [readText]⟩
  doubled := readText_doubled context (some opening)
  closing := readText_closing
  char := readText_quotedChar

theorem TextPart.nonempty
    {next : Option Char} {part value : List Char}
    (fits : TextPart context next part value) :
    part ≠ [] ∧ value ≠ [] := by
  cases fits <;> simp

/-- A part of a text is read as the grammar says. -/
theorem readText_part
    {part value rest : List Char}
    (fits : TextPart context rest.head? part value) :
    readText context none (part ++ rest) =
      (readText context none rest).map (value ++ ·) := by
  cases fits with
  | char notApostrophe notSyntax =>
      exact readText_char notApostrophe notSyntax
  | doubled =>
      exact readText_doubled context none rest
  | lone isLone =>
      exact readText_lone isLone
  | @quoted c content isSyntax closes =>
      have notApostrophe := ne_apostrophe_of_isSyntax isSyntax
      have inside :=
        (readsQuoted_readText context
          ('\'' :: (doubleApostrophes (c :: content) ++ '\'' :: rest))).read_content
          (c :: content) closes
      simp only [doubleApostrophes_cons, notApostrophe, if_false, List.cons_append,
        List.nil_append, List.append_assoc] at inside ⊢
      rw [readText_opening isSyntax, inside]

/-- Reading undoes the grammar of text, where a text ends. -/
theorem readText_of_row
    {source content rest : List Char}
    (row : Row (TextPart context) rest.head? source content)
    (stops : ∀ c ∈ rest.head?, context.isSyntax c = true) :
    readText context none (source ++ rest) = .done content rest := by
  generalize follows : rest.head? = next at row
  induction row with
  | nil =>
      exact readText_stop stops
  | @cons part value source values fits _ inductionHypothesis =>
      rw [← follows, ← List.head?_append] at fits
      rw [List.append_assoc, readText_part fits, inductionHypothesis]
      rfl

/-- What is read begins with a part, unless text ends at once. -/
theorem part_or_stop_of_readText
    {input content rest : List Char}
    (found : readText context none input = .done content rest) :
    (content = [] ∧ rest = input ∧ ∀ c ∈ input.head?, context.isSyntax c = true) ∨
      ∃ part value tail values,
        input = part ++ tail ∧
          TextPart context tail.head? part value ∧
          readText context none tail = .done values rest ∧
          content = value ++ values := by
  cases input with
  | nil =>
      simp only [readText_nil, Reading.done.injEq] at found
      exact Or.inl ⟨found.1.symm, found.2.symm, by simp⟩
  | cons c tail =>
      by_cases isApostrophe : c = '\''
      · subst isApostrophe
        right
        by_cases isLone : ∀ c ∈ tail.head?, c ≠ '\'' ∧ context.isSyntax c = false
        · rw [readText_lone isLone] at found
          obtain ⟨values, tailFound, rfl⟩ := Reading.map_eq_done_iff.mp found
          exact ⟨_, _, tail, values, rfl, .lone isLone, tailFound, rfl⟩
        · cases tail with
          | nil =>
              simp at isLone
          | cons d after =>
              by_cases isDoubled : d = '\''
              · subst isDoubled
                rw [readText_doubled] at found
                obtain ⟨values, afterFound, rfl⟩ := Reading.map_eq_done_iff.mp found
                exact ⟨_, _, after, values, rfl, .doubled, afterFound, rfl⟩
              · have isSyntax : context.isSyntax d = true := by
                  simpa [isDoubled] using isLone
                rw [readText_opening isSyntax] at found
                obtain ⟨inside, after', values, equality, closes, afterFound, rfl⟩ :=
                  (readsQuoted_readText context _).exists_content found
                cases inside with
                | nil =>
                    simp [isDoubled] at equality
                | cons e content =>
                    obtain rfl : d = e := by
                      by_cases isDoubledInside : e = '\'' <;> simp_all
                    exact ⟨_, _, after', values, by rw [equality]; simp,
                      .quoted isSyntax closes, afterFound, rfl⟩
      · by_cases isSyntax : context.isSyntax c = true
        · have stops : ∀ d ∈ (c :: tail).head?, context.isSyntax d = true := by
            simpa using isSyntax
          rw [readText_stop stops, Reading.done.injEq] at found
          exact Or.inl ⟨found.1.symm, found.2.symm, stops⟩
        · right
          rw [Bool.not_eq_true] at isSyntax
          rw [readText_char isApostrophe isSyntax] at found
          obtain ⟨values, tailFound, rfl⟩ := Reading.map_eq_done_iff.mp found
          exact ⟨_, _, tail, values, rfl, .char isApostrophe isSyntax, tailFound, rfl⟩

/-- Text that is read is a row of parts, which goes on as far as text does. -/
theorem exists_row_of_readText
    {input content rest : List Char}
    (found : readText context none input = .done content rest) :
    ∃ source,
      input = source ++ rest ∧
        Row (TextPart context) rest.head? source content ∧
        ∀ c ∈ rest.head?, context.isSyntax c = true := by
  induction size : input.length using Nat.strongRecOn generalizing input content with
  | ind size inductionHypothesis =>
      subst size
      rcases part_or_stop_of_readText found with
        ⟨rfl, rfl, stops⟩ | ⟨part, value, tail, values, rfl, fits, tailFound, rfl⟩
      · exact ⟨[], rfl, Row.nil, stops⟩
      · have shorter : tail.length < (part ++ tail).length :=
          length_lt_append fits.nonempty.1 tail
        obtain ⟨source, rfl, row, stops⟩ := inductionHypothesis _ shorter tailFound rfl
        rw [List.head?_append] at fits
        exact ⟨part ++ source, by simp, Row.cons fits row, stops⟩

end Text

/-! ## Reading styles -/

section Style

theorem StylePart.nonempty
    {next : Option Char} {part value : List Char}
    (fits : StylePart next part value) :
    part ≠ [] ∧ value ≠ [] := by
  cases fits <;> simp

theorem not_brace_of_isBlank
    {c : Char}
    (blank : isBlank c = true) :
    c ≠ '\'' ∧ c ≠ '{' ∧ c ≠ '}' := by
  refine ⟨?_, ?_, ?_⟩
  all_goals
    rintro rfl
    revert blank
    decide

/-- Blanks in front of the closing brace are no part of the style. -/
theorem readStyleText_blanks
    {blanks rest : List Char}
    (allBlank : AllBlank blanks)
    (stops : rest.head? = some '}') :
    readStyleText none (blanks ++ rest) = .done [] rest := by
  induction blanks with
  | nil =>
      obtain ⟨tail, rfl⟩ := List.head?_eq_some_iff.mp stops
      exact readStyleText_brace tail
  | cons c tail inductionHypothesis =>
      have headBlank : isBlank c = true := allBlank c (by simp)
      have tailBlank : AllBlank tail := fun d member => allBlank d (by simp [member])
      obtain ⟨notApostrophe, notOpening, notClosing⟩ := not_brace_of_isBlank headBlank
      rw [List.cons_append, readStyleText_char notApostrophe notOpening notClosing,
        inductionHypothesis tailBlank]
      simp [consLoose, headBlank]

theorem readsQuoted_readStyleText (opening : List Char) :
    ReadsQuoted (readStyleText (some opening)) (readStyleText none) where
  failed := ⟨_, _, _, by rw [readStyleText]⟩
  doubled := readStyleText_doubled (some opening)
  closing := readStyleText_closing
  char := readStyleText_quotedChar

/-- A part of a style is read as the grammar says, unless it is a blank at the end. -/
theorem readStyleText_part
    {part value tail values rest : List Char}
    (fits : StylePart tail.head? part value)
    (tailFound : readStyleText none tail = .done values rest)
    (isInside : values = [] → ∀ c ∈ part.getLast?, isBlank c = false) :
    readStyleText none (part ++ tail) = .done (value ++ values) rest := by
  cases fits with
  | @char c notApostrophe notOpening notClosing =>
      rw [List.singleton_append, readStyleText_char notApostrophe notOpening notClosing,
        tailFound, Reading.map_done]
      cases values with
      | nil =>
          have notBlank : isBlank c = false := isInside rfl c rfl
          simp [consLoose, notBlank]
      | cons d values =>
          simp [consLoose]
  | doubled =>
      simp [tailFound]
  | @quoted c content notApostrophe closes =>
      have inside :=
        (readsQuoted_readStyleText
          ('\'' :: (doubleApostrophes (c :: content) ++ '\'' :: tail))).read_content
          (c :: content) closes
      simp only [doubleApostrophes_cons, notApostrophe, if_false, List.cons_append,
        List.nil_append, List.append_assoc] at inside ⊢
      rw [readStyleText_opening (by simpa using notApostrophe), inside, tailFound]
      rfl

/-- Reading undoes the grammar of styles. -/
theorem readStyleText_of_row
    {source value after rest : List Char}
    (row : Row StylePart (after ++ rest).head? source value)
    (afterBlank : AllBlank after)
    (notBlankAtEnd : ∀ c ∈ source.getLast?, isBlank c = false)
    (stops : rest.head? = some '}') :
    readStyleText none (source ++ (after ++ rest)) = .done value rest := by
  generalize follows : (after ++ rest).head? = next at row
  induction row with
  | nil =>
      exact readStyleText_blanks afterBlank stops
  | @cons part value source values fits row inductionHypothesis =>
      rw [← follows, ← List.head?_append] at fits
      rw [List.append_assoc]
      have emptyIff := row.source_eq_nil_iff StylePart.nonempty
      rw [List.getLast?_append] at notBlankAtEnd
      refine readStyleText_part fits (inductionHypothesis ?_) ?_
      · intro c isLast
        rw [Option.mem_def] at isLast
        exact notBlankAtEnd c (by simp [isLast])
      · intro valuesEmpty
        simpa [emptyIff.mpr valuesEmpty] using notBlankAtEnd

/-- What is read as a style begins with a part of it, with a blank behind all its parts, or with
nothing. -/
theorem part_or_blank_or_stop_of_readStyleText
    {input value rest : List Char}
    (found : readStyleText none input = .done value rest) :
    (value = [] ∧ rest = input ∧ ∀ c ∈ input.head?, c = '}') ∨
      (∃ c tail,
        input = c :: tail ∧
          isBlank c = true ∧
          readStyleText none tail = .done [] rest ∧
          value = []) ∨
      ∃ part content tail values,
        input = part ++ tail ∧
          StylePart tail.head? part content ∧
          readStyleText none tail = .done values rest ∧
          value = content ++ values ∧
          (values = [] → ∀ c ∈ part.getLast?, isBlank c = false) := by
  cases input with
  | nil =>
      simp only [readStyleText_nil, Reading.done.injEq] at found
      exact Or.inl ⟨found.1.symm, found.2.symm, by simp⟩
  | cons c tail =>
      by_cases isClosing : c = '}'
      · subst isClosing
        simp only [readStyleText_brace, Reading.done.injEq] at found
        exact Or.inl ⟨found.1.symm, found.2.symm, by simp⟩
      right
      by_cases isApostrophe : c = '\''
      · subst isApostrophe
        right
        by_cases isDoubled : tail.head? = some '\''
        · obtain ⟨after, rfl⟩ := List.head?_eq_some_iff.mp isDoubled
          rw [readStyleText_doubled] at found
          obtain ⟨values, afterFound, rfl⟩ := Reading.map_eq_done_iff.mp found
          have notBlank : ∀ c ∈ ['\'', '\''].getLast?, isBlank c = false := by
            rintro _ ⟨⟩
            decide
          exact ⟨_, _, after, values, rfl, .doubled, afterFound, rfl, fun _ => notBlank⟩
        · rw [readStyleText_opening isDoubled] at found
          obtain ⟨inside, after, values, rfl, closes, afterFound, rfl⟩ :=
            (readsQuoted_readStyleText _).exists_content found
          cases inside with
          | nil =>
              simp at isDoubled
          | cons d content =>
              have notApostrophe : d ≠ '\'' := by
                rintro rfl
                simp at isDoubled
              refine ⟨_, _, after, values, by simp, .quoted notApostrophe closes, afterFound,
                rfl, ?_⟩
              intro _
              simp only [List.getLast?_concat, Option.mem_def, Option.some.injEq]
              rintro _ rfl
              decide
      · by_cases isOpening : c = '{'
        · subst isOpening
          simp [readStyleText, Reading.stop] at found
        · rw [readStyleText_char isApostrophe isOpening isClosing] at found
          obtain ⟨values, tailFound, rfl⟩ := Reading.map_eq_done_iff.mp found
          by_cases dropped : isBlank c = true ∧ values = []
          · obtain ⟨blank, rfl⟩ := dropped
            exact Or.inl ⟨c, tail, rfl, blank, tailFound, by simp [consLoose, blank]⟩
          · refine Or.inr ⟨_, _, tail, values, rfl, .char isApostrophe isOpening isClosing,
              tailFound, ?_, ?_⟩
            · cases values <;> simp_all [consLoose]
            · intro valuesEmpty
              simpa [valuesEmpty] using dropped

/-- A style that is read is a row of parts, which does not end with a blank. -/
theorem exists_row_of_readStyleText
    {input value rest : List Char}
    (found : readStyleText none input = .done value rest) :
    ∃ source after,
      input = source ++ (after ++ rest) ∧
        Row StylePart (after ++ rest).head? source value ∧
        AllBlank after ∧
        (∀ c ∈ source.getLast?, isBlank c = false) ∧
        ∀ c ∈ rest.head?, c = '}' := by
  induction size : input.length using Nat.strongRecOn generalizing input value with
  | ind size inductionHypothesis =>
      subst size
      rcases part_or_blank_or_stop_of_readStyleText found with
        ⟨rfl, rfl, stops⟩ | ⟨c, tail, rfl, blank, tailFound, rfl⟩ |
          ⟨part, content, tail, values, rfl, fits, tailFound, rfl, isInside⟩
      · exact ⟨[], [], rfl, Row.nil, allBlank_nil, by simp, stops⟩
      · obtain ⟨source, after, rfl, row, afterBlank, _, stops⟩ :=
          inductionHypothesis _ (by simp) tailFound rfl
        obtain rfl := (row.source_eq_nil_iff StylePart.nonempty).mpr rfl
        exact ⟨[], c :: after, rfl, Row.nil, allBlank_cons blank afterBlank, by simp, stops⟩
      · have shorter : tail.length < (part ++ tail).length :=
          length_lt_append fits.nonempty.1 tail
        obtain ⟨source, after, rfl, row, afterBlank, notBlankAtEnd, stops⟩ :=
          inductionHypothesis _ shorter tailFound rfl
        have emptyIff := row.source_eq_nil_iff StylePart.nonempty
        rw [List.head?_append] at fits
        refine ⟨part ++ source, after, by simp, Row.cons fits row, afterBlank, ?_, stops⟩
        intro c isLast
        rw [List.getLast?_append] at isLast
        by_cases sourceEmpty : source = []
        · subst sourceEmpty
          exact isInside (emptyIff.mp rfl) c (by simpa using isLast)
        · refine notBlankAtEnd c ?_
          cases last : source.getLast? with
          | none => exact absurd (List.getLast?_eq_none_iff.mp last) sourceEmpty
          | some d => simpa [last] using isLast

end Style

end MessagePattern.Grammar
