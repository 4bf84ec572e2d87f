import MessagePattern.Proofs.Grammar.Literal

/-!
# The beginning of a placeholder

Words, styles and offset clauses are read as the grammar says, and so is what comes before the
branches of a placeholder.
-/

namespace MessagePattern.Grammar

open Layout Pattern

theorem isTokenChar_of_isBlank
    {c : Char}
    (blank : isBlank c = true) :
    isTokenChar c = false := by
  simp [isTokenChar, blank]

theorem isSelectorChar_of_isBlank
    {c : Char}
    (blank : isBlank c = true) :
    isSelectorChar c = false := by
  simp [isSelectorChar, blank]

section Words

variable {isWordChar : Char → Bool}

/-- A word and the blanks after it end where neither a blank nor a character of the word is. -/
theorem word_stops
    {blanks rest : List Char}
    (blanksEnd : ∀ {c}, isBlank c = true → isWordChar c = false)
    (allBlank : AllBlank blanks)
    (stops : ∀ c ∈ rest.head?, isWordChar c = false) :
    ∀ c ∈ (blanks ++ rest).head?, isWordChar c = false := by
  intro c first
  cases blanks with
  | nil =>
      exact stops c first
  | cons d tail =>
      obtain rfl : d = c := by simpa using first
      exact blanksEnd (allBlank d (by simp))

theorem Padded.isWord
    {word : String} {source : List Char}
    (padded : Padded isWordChar word source) :
    IsWord isWordChar word := by
  cases padded with
  | mk _ isWord _ => exact isWord

/-- A padded word is what a reader of words takes. -/
theorem Padded.read
    {word : String} {source : List Char}
    (padded : Padded isWordChar word source) (rest : List Char)
    (blanksEnd : ∀ {c}, isBlank c = true → isWordChar c = false)
    (notBlank : ∀ c ∈ rest.head?, isBlank c = false)
    (stops : ∀ c ∈ rest.head?, isWordChar c = false) :
    (skipBlanks (source ++ rest)).takeWhile isWordChar = word.toList ∧
      skipBlanks ((skipBlanks (source ++ rest)).dropWhile isWordChar) = rest := by
  obtain ⟨beforeBlank, isWord, afterBlank⟩ := padded
  rename_i before after
  have wordFirst : skipBlanks (before ++ word.toList ++ after ++ rest) =
      word.toList ++ (after ++ rest) := by
    rw [List.append_assoc, List.append_assoc, skipBlanks_append _ beforeBlank]
    refine skipBlanks_of_head ?_
    intro c first
    have inside := forall_first (isWord.exists_first (after ++ rest)) c first
    by_contra blank
    rw [Bool.not_eq_false] at blank
    rw [blanksEnd blank] at inside
    cases inside
  have afterStops := word_stops blanksEnd afterBlank stops
  rw [wordFirst, takeWhile_run_append isWord.inside afterStops,
    dropWhile_run_append isWord.inside afterStops, skipBlanks_append _ afterBlank,
    skipBlanks_of_head notBlank]
  exact ⟨rfl, rfl⟩

/-- What a reader of words takes is a padded word. -/
theorem exists_padded
    (isWordChar : Char → Bool) (input : List Char)
    (nonempty : (skipBlanks input).takeWhile isWordChar ≠ []) :
    ∃ source,
      Padded isWordChar (.ofList ((skipBlanks input).takeWhile isWordChar)) source ∧
        input = source ++ skipBlanks ((skipBlanks input).dropWhile isWordChar) := by
  obtain ⟨before, beforeBlank, inputEq⟩ := exists_blanks_append_skipBlanks input
  obtain ⟨after, afterBlank, restEq⟩ :=
    exists_blanks_append_skipBlanks ((skipBlanks input).dropWhile isWordChar)
  refine ⟨_, ⟨beforeBlank, ⟨?_, ?_⟩, afterBlank⟩, ?_⟩
  · simpa using nonempty
  · intro c member
    rw [String.toList_ofList] at member
    exact List.mem_takeWhile_imp member
  · rw [String.toList_ofList, List.append_assoc, ← restEq, List.append_assoc,
      List.takeWhile_append_dropWhile]
    exact inputEq

end Words

theorem readStyle_of_form
    {source rest : List Char} {style : String}
    (form : StyleForm source style) :
    readStyle (source ++ '}' :: rest) = .done style.toList ('}' :: rest) := by
  obtain ⟨beforeBlank, trimmed, row, afterBlank⟩ := form
  rename_i before source after
  have row : Row StylePart (after ++ '}' :: rest).head? source style.toList := by
    simpa using row
  rw [readStyle, List.append_assoc, List.append_assoc, skipBlanks_append _ beforeBlank]
  by_cases sourceEmpty : source = []
  · -- The blanks on both sides of an empty style are skipped alike.
    have styleEmpty : style.toList = [] :=
      (row.source_eq_nil_iff StylePart.nonempty).mp sourceEmpty
    rw [sourceEmpty, styleEmpty, List.nil_append, skipBlanks_append _ afterBlank]
    rw [skipBlanks_of_head (by simpa using by decide)]
    exact readStyleText_brace rest
  · rw [skipBlanks_of_head]
    · exact readStyleText_of_row row afterBlank trimmed.last rfl
    · intro c first
      obtain ⟨d, tail, rfl⟩ := List.exists_cons_of_ne_nil sourceEmpty
      exact trimmed.first c first

theorem exists_form_of_readStyle
    {input style rest : List Char}
    (found : readStyle input = .done style ('}' :: rest)) :
    ∃ source, input = source ++ '}' :: rest ∧ StyleForm source (.ofList style) := by
  obtain ⟨before, beforeBlank, inputEq⟩ := exists_blanks_append_skipBlanks input
  obtain ⟨source, after, skippedEq, row, afterBlank, last, _⟩ :=
    exists_row_of_readStyleText found
  refine ⟨before ++ source ++ after, ?_, .mk beforeBlank ⟨?_, last⟩ ?_ afterBlank⟩
  · rw [inputEq, skippedEq]
    simp
  · intro c first
    have isFirst : c ∈ (skipBlanks input).head? := by
      rw [skippedEq, List.head?_append]
      simp [Option.mem_def.mp first]
    exact not_blank_of_mem_head?_skipBlanks isFirst
  · simpa using row

/-! ## Offset clauses -/

theorem not_blank_of_isDigit
    {c : Char}
    (digit : c.isDigit = true) :
    isBlank c = false := by
  simp only [Char.isDigit, Bool.and_eq_true, decide_eq_true_eq] at digit
  obtain ⟨lower, upper⟩ := digit
  have lower : 48 ≤ c.toNat := lower
  have upper : c.toNat ≤ 57 := upper
  simp [isBlank, blankRanges]
  omega

theorem not_blank_of_mem_head?_offsetMark (rest : List Char) :
    ∀ c ∈ (offsetMark ++ rest).head?, isBlank c = false := by
  intro c first
  obtain rfl : 'o' = c := Option.some.inj first
  decide

theorem offsetDigits?_eq_some_iff
    {input digits : List Char} :
    offsetDigits? input = some digits ↔
      ∃ blanks digit rest,
        AllBlank blanks ∧
          digit.isDigit = true ∧
          digits = digit :: rest ∧
          input = offsetMark ++ blanks ++ digits := by
  constructor
  · intro found
    unfold offsetDigits? at found
    split at found
    · next isPrefix =>
        obtain ⟨tail, rfl⟩ := List.isPrefixOf_iff_prefix.mp isPrefix
        rw [List.drop_left] at found
        obtain ⟨blanks, allBlank, tailEq⟩ := exists_blanks_append_skipBlanks tail
        split at found
        · cases found
        · next c rest skipped =>
            split at found
            · next digit =>
                cases found
                refine ⟨blanks, c, rest, allBlank, digit, rfl, ?_⟩
                rw [List.append_assoc, ← skipped, ← tailEq]
            · cases found
    · cases found
  · rintro ⟨blanks, digit, rest, allBlank, isDigit, rfl, rfl⟩
    have isPrefix : offsetMark.isPrefixOf (offsetMark ++ blanks ++ digit :: rest) = true :=
      List.isPrefixOf_iff_prefix.mpr ⟨blanks ++ digit :: rest, by simp⟩
    have skipped : skipBlanks (blanks ++ digit :: rest) = digit :: rest := by
      rw [skipBlanks_append _ allBlank]
      refine skipBlanks_of_head ?_
      simpa using not_blank_of_isDigit isDigit
    rw [offsetDigits?, if_pos isPrefix, List.append_assoc, List.drop_left, skipped]
    simp [isDigit]

theorem offsetDigits?_eq_none_iff
    {input : List Char} :
    offsetDigits? input = none ↔ ¬ BeginsOffset input := by
  rw [← not_iff_not, not_not, ← ne_eq, Option.ne_none_iff_exists']
  constructor
  · rintro ⟨digits, found⟩
    obtain ⟨blanks, digit, rest, allBlank, isDigit, rfl, rfl⟩ :=
      offsetDigits?_eq_some_iff.mp found
    exact ⟨blanks, digit, rest, allBlank, isDigit, rfl⟩
  · rintro ⟨blanks, digit, rest, allBlank, isDigit, rfl⟩
    exact ⟨_, offsetDigits?_eq_some_iff.mpr
      ⟨blanks, digit, rest, allBlank, isDigit, rfl, rfl⟩⟩

theorem BeginsOffset.append
    {text : List Char} (rest : List Char)
    (begins : BeginsOffset text) :
    BeginsOffset (text ++ rest) := by
  obtain ⟨blanks, digit, tail, allBlank, isDigit, rfl⟩ := begins
  exact ⟨blanks, digit, tail ++ rest, allBlank, isDigit, by simp⟩

/-- Whether branches begin as an offset clause is settled within them, since no clause has a
brace. -/
theorem BeginsOffset.of_append
    {text rest : List Char}
    (hasBrace : '{' ∈ text)
    (begins : BeginsOffset (text ++ rest)) :
    BeginsOffset text := by
  obtain ⟨blanks, digit, tail, allBlank, isDigit, equality⟩ := begins
  have noBrace : '{' ∉ offsetMark ++ blanks ++ [digit] := by
    intro member
    rw [List.mem_append, List.mem_append] at member
    rcases member with (inMark | inBlanks) | isLast
    · revert inMark
      decide
    · exact absurd (allBlank _ inBlanks) (by decide)
    · rw [List.mem_singleton] at isLast
      subst isLast
      exact absurd isDigit (by decide)
  have equality : text ++ rest = offsetMark ++ blanks ++ [digit] ++ tail := by
    simpa using equality
  rcases List.append_eq_append_iff.mp equality with
    ⟨after, clauseEq, _⟩ | ⟨after, textEq, _⟩
  · refine absurd ?_ noBrace
    rw [clauseEq]
    exact List.mem_append_left after hasBrace
  · exact ⟨blanks, digit, after, allBlank, isDigit, by simp [textEq]⟩

/-- A clause is read in front of the branches that follow it. -/
theorem readOffset_of_form
    {clause source : List Char} {offset : UInt32}
    (form : OffsetForm source clause offset) (rest : List Char)
    (hasBrace : '{' ∈ source)
    (notBlank : ∀ c ∈ (source ++ rest).head?, isBlank c = false) :
    ∃ tail,
      readOffset (skipBlanks (clause ++ (source ++ rest))) = .done offset tail ∧
        skipBlanks tail = source ++ rest := by
  cases form with
  | absent allBlank notClause =>
      refine ⟨source ++ rest, ?_, skipBlanks_of_head notBlank⟩
      have noDigits : offsetDigits? (source ++ rest) = none :=
        offsetDigits?_eq_none_iff.mpr fun begins => notClause (begins.of_append hasBrace)
      rw [skipBlanks_append _ allBlank, skipBlanks_of_head notBlank, readOffset, noDigits]
  | @present before inside digits after beforeBlank insideBlank nonempty allDigits inRange
      afterBlank stops =>
      refine ⟨after ++ (source ++ rest), ?_, ?_⟩
      · obtain ⟨digit, others, rfl⟩ := List.exists_cons_of_ne_nil nonempty
        have skipped :
            skipBlanks (before ++ offsetMark ++ inside ++ digit :: others ++ after ++
              (source ++ rest)) =
              offsetMark ++ inside ++ digit :: (others ++ (after ++ (source ++ rest))) := by
          simp only [List.append_assoc, List.cons_append]
          rw [skipBlanks_append _ beforeBlank]
          exact skipBlanks_of_head (not_blank_of_mem_head?_offsetMark _)
        have found :
            offsetDigits? (offsetMark ++ inside ++
              digit :: (others ++ (after ++ (source ++ rest)))) =
              some (digit :: others ++ (after ++ (source ++ rest))) :=
          offsetDigits?_eq_some_iff.mpr
            ⟨inside, digit, _, insideBlank, allDigits digit (by simp), rfl, rfl⟩
        have stops : ∀ c ∈ (after ++ (source ++ rest)).head?, c.isDigit = false := by
          intro c first
          refine stops c ?_
          obtain ⟨d, others, sourceEq⟩ :=
            List.exists_cons_of_ne_nil (List.ne_nil_of_mem hasBrace)
          simpa [sourceEq] using first
        rw [skipped, readOffset, found]
        simp only [takeWhile_run_append allDigits stops, dropWhile_run_append allDigits stops,
          inRange, if_true]
      · rw [skipBlanks_append _ afterBlank]
        exact skipBlanks_of_head notBlank

/-- What is read in front of branches is a clause. -/
theorem exists_clause_of_readOffset
    {input source rest tail : List Char} {offset : UInt32}
    (found : readOffset (skipBlanks input) = .done offset tail)
    (branchesNext : skipBlanks tail = source ++ rest) :
    ∃ clause,
      input = clause ++ (source ++ rest) ∧ OffsetForm source clause offset := by
  obtain ⟨before, beforeBlank, inputEq⟩ := exists_blanks_append_skipBlanks input
  unfold readOffset at found
  split at found
  · next noDigits =>
      cases found
      have skipped : skipBlanks input = source ++ rest := by
        rw [← branchesNext]
        exact (skipBlanks_of_head fun _ => not_blank_of_mem_head?_skipBlanks).symm
      refine ⟨before, by rw [← skipped, ← inputEq], .absent beforeBlank fun begins => ?_⟩
      rw [offsetDigits?_eq_none_iff, skipped] at noDigits
      exact noDigits (begins.append rest)
  · next digits clause =>
      obtain ⟨inside, digit, others, insideBlank, isDigit, rfl, skipped⟩ :=
        offsetDigits?_eq_some_iff.mp clause
      dsimp only at found
      split at found
      · next inRange =>
          cases found
          obtain ⟨after, afterBlank, tailEq⟩ :=
            exists_blanks_append_skipBlanks ((digit :: others).dropWhile Char.isDigit)
          rw [branchesNext] at tailEq
          refine ⟨_, ?_, .present beforeBlank insideBlank ?_ ?_ inRange afterBlank ?_⟩
          · rw [inputEq, skipped]
            simp only [List.append_assoc]
            rw [← tailEq, List.takeWhile_append_dropWhile]
          · simp [isDigit]
          · intro c member
            exact List.mem_takeWhile_imp member
          · intro c first
            have isFirst : c ∈ ((digit :: others).dropWhile Char.isDigit).head? := by
              rw [tailEq, ← List.append_assoc, List.head?_append]
              simp [Option.mem_def.mp first]
            exact eq_false_of_mem_head?_dropWhile isFirst
      · cases found

/-! ## Openings -/

section Openings

variable {keySource typeSource rest : List Char} {key type : String}

theorem readOpening_brace
    (keyPadded : Padded isTokenChar key keySource) :
    readOpening (keySource ++ '}' :: rest) = .done (.closed (.argument key)) rest := by
  obtain ⟨keyEq, afterEq⟩ :=
    keyPadded.read ('}' :: rest) isTokenChar_of_isBlank
      (by simpa using by decide) (by simpa using by decide)
  simp only [readOpening, keyEq, afterEq]
  simp [keyPadded.isWord.nonempty]

theorem readOpening_comma
    (keyPadded : Padded isTokenChar key keySource) :
    readOpening (keySource ++ ',' :: rest) = readType key rest := by
  obtain ⟨keyEq, afterEq⟩ :=
    keyPadded.read (',' :: rest) isTokenChar_of_isBlank
      (by simpa using by decide) (by simpa using by decide)
  simp only [readOpening, keyEq, afterEq]
  simp [keyPadded.isWord.nonempty]

theorem readType_brace
    (typePadded : Padded isTokenChar type typeSource)
    (takesStyle : TakesStyle type) :
    readType key (typeSource ++ '}' :: rest) = .done (.closed (.styled key type none)) rest := by
  obtain ⟨notPlural, notSelect⟩ := takesStyle_iff.mp takesStyle
  obtain ⟨typeEq, afterEq⟩ :=
    typePadded.read ('}' :: rest) isTokenChar_of_isBlank
      (by simpa using by decide) (by simpa using by decide)
  simp only [readType, typeEq, afterEq]
  simp [typePadded.isWord.nonempty, notPlural, notSelect]

theorem readType_comma
    (typePadded : Padded isTokenChar type typeSource) :
    readType key (typeSource ++ ',' :: rest) = readDetail key type rest := by
  obtain ⟨typeEq, afterEq⟩ :=
    typePadded.read (',' :: rest) isTokenChar_of_isBlank
      (by simpa using by decide) (by simpa using by decide)
  simp only [readType, typeEq, afterEq]
  simp [typePadded.isWord.nonempty]

theorem readDetail_style
    {styleSource : List Char} {style : String}
    (takesStyle : TakesStyle type)
    (form : StyleForm styleSource style) :
    readDetail key type (styleSource ++ '}' :: rest) =
      .done (.closed (.styled key type (if style = "" then none else some style))) rest := by
  obtain ⟨notPlural, notSelect⟩ := takesStyle_iff.mp takesStyle
  simp only [readDetail, notPlural, notSelect, if_false, readStyle_of_form form,
    Reading.andThen_done, expect_cons, Reading.map_done]
  simp

theorem readDetail_select (key : String) (rest : List Char) :
    readDetail key "select" rest = .done (.select key) rest := by
  have notPlural : PluralKind.ofType? "select" = none := by decide
  simp only [readDetail, notPlural, if_true]

theorem readDetail_plural (key : String) (kind : PluralKind) (rest : List Char) :
    readDetail key kind.typeName rest =
      (readOffset (skipBlanks rest)).map (.plural key kind) := by
  simp only [readDetail, PluralKind.ofType?_typeName]

/-- How the text of a placeholder begins, given what its opening was read as. -/
def OpensAs (input rest : List Char) : Opening → Prop
  | .closed node =>
    ∃ source,
      input = source ++ rest ∧ Derives ('{' :: source) (.placeholder node)
  | .select key =>
    ∃ keySource typeSource,
      Padded isTokenChar key keySource ∧
        Padded isTokenChar "select" typeSource ∧
        input = keySource ++ ',' :: typeSource ++ ',' :: rest
  | .plural key kind offset =>
    ∃ keySource typeSource detail,
      Padded isTokenChar key keySource ∧
        Padded isTokenChar kind.typeName typeSource ∧
        input = keySource ++ ',' :: typeSource ++ ',' :: detail ∧
        readOffset (skipBlanks detail) = .done offset rest

theorem opensAs_of_readDetail
    {input : List Char} {opening : Opening}
    (keyPadded : Padded isTokenChar key keySource)
    (typePadded : Padded isTokenChar type typeSource)
    (found : readDetail key type input = .done opening rest) :
    OpensAs (keySource ++ ',' :: typeSource ++ ',' :: input) rest opening := by
  unfold readDetail at found
  split at found
  · next kind isPlural =>
      obtain ⟨offset, offsetFound, rfl⟩ := Reading.map_eq_done_iff.mp found
      obtain rfl := PluralKind.typeName_of_ofType? isPlural
      exact ⟨keySource, typeSource, input, keyPadded, typePadded, rfl, offsetFound⟩
  · next notPlural =>
      split at found
      · next isSelect =>
          subst isSelect
          cases found
          exact ⟨keySource, typeSource, keyPadded, typePadded, rfl⟩
      · next notSelect =>
          obtain ⟨style, middle, styleFound, closed⟩ := Reading.andThen_eq_done_iff.mp found
          obtain ⟨_, closing, rfl⟩ := Reading.map_eq_done_iff.mp closed
          obtain rfl := eq_cons_of_expect closing
          obtain ⟨styleSource, rfl, form⟩ := exists_form_of_readStyle styleFound
          refine ⟨keySource ++ ',' :: typeSource ++ ',' :: styleSource ++ ['}'], by simp, ?_⟩
          have derivation :=
            Derives.styled keyPadded typePadded (takesStyle_iff.mpr ⟨notPlural, notSelect⟩) form
          simpa using derivation

theorem opensAs_of_readType
    {input : List Char} {opening : Opening}
    (keyPadded : Padded isTokenChar key keySource)
    (found : readType key input = .done opening rest) :
    OpensAs (keySource ++ ',' :: input) rest opening := by
  unfold readType at found
  dsimp only at found
  split at found
  · cases found
  · next isWord =>
      obtain ⟨typeSource, typePadded, inputEq⟩ :=
        exists_padded isTokenChar input (by simpa using isWord)
      split at found
      · next after afterEq =>
          rw [afterEq] at inputEq
          split at found
          · cases found
          · next takesStyle =>
              cases found
              refine ⟨keySource ++ ',' :: typeSource ++ ['}'], by simp [inputEq], ?_⟩
              exact Derives.unstyled keyPadded typePadded (by simpa [takesStyle_iff] using takesStyle)
      · next after afterEq =>
          rw [afterEq] at inputEq
          have opens := opensAs_of_readDetail keyPadded typePadded found
          rw [inputEq]
          simpa using opens
      · unfold stopUnfinished at found
        split at found <;> cases found

/-- What is read as the opening of a placeholder opens it. -/
theorem opensAs_of_readOpening
    {input : List Char} {opening : Opening}
    (found : readOpening input = .done opening rest) :
    OpensAs input rest opening := by
  unfold readOpening at found
  dsimp only at found
  split at found
  · cases found
  · next isWord =>
      obtain ⟨keySource, keyPadded, inputEq⟩ :=
        exists_padded isTokenChar input (by simpa using isWord)
      split at found
      · next after afterEq =>
          rw [afterEq] at inputEq
          cases found
          refine ⟨keySource ++ ['}'], by simp [inputEq], ?_⟩
          exact Derives.argument keyPadded
      · next after afterEq =>
          rw [afterEq] at inputEq
          rw [inputEq]
          exact opensAs_of_readType keyPadded found
      · unfold stopUnfinished at found
        split at found <;> cases found

end Openings

theorem readSelector_of_isWord
    {selector : String} {blanks : List Char}
    (isWord : IsWord isSelectorChar selector)
    (allBlank : AllBlank blanks) (rest : List Char) :
    readSelector (selector.toList ++ (blanks ++ '{' :: rest)) = .done selector rest := by
  have stops : ∀ c ∈ (blanks ++ '{' :: rest).head?, isSelectorChar c = false :=
    word_stops isSelectorChar_of_isBlank allBlank (by simpa using by decide)
  have skipped : skipBlanks (blanks ++ '{' :: rest) = '{' :: rest := by
    rw [skipBlanks_append _ allBlank]
    exact skipBlanks_of_head (by simpa using by decide)
  simp only [readSelector, takeWhile_run_append isWord.inside stops,
    dropWhile_run_append isWord.inside stops, skipped, expect_cons, Reading.map_done]
  simp [isWord.nonempty]

theorem exists_of_readSelector
    {input rest : List Char} {selector : String}
    (found : readSelector input = .done selector rest) :
    ∃ blanks,
      IsWord isSelectorChar selector ∧
        AllBlank blanks ∧
        input = selector.toList ++ (blanks ++ '{' :: rest) := by
  unfold readSelector at found
  dsimp only at found
  split at found
  · cases found
  · next nonempty =>
      obtain ⟨_, brace, rfl⟩ := Reading.map_eq_done_iff.mp found
      obtain ⟨blanks, allBlank, restEq⟩ :=
        exists_blanks_append_skipBlanks (input.dropWhile isSelectorChar)
      rw [eq_cons_of_expect brace] at restEq
      refine ⟨blanks, ⟨by simpa using nonempty, ?_⟩, allBlank, ?_⟩
      · intro c member
        rw [String.toList_ofList] at member
        exact List.mem_takeWhile_imp member
      · rw [String.toList_ofList, ← restEq, List.takeWhile_append_dropWhile]

end MessagePattern.Grammar
