import MessagePattern.Proofs.Grammar.Opening

/-!
# Faults

What a cause says about the place in the text at which a reader failed, and that it is true of the
readers of text, styles, openings and selectors.
-/

namespace MessagePattern

open Pattern Grammar

/-- Whether a cause fits a place in a text, given what stands before and after the place. -/
def Cause.Fits : Cause → (before after : List Char) → Prop
  | .unexpectedEndOfInput, _, after => after = []
  | .unterminatedQuote, _, after =>
    ∃ inside, after = '\'' :: inside ∧ ApostrophesPaired inside
  | .expected what, _, after =>
    (what = "a placeholder type" ∧ ∀ c ∈ after.head?, c = ',' ∨ c = '{' ∨ c = '}') ∨
      (what = "a selector" ∧ after.head? = some '{') ∨
      (what = "an opening brace" ∧ ∃ c ∈ after.head?, c ≠ '{' ∧ isBlank c = false)
  | .invalidCharacter c, _, after => after.head? = some c ∧ isBlank c = false
  | .emptyKey, _, after => ∀ c ∈ after.head?, c = ',' ∨ c = '{' ∨ c = '}'
  | .invalidOffset, before, after =>
    (∃ c ∈ before.getLast?, c.isDigit = false) ∧
      UInt32.size ≤ digitsValue (after.takeWhile Char.isDigit)
  | .duplicateSelector selector, before, after =>
    IsWord isSelectorChar selector ∧ selector.toList <+: after ∧ selector.toList <:+: before
  | .missingSubmessages, _, after | .unmatchedClosingBrace, _, after => after.head? = some '}'

/-- A cause still fits if more text stands before the place. -/
theorem Cause.Fits.prepend
    {cause : Cause} {before after : List Char}
    (fits : cause.Fits before after) (earlier : List Char) :
    cause.Fits (earlier ++ before) after := by
  cases cause with
  | invalidOffset =>
      obtain ⟨⟨c, isLast, notDigit⟩, tooLarge⟩ := fits
      refine ⟨⟨c, ?_, notDigit⟩, tooLarge⟩
      rw [Option.mem_def, List.getLast?_append, Option.mem_def.mp isLast]
      rfl
  | duplicateSelector selector =>
      obtain ⟨isWord, isNext, occurs⟩ := fits
      exact ⟨isWord, isNext, occurs.trans (List.suffix_append earlier before).isInfix⟩
  | _ =>
      exact fits

/-- No cause is about a blank. -/
theorem Cause.Fits.not_blank
    {cause : Cause} {before after : List Char}
    (fits : cause.Fits before after) :
    ∀ c ∈ after.head?, isBlank c = false := by
  have ofPunctuation :
      (∀ c ∈ after.head?, c = ',' ∨ c = '{' ∨ c = '}') →
        ∀ c ∈ after.head?, isBlank c = false := by
    intro punctuation c first
    rcases punctuation c first with rfl | rfl | rfl <;> decide
  have ofFirst :
      ∀ {d}, after.head? = some d → isBlank d = false → ∀ c ∈ after.head?, isBlank c = false := by
    rintro d first notBlank c isFirst
    rw [first] at isFirst
    cases isFirst
    exact notBlank
  cases cause with
  | unexpectedEndOfInput =>
      simp [show after = [] from fits]
  | unterminatedQuote =>
      obtain ⟨inside, rfl, _⟩ := fits
      exact ofFirst rfl (by decide)
  | expected what =>
      rcases fits with ⟨_, punctuation⟩ | ⟨_, first⟩ | ⟨_, c, first, _, notBlank⟩
      · exact ofPunctuation punctuation
      · exact ofFirst first (by decide)
      · exact ofFirst first notBlank
  | invalidCharacter c =>
      exact ofFirst fits.1 fits.2
  | emptyKey =>
      exact ofPunctuation fits
  | invalidOffset =>
      intro c first
      obtain ⟨tail, rfl⟩ := List.head?_eq_some_iff.mp first
      refine not_blank_of_isDigit ?_
      by_contra notDigit
      have tooLarge := fits.2
      simp [notDigit, digitsValue, UInt32.size] at tooLarge
  | duplicateSelector selector =>
      obtain ⟨isWord, ⟨rest, rfl⟩, _⟩ := fits
      intro c first
      have inside := forall_first (isWord.exists_first rest) c first
      by_contra blank
      rw [Bool.not_eq_false] at blank
      rw [isSelectorChar_of_isBlank blank] at inside
      cases inside
  | missingSubmessages =>
      exact ofFirst fits (by decide)
  | unmatchedClosingBrace =>
      exact ofFirst fits (by decide)

/-- Few causes are about the end of a text. -/
theorem Cause.Fits.cases_of_end
    {cause : Cause} {before : List Char}
    (fits : cause.Fits before []) :
    cause = .unexpectedEndOfInput ∨ cause = .emptyKey ∨ cause = .expected "a placeholder type" := by
  cases cause with
  | unexpectedEndOfInput =>
      exact Or.inl rfl
  | emptyKey =>
      exact Or.inr (Or.inl rfl)
  | expected what =>
      rcases fits with ⟨rfl, _⟩ | ⟨_, first⟩ | ⟨_, _, first, _⟩
      · exact Or.inr (Or.inr rfl)
      · cases first
      · cases first
  | unterminatedQuote =>
      obtain ⟨_, equality, _⟩ := fits
      cases equality
  | invalidCharacter c =>
      cases fits.1
  | invalidOffset =>
      have noValue : ¬ UInt32.size ≤ digitsValue [] := by decide
      exact absurd fits.2 noValue
  | duplicateSelector selector =>
      obtain ⟨isWord, isNext, _⟩ := fits
      exact absurd (List.prefix_nil.mp isNext) isWord.nonempty
  | missingSubmessages =>
      cases fits
  | unmatchedClosingBrace =>
      cases fits

/-! ## Truthful readings -/

/-- Whether the reading of a text that stands after `earlier` leaves an end of the text and, if it
fails, does so at a place in the text that the cause fits. A value that is read, with what is left, is
`Good`. -/
def Reading.IsTruthful {α : Type} (earlier input : List Char) (Good : α → List Char → Prop) :
    Reading α → Prop
  | .done value rest => rest <:+ input ∧ Good value rest
  | .failed cause place rest =>
    rest <:+ place ∧ ∃ before, input = before ++ place ∧ cause.Fits (earlier ++ before) place

namespace Reading.IsTruthful

variable {α β : Type} {earlier input : List Char} {reading : Reading α}
  {Good Better : α → List Char → Prop} {GoodNext : β → List Char → Prop}

theorem stop
    {cause : Cause}
    (fits : cause.Fits [] input) :
    (Reading.stop cause input : Reading α).IsTruthful earlier input Good :=
  ⟨List.suffix_rfl, [], rfl, fits.prepend earlier⟩

/-- The place may be told by a shorter text that ends alike. -/
theorem within
    {consumed middle : List Char}
    (truthful : reading.IsTruthful (earlier ++ consumed) middle Good)
    (split : input = consumed ++ middle) :
    reading.IsTruthful earlier input Good := by
  subst split
  cases reading with
  | done value rest =>
      exact ⟨truthful.1.trans (List.suffix_append consumed middle), truthful.2⟩
  | failed cause place rest =>
      obtain ⟨isEnd, before, rfl, fits⟩ := truthful
      exact ⟨isEnd, consumed ++ before, by simp, by simpa using fits⟩

theorem ofSuffix
    {middle : List Char}
    (truthful : ∀ earlier, reading.IsTruthful earlier middle Good)
    (isEnd : middle <:+ input) :
    reading.IsTruthful earlier input Good := by
  obtain ⟨consumed, rfl⟩ := isEnd
  exact (truthful (earlier ++ consumed)).within rfl

theorem mono
    (truthful : reading.IsTruthful earlier input Good)
    (better : ∀ value rest, reading = .done value rest → Good value rest → Better value rest) :
    reading.IsTruthful earlier input Better := by
  cases reading with
  | done value rest =>
      exact ⟨truthful.1, better value rest rfl truthful.2⟩
  | failed cause place rest =>
      exact truthful

/-- What is left is an end of the text, which may matter for what follows. -/
theorem andSuffix
    (truthful : reading.IsTruthful earlier input Good) :
    reading.IsTruthful earlier input fun value rest => rest <:+ input ∧ Good value rest := by
  cases reading with
  | done value rest =>
      exact ⟨truthful.1, truthful⟩
  | failed cause place rest =>
      exact truthful

theorem map
    {f : α → β}
    (truthful : reading.IsTruthful earlier input Good)
    (goodNext : ∀ value rest, Good value rest → GoodNext (f value) rest) :
    (reading.map f).IsTruthful earlier input GoodNext := by
  cases reading with
  | done value rest =>
      exact ⟨truthful.1, goodNext value rest truthful.2⟩
  | failed cause place rest =>
      exact truthful

theorem andThen
    {next : α → List Char → Reading β}
    (truthful : reading.IsTruthful earlier input Good)
    (truthfulNext : ∀ value middle,
      middle <:+ input → Good value middle → (next value middle).IsTruthful earlier input GoodNext) :
    (reading.andThen next).IsTruthful earlier input GoodNext := by
  cases reading with
  | done value middle =>
      exact truthfulNext value middle truthful.1 truthful.2
  | failed cause place rest =>
      exact truthful

/-- Nothing that a truthful reading leaves was put back. -/
theorem rest_suffix
    (truthful : reading.IsTruthful earlier input Good) :
    reading.rest <:+ input := by
  cases reading with
  | done value rest =>
      exact truthful.1
  | failed cause place rest =>
      obtain ⟨isEnd, before, rfl, _⟩ := truthful
      exact isEnd.trans (List.suffix_append before place)

end Reading.IsTruthful

namespace Pattern

theorem skipBlanks_suffix (text : List Char) :
    skipBlanks text <:+ text :=
  List.dropWhile_suffix isBlank

/-- Whether a quoted part that begins with `opening` is still open where `input` is left. -/
def QuoteOpen (opening input : List Char) : Prop :=
  ∃ inside, opening = '\'' :: (inside ++ input) ∧
    ∀ tail, ApostrophesPaired tail → ApostrophesPaired (inside ++ tail)

namespace QuoteOpen

variable {opening rest : List Char}

theorem start (input : List Char) :
    QuoteOpen ('\'' :: input) input :=
  ⟨[], rfl, fun _ paired => paired⟩

theorem char
    {c : Char}
    (isOpen : QuoteOpen opening (c :: rest))
    (notApostrophe : c ≠ '\'') :
    QuoteOpen opening rest := by
  obtain ⟨inside, rfl, extends'⟩ := isOpen
  refine ⟨inside ++ [c], by simp, fun tail paired => ?_⟩
  rw [List.append_assoc]
  exact extends' _ (paired.cons notApostrophe)

theorem doubled
    (isOpen : QuoteOpen opening ('\'' :: '\'' :: rest)) :
    QuoteOpen opening rest := by
  obtain ⟨inside, rfl, extends'⟩ := isOpen
  refine ⟨inside ++ ['\'', '\''], by simp, fun tail paired => ?_⟩
  rw [List.append_assoc]
  exact extends' _ paired.doubled

theorem suffix
    {input : List Char}
    (isOpen : QuoteOpen opening input) :
    input <:+ opening := by
  obtain ⟨inside, rfl, _⟩ := isOpen
  exact ⟨'\'' :: inside, rfl⟩

/-- A quoted part that is open at the end of the text is one that nothing closes. -/
theorem fits
    (isOpen : QuoteOpen opening []) (before : List Char) :
    Cause.unterminatedQuote.Fits before opening := by
  obtain ⟨inside, rfl, extends'⟩ := isOpen
  exact ⟨inside ++ [], rfl, extends' [] apostrophesPaired_nil⟩

end QuoteOpen

theorem readText_isTruthful
    (context : Context) (quote : Option (List Char)) (input : List Char)
    (isOpen : ∀ opening ∈ quote, QuoteOpen opening input) (earlier : List Char) :
    (readText context quote input).IsTruthful earlier (quote.getD input)
      fun _ rest => ∀ c ∈ rest.head?, context.isSyntax c = true := by
  fun_induction readText context quote input generalizing earlier with
  | case1 =>
      exact ⟨List.suffix_rfl, by simp⟩
  | case2 opening =>
      exact ⟨List.nil_suffix, [], rfl, (isOpen opening rfl).fits _⟩
  | case3 quote rest inductionHypothesis =>
      refine .map ?_ fun _ _ good => good
      cases quote with
      | none =>
          exact .ofSuffix (inductionHypothesis (by simp)) ⟨['\'', '\''], rfl⟩
      | some opening =>
          exact inductionHypothesis (fun _ isQuote => (isOpen _ isQuote).doubled) earlier
  | case4 opening rest _ inductionHypothesis =>
      have isEnd := (List.suffix_cons '\'' rest).trans (isOpen opening rfl).suffix
      exact .ofSuffix (inductionHypothesis (by simp)) isEnd
  | case5 =>
      exact ⟨List.nil_suffix, by simp⟩
  | case6 c rest _ isSyntax inductionHypothesis =>
      exact inductionHypothesis (by rintro _ ⟨⟩; exact .start _) earlier
  | case7 c rest _ notSyntax inductionHypothesis =>
      exact .map (.ofSuffix (inductionHypothesis (by simp)) ⟨['\''], rfl⟩) fun _ _ good => good
  | case8 opening c rest _ notApostrophe inductionHypothesis =>
      refine .map ?_ fun _ _ good => good
      exact inductionHypothesis (fun _ isQuote => (isOpen _ isQuote).char notApostrophe) earlier
  | case9 c rest _ _ _ isSyntax =>
      exact ⟨List.suffix_rfl, by simpa using isSyntax⟩
  | case10 c rest _ _ _ notSyntax inductionHypothesis =>
      exact .map (.ofSuffix (inductionHypothesis (by simp)) ⟨[c], rfl⟩) fun _ _ good => good

theorem readStyleText_isTruthful
    (quote : Option (List Char)) (input : List Char)
    (isOpen : ∀ opening ∈ quote, QuoteOpen opening input) (earlier : List Char) :
    (readStyleText quote input).IsTruthful earlier (quote.getD input)
      fun _ rest => ∀ c ∈ rest.head?, c = '}' := by
  fun_induction readStyleText quote input generalizing earlier with
  | case1 =>
      exact ⟨List.suffix_rfl, by simp⟩
  | case2 opening =>
      exact ⟨List.nil_suffix, [], rfl, (isOpen opening rfl).fits _⟩
  | case3 quote rest inductionHypothesis =>
      refine .map ?_ fun _ _ good => good
      cases quote with
      | none =>
          exact .ofSuffix (inductionHypothesis (by simp)) ⟨['\'', '\''], rfl⟩
      | some opening =>
          exact inductionHypothesis (fun _ isQuote => (isOpen _ isQuote).doubled) earlier
  | case4 opening rest _ inductionHypothesis =>
      have isEnd := (List.suffix_cons '\'' rest).trans (isOpen opening rfl).suffix
      exact .ofSuffix (inductionHypothesis (by simp)) isEnd
  | case5 rest _ inductionHypothesis =>
      exact inductionHypothesis (by rintro _ ⟨⟩; exact .start _) earlier
  | case6 opening c rest _ notApostrophe inductionHypothesis =>
      refine .map ?_ fun _ _ good => good
      exact inductionHypothesis (fun _ isQuote => (isOpen _ isQuote).char notApostrophe) earlier
  | case7 rest =>
      exact ⟨List.suffix_rfl, by simp⟩
  | case8 rest =>
      exact .stop ⟨rfl, by decide⟩
  | case9 c rest _ _ _ _ inductionHypothesis =>
      exact .map (.ofSuffix (inductionHypothesis (by simp)) ⟨[c], rfl⟩) fun _ _ good => good

theorem readStyle_isTruthful (input earlier : List Char) :
    (readStyle input).IsTruthful earlier input fun _ rest => ∀ c ∈ rest.head?, c = '}' :=
  .ofSuffix (readStyleText_isTruthful none _ (by simp)) (skipBlanks_suffix input)

/-! ## Openings -/

theorem expect_isTruthful
    {c : Char} {what : String} {input : List Char} (earlier : List Char)
    (fits : (∃ d ∈ input.head?, d ≠ c) → (Cause.expected what).Fits [] input) :
    (expect c what input).IsTruthful earlier input fun _ rest => input = c :: rest := by
  cases input with
  | nil =>
      exact .stop rfl
  | cons d rest =>
      rw [expect]
      split
      · next same =>
          exact ⟨List.suffix_cons d rest, by rw [same]⟩
      · next different =>
          exact .stop (fits ⟨d, rfl, different⟩)

/-- What has to be a closing brace is one, where a reader stops at nothing else. -/
theorem expect_brace_isTruthful
    {what : String} {input : List Char} (earlier : List Char)
    (stops : ∀ c ∈ input.head?, c = '}') :
    (expect '}' what input).IsTruthful earlier input fun _ rest => input = '}' :: rest := by
  refine expect_isTruthful earlier ?_
  rintro ⟨c, first, different⟩
  exact absurd (stops c first) different

theorem stopUnfinished_isTruthful
    {α : Type} {input : List Char} {Good : α → List Char → Prop} (earlier : List Char)
    (notBlank : ∀ c ∈ input.head?, isBlank c = false) :
    (stopUnfinished input : Reading α).IsTruthful earlier input Good := by
  cases input with
  | nil =>
      exact .stop rfl
  | cons c rest =>
      exact .stop ⟨rfl, notBlank c rfl⟩

/-- Where a word is missing, there is punctuation or the end of the text. -/
theorem punctuation_of_takeWhile_eq_nil
    {input : List Char}
    (noWord : (skipBlanks input).takeWhile isTokenChar = []) :
    ∀ c ∈ ((skipBlanks input).dropWhile isTokenChar).head?, c = ',' ∨ c = '{' ∨ c = '}' := by
  intro c first
  have notWordChar := eq_false_of_mem_head?_dropWhile first
  have same : (skipBlanks input).dropWhile isTokenChar = skipBlanks input := by
    simpa [noWord] using List.takeWhile_append_dropWhile (p := isTokenChar) (l := skipBlanks input)
  rw [same] at first
  have notBlank := not_blank_of_mem_head?_skipBlanks first
  by_contra notPunctuation
  simp only [not_or] at notPunctuation
  simp [isTokenChar, notBlank, notPunctuation] at notWordChar

theorem readOffset_isTruthful (input earlier : List Char) :
    (readOffset input).IsTruthful earlier input fun _ _ => True := by
  unfold readOffset
  split
  · exact ⟨List.suffix_rfl, trivial⟩
  · next digits clause =>
      obtain ⟨blanks, digit, rest, allBlank, isDigit, rfl, rfl⟩ := offsetDigits?_eq_some_iff.mp clause
      dsimp only
      split
      · refine ⟨?_, trivial⟩
        exact (List.dropWhile_suffix _).trans (List.suffix_append _ _)
      · next tooLarge =>
          refine ⟨List.suffix_rfl, offsetMark ++ blanks, rfl, .prepend ?_ earlier⟩
          refine ⟨?_, Nat.le_of_not_lt tooLarge⟩
          cases last : blanks.getLast? with
          | none =>
              exact ⟨':', by simp [List.getLast?_append, last]; decide, by decide⟩
          | some c =>
              refine ⟨c, by simp [List.getLast?_append, last], ?_⟩
              by_contra digit
              rw [Bool.not_eq_false] at digit
              have blank := allBlank c (List.mem_of_getLast? last)
              rw [not_blank_of_isDigit digit] at blank
              cases blank

/-- What is true of what an opening leaves: a placeholder without branches ends before it. -/
def Opening.IsEndedIn (input : List Char) : Opening → List Char → Prop
  | .closed _, rest => '}' :: rest <:+ input
  | _, _ => True

theorem Opening.IsEndedIn.ofSuffix
    {opening : Opening} {middle input rest : List Char}
    (ended : opening.IsEndedIn middle rest)
    (isEnd : middle <:+ input) :
    opening.IsEndedIn input rest := by
  cases opening with
  | closed node =>
      exact List.IsSuffix.trans ended isEnd
  | plural key kind offset =>
      trivial
  | select key =>
      trivial

theorem readDetail_isTruthful (key type : String) (input earlier : List Char) :
    (readDetail key type input).IsTruthful earlier input (Opening.IsEndedIn input) := by
  unfold readDetail
  split
  · have truthful :
        (readOffset (skipBlanks input)).IsTruthful earlier input fun _ _ => True :=
      .ofSuffix (readOffset_isTruthful _) (skipBlanks_suffix input)
    exact truthful.map fun _ _ _ => trivial
  · split
    · exact ⟨List.suffix_rfl, trivial⟩
    · refine .andThen (readStyle_isTruthful input earlier) fun style middle isEnd stops => ?_
      refine .map (.ofSuffix (expect_brace_isTruthful · stops) isEnd) ?_
      rintro _ rest rfl
      exact isEnd

/-- Reads a word between blanks, and goes on after the closing brace or the comma behind it. -/
def readWord (missing : Cause) (closed comma : List Char → List Char → Reading Opening)
    (input : List Char) : Reading Opening :=
  let start := skipBlanks input
  let word := start.takeWhile isTokenChar
  let rest := start.dropWhile isTokenChar
  if word.isEmpty then .stop missing rest
  else
    match skipBlanks rest with
    | '}' :: rest => closed word rest
    | ',' :: rest => comma word rest
    | rest => stopUnfinished rest

/-- Keys and types are read alike. -/
theorem readOpening_eq_readWord (input : List Char) :
    readOpening input =
      readWord .emptyKey (fun key rest => .done (.closed (.argument (.ofList key))) rest)
        (fun key => readType (.ofList key)) input := rfl

theorem readType_eq_readWord (key : String) (input : List Char) :
    readType key input =
      readWord (.expected "a placeholder type")
        (fun type rest =>
          if (PluralKind.ofType? (.ofList type)).isSome || String.ofList type = "select" then
            .stop .missingSubmessages ('}' :: rest)
          else .done (.closed (.styled key (.ofList type) none)) rest)
        (fun type => readDetail key (.ofList type)) input := rfl

theorem readWord_isTruthful
    {missing : Cause} {closed comma : List Char → List Char → Reading Opening}
    (fits : ∀ {after}, (∀ c ∈ after.head?, c = ',' ∨ c = '{' ∨ c = '}') → missing.Fits [] after)
    (closedTruthful : ∀ word rest earlier,
      (closed word rest).IsTruthful earlier ('}' :: rest) (Opening.IsEndedIn ('}' :: rest)))
    (commaTruthful : ∀ word rest earlier,
      (comma word rest).IsTruthful earlier rest (Opening.IsEndedIn rest))
    (input earlier : List Char) :
    (readWord missing closed comma input).IsTruthful earlier input (Opening.IsEndedIn input) := by
  have wordEnd : (skipBlanks input).dropWhile isTokenChar <:+ input :=
    (List.dropWhile_suffix isTokenChar).trans (skipBlanks_suffix input)
  have isEnd := (skipBlanks_suffix _).trans wordEnd
  unfold readWord
  dsimp only
  split
  · next noWord =>
      have punctuation := punctuation_of_takeWhile_eq_nil (List.isEmpty_iff.mp noWord)
      exact .ofSuffix (fun _ => .stop (fits punctuation)) wordEnd
  · split
    · next rest equality =>
        rw [equality] at isEnd
        exact .mono (.ofSuffix (closedTruthful _ rest) isEnd)
          fun _ _ _ ended => ended.ofSuffix isEnd
    · next rest equality =>
        rw [equality] at isEnd
        have isEnd := (List.suffix_cons ',' rest).trans isEnd
        exact .mono (.ofSuffix (commaTruthful _ rest) isEnd)
          fun _ _ _ ended => ended.ofSuffix isEnd
    · exact .ofSuffix
        (stopUnfinished_isTruthful · fun _ => not_blank_of_mem_head?_skipBlanks) isEnd

theorem readType_isTruthful (key : String) (input earlier : List Char) :
    (readType key input).IsTruthful earlier input (Opening.IsEndedIn input) := by
  rw [readType_eq_readWord]
  refine readWord_isTruthful ?_ ?_ ?_ input earlier
  · exact fun punctuation => Or.inl ⟨rfl, punctuation⟩
  · intro type rest earlier
    split
    · exact .stop rfl
    · exact ⟨List.suffix_cons '}' rest, List.suffix_rfl⟩
  · exact fun type => readDetail_isTruthful key (.ofList type)

theorem readOpening_isTruthful (input earlier : List Char) :
    (readOpening input).IsTruthful earlier input (Opening.IsEndedIn input) := by
  rw [readOpening_eq_readWord]
  refine readWord_isTruthful ?_ ?_ ?_ input earlier
  · exact fun punctuation => punctuation
  · exact fun key rest _ => ⟨List.suffix_cons '}' rest, List.suffix_rfl⟩
  · exact fun key => readType_isTruthful (.ofList key)

theorem readSelector_isTruthful
    {c : Char} {tail : List Char} (earlier : List Char)
    (notBlank : isBlank c = false)
    (notClosing : c ≠ '}') :
    (readSelector (c :: tail)).IsTruthful earlier (c :: tail) fun _ _ => True := by
  have isEnd := List.dropWhile_suffix isSelectorChar (l := c :: tail)
  unfold readSelector
  dsimp only
  split
  · next noWord =>
      refine .ofSuffix (fun _ => .stop (Or.inr (Or.inl ⟨rfl, ?_⟩))) isEnd
      have notSelector : isSelectorChar c = false := by
        by_contra isSelector
        simp [isSelector] at noWord
      have isOpening : c = '{' := by simpa [isSelectorChar, notBlank, notClosing] using notSelector
      rw [List.dropWhile_cons_of_neg (by simp [notSelector]), isOpening]
      rfl
  · refine .map (.ofSuffix (expect_isTruthful · ?_) ((skipBlanks_suffix _).trans isEnd))
      fun _ _ _ => trivial
    rintro ⟨d, first, different⟩
    exact Or.inr (Or.inr ⟨rfl, d, first, different, not_blank_of_mem_head?_skipBlanks first⟩)

end Pattern

end MessagePattern
