import MessagePattern.Proofs.Pattern.Rejection

/-!
# More text

What a reader made of a text stays when more text is put behind it, unless the reader came to the
end of the text and was not done there. So an error which is not about the end of a pattern is the
error of every longer pattern.
-/

namespace MessagePattern

namespace Reading

variable {α β : Type} {more : List Char}

/-- Whether more text could change a reading: a failure at the end of the text or in a quoted part
that nothing closes, or a value that is `Open` with what is left. -/
def IsOpen (Open : α → List Char → Prop) : Reading α → Prop
  | done value rest => Open value rest
  | failed cause place _ => place = [] ∨ cause = .unterminatedQuote

/-- Open with no value. -/
def Never {α : Type} (_ : α) (_ : List Char) : Prop :=
  False

/-- Open with any value that the text ends with. -/
def AtEnd {α : Type} (_ : α) (rest : List Char) : Prop :=
  rest = []

theorem IsOpen.andThen
    {reading : Reading α} {OpenNext : β → List Char → Prop}
    (isOpen : reading.IsOpen Never) (next : α → List Char → Reading β) :
    (reading.andThen next).IsOpen OpenNext := by
  cases reading with
  | done value rest =>
      exact isOpen.elim
  | failed cause place rest =>
      exact isOpen

/-- The same reading with more text behind what is left. -/
def append (more : List Char) : Reading α → Reading α
  | done value rest => done value (rest ++ more)
  | failed cause place rest => failed cause (place ++ more) (rest ++ more)

/-- Whether the reading of a text is open or also that of the text with more behind it. -/
def Persists (Open : α → List Char → Prop) (more : List Char) (reading longer : Reading α) : Prop :=
  reading.IsOpen Open ∨ longer = reading.append more

namespace Persists

variable {Open : α → List Char → Prop} {OpenNext : β → List Char → Prop}
  {reading longer : Reading α}

theorem done (value : α) (rest : List Char) :
    Persists Open more (.done value rest) (.done value (rest ++ more)) :=
  Or.inr rfl

theorem stop (cause : Cause) (input : List Char) :
    Persists Open more (.stop cause input) (.stop cause (input ++ more)) :=
  Or.inr rfl

theorem map
    {f : α → β}
    (persists : Persists Open more reading longer)
    (staysOpen : ∀ value rest, Open value rest → OpenNext (f value) rest) :
    Persists OpenNext more (reading.map f) (longer.map f) := by
  rcases persists with isOpen | rfl
  · left
    cases reading with
    | done value rest =>
        exact staysOpen value rest isOpen
    | failed cause place rest =>
        exact isOpen
  · right
    cases reading <;> rfl

/-- What follows a reading persists with it, if it is open wherever the reading is. -/
theorem andThen
    {next nextLonger : α → List Char → Reading β}
    (persists : Persists Open more reading longer)
    (openNext : ∀ value rest, reading = .done value rest → Open value rest →
      (next value rest).IsOpen OpenNext)
    (persistsNext : ∀ value rest, reading = .done value rest →
      Persists OpenNext more (next value rest) (nextLonger value (rest ++ more))) :
    Persists OpenNext more (reading.andThen next) (longer.andThen nextLonger) := by
  rcases persists with isOpen | rfl
  · left
    cases reading with
    | done value rest =>
        exact openNext value rest rfl isOpen
    | failed cause place rest =>
        exact isOpen
  · cases reading with
    | done value rest =>
        exact persistsNext value rest rfl
    | failed cause place rest =>
        exact Or.inr rfl

end Persists

end Reading

section Runs

variable {isInside : Char → Bool} {text : List Char}

/-- A run that ends within a text ends at the same place with more text behind. -/
theorem run_append_of_ends
    (more : List Char)
    (ends : text.dropWhile isInside ≠ []) :
    (text ++ more).takeWhile isInside = text.takeWhile isInside ∧
      (text ++ more).dropWhile isInside = text.dropWhile isInside ++ more := by
  have whole := List.takeWhile_append_dropWhile (p := isInside) (l := text)
  have inside : ∀ c ∈ text.takeWhile isInside, isInside c = true :=
    fun c member => List.mem_takeWhile_imp member
  have stops : ∀ c ∈ (text.dropWhile isInside ++ more).head?, isInside c = false := by
    intro c first
    obtain ⟨d, tail, equality⟩ := List.exists_cons_of_ne_nil ends
    have isFirst : c ∈ (text.dropWhile isInside).head? := by
      rw [equality] at first ⊢
      exact first
    exact eq_false_of_mem_head?_dropWhile isFirst
  have regrouped :
      text ++ more = text.takeWhile isInside ++ (text.dropWhile isInside ++ more) := by
    rw [← List.append_assoc, whole]
  rw [regrouped]
  exact ⟨takeWhile_run_append inside stops, dropWhile_run_append inside stops⟩

theorem skipBlanks_append_of_ne_nil
    (more : List Char)
    (ends : skipBlanks text ≠ []) :
    skipBlanks (text ++ more) = skipBlanks text ++ more :=
  (run_append_of_ends more ends).2

end Runs

namespace Pattern

open Grammar Reading

theorem readText_persists
    (context : Context) (quote : Option (List Char)) (input more : List Char) :
    Persists AtEnd more (readText context quote input)
      (readText context (quote.map (· ++ more)) (input ++ more)) := by
  fun_induction readText context quote input with
  | case1 =>
      exact Or.inl rfl
  | case2 opening =>
      exact Or.inl (Or.inr rfl)
  | case3 quote rest inductionHypothesis =>
      rw [List.cons_append, List.cons_append, readText_doubled]
      exact inductionHypothesis.map fun _ _ isOpen => isOpen
  | case4 opening rest notDoubled inductionHypothesis =>
      cases rest with
      | nil =>
          exact Or.inl rfl
      | cons c tail =>
          have closes : (c :: tail ++ more).head? ≠ some '\'' := fun first =>
            head?_ne_of_ne_cons notDoubled first
          rw [Option.map_some, List.cons_append, readText_closing closes]
          exact inductionHypothesis
  | case5 =>
      exact Or.inl rfl
  | case6 c rest notApostrophe isSyntax inductionHypothesis =>
      rw [Option.map_none, List.cons_append, List.cons_append, readText_opening isSyntax]
      exact inductionHypothesis
  | case7 c rest notDoubled notSyntax inductionHypothesis =>
      have isLone :
          ∀ d ∈ (c :: (rest ++ more)).head?, d ≠ '\'' ∧ context.isSyntax d = false := by
        rintro d ⟨⟩
        exact ⟨notDoubled, by simpa using notSyntax⟩
      rw [Option.map_none, List.cons_append, List.cons_append, readText_lone isLone]
      exact inductionHypothesis.map fun _ _ isOpen => isOpen
  | case8 opening c rest _ notApostrophe inductionHypothesis =>
      rw [Option.map_some, List.cons_append, readText_quotedChar notApostrophe]
      exact inductionHypothesis.map fun _ _ isOpen => isOpen
  | case9 c rest _ _ _ isSyntax =>
      have stops : ∀ d ∈ (c :: (rest ++ more)).head?, context.isSyntax d = true := by
        simpa using isSyntax
      rw [Option.map_none, List.cons_append, readText_stop stops]
      exact .done [] (c :: rest)
  | case10 c rest _ notLast notBefore notSyntax inductionHypothesis =>
      have notApostrophe : c ≠ '\'' := by
        intro isApostrophe
        cases rest with
        | nil =>
            exact notLast isApostrophe rfl
        | cons d tail =>
            exact notBefore d tail isApostrophe rfl
      rw [Option.map_none, List.cons_append,
        readText_char notApostrophe (by simpa using notSyntax)]
      exact inductionHypothesis.map fun _ _ isOpen => isOpen

theorem readStyleText_persists
    (quote : Option (List Char)) (input more : List Char) :
    Persists AtEnd more (readStyleText quote input)
      (readStyleText (quote.map (· ++ more)) (input ++ more)) := by
  fun_induction readStyleText quote input with
  | case1 =>
      exact Or.inl rfl
  | case2 opening =>
      exact Or.inl (Or.inr rfl)
  | case3 quote rest inductionHypothesis =>
      rw [List.cons_append, List.cons_append, readStyleText_doubled]
      exact inductionHypothesis.map fun _ _ isOpen => isOpen
  | case4 opening rest notDoubled inductionHypothesis =>
      cases rest with
      | nil =>
          exact Or.inl rfl
      | cons c tail =>
          have closes : (c :: tail ++ more).head? ≠ some '\'' := fun first =>
            head?_ne_of_ne_cons notDoubled first
          rw [Option.map_some, List.cons_append, readStyleText_closing closes]
          exact inductionHypothesis
  | case5 rest notDoubled inductionHypothesis =>
      cases rest with
      | nil =>
          rw [readStyleText]
          exact Or.inl (Or.inr rfl)
      | cons c tail =>
          have opens : (c :: tail ++ more).head? ≠ some '\'' := fun first =>
            head?_ne_of_ne_cons notDoubled first
          rw [Option.map_none, List.cons_append, readStyleText_opening opens]
          exact inductionHypothesis
  | case6 opening c rest _ notApostrophe inductionHypothesis =>
      rw [Option.map_some, List.cons_append, readStyleText_quotedChar notApostrophe]
      exact inductionHypothesis.map fun _ _ isOpen => isOpen
  | case7 rest =>
      rw [Option.map_none, List.cons_append, readStyleText_brace]
      exact .done [] ('}' :: rest)
  | case8 rest =>
      rw [Option.map_none, List.cons_append, readStyleText]
      exact .stop _ ('{' :: rest)
  | case9 c rest _ notApostrophe notClosing notOpening inductionHypothesis =>
      rw [Option.map_none, List.cons_append,
        readStyleText_char notApostrophe notOpening notClosing]
      exact inductionHypothesis.map fun _ _ isOpen => isOpen

theorem readStyle_persists (input more : List Char) :
    Persists AtEnd more (readStyle input) (readStyle (input ++ more)) := by
  unfold readStyle
  by_cases blank : skipBlanks input = []
  · rw [blank, readStyleText_nil]
    exact Or.inl rfl
  · rw [skipBlanks_append_of_ne_nil more blank]
    exact readStyleText_persists none (skipBlanks input) more

theorem expect_persists (c : Char) (what : String) (input more : List Char) :
    Persists Never more (expect c what input) (expect c what (input ++ more)) := by
  cases input with
  | nil =>
      exact Or.inl (Or.inl rfl)
  | cons d rest =>
      rw [List.cons_append, expect, expect]
      split
      · exact .done () rest
      · exact .stop _ (d :: rest)

theorem stopUnfinished_persists
    {α : Type} {Open : α → List Char → Prop} (input more : List Char) :
    Persists Open more (stopUnfinished input) (stopUnfinished (input ++ more)) := by
  cases input with
  | nil =>
      exact Or.inl (Or.inl rfl)
  | cons c rest =>
      exact .stop _ (c :: rest)

/-- Whether branches that are to be read here come to the end of the text behind the first selector,
or before. -/
def EndsInSelector (input : List Char) : Prop :=
  skipBlanks ((skipBlanks input).dropWhile isSelectorChar) = []

/-- The opening of a plural or a select is open as long as no branch can be told from an offset
clause. -/
def Opening.IsOpen : Opening → List Char → Prop
  | .closed _, _ => False
  | _, rest => EndsInSelector rest

theorem digitsValue_le_append (digits more : List Char) :
    digitsValue digits ≤ digitsValue (digits ++ more) := by
  have grows :
      ∀ (digits : List Char) (value : Nat),
        value ≤ digits.foldl (fun value digit => 10 * value + (digit.toNat - '0'.toNat)) value := by
    intro digits
    induction digits with
    | nil =>
        exact Nat.le_refl
    | cons digit digits inductionHypothesis =>
        intro value
        have next := inductionHypothesis (10 * value + (digit.toNat - '0'.toNat))
        rw [List.foldl_cons]
        omega
  unfold digitsValue
  rw [List.foldl_append]
  exact grows more _

theorem isSelectorChar_of_mem_offsetMark :
    ∀ c ∈ offsetMark, isSelectorChar c = true := by
  have allInside : offsetMark.all isSelectorChar = true := by decide
  exact List.all_eq_true.mp allInside

/-- More text makes an offset clause only of what could be a selector. -/
theorem endsInSelector_of_beginsOffset
    {input more : List Char}
    (begins : BeginsOffset (input ++ more))
    (notBefore : ¬ BeginsOffset input) :
    EndsInSelector input := by
  obtain ⟨blanks, digit, tail, allBlank, isDigit, equality⟩ := begins
  have notBlank : skipBlanks input = input := by
    refine skipBlanks_of_head fun c first => ?_
    refine not_blank_of_mem_head?_offsetMark (blanks ++ digit :: tail) c ?_
    rw [← List.append_assoc, ← equality, List.head?_append, Option.mem_def.mp first]
    rfl
  have isFront : input <+: offsetMark ++ blanks := by
    rcases List.append_eq_append_iff.mp equality with ⟨rest, frontEq, _⟩ | ⟨rest, inputEq, digitEq⟩
    · exact ⟨rest, frontEq.symm⟩
    · cases rest with
      | nil =>
          exact ⟨[], by simp [inputEq]⟩
      | cons c rest =>
          obtain ⟨rfl, _⟩ : digit = c ∧ tail = rest ++ more := by simpa using digitEq
          exact absurd ⟨blanks, digit, rest, allBlank, isDigit, inputEq⟩ notBefore
  obtain ⟨rest, frontEq⟩ := isFront
  unfold EndsInSelector
  rw [notBlank]
  rcases List.append_eq_append_iff.mp frontEq with ⟨after, markEq, _⟩ | ⟨after, inputEq, blanksEq⟩
  · have allSelector : ∀ c ∈ input, isSelectorChar c = true := by
      intro c member
      refine isSelectorChar_of_mem_offsetMark c ?_
      rw [markEq]
      exact List.mem_append_left after member
    rw [List.dropWhile_eq_nil_iff.mpr allSelector]
    rfl
  · have afterBlank : AllBlank after := by
      intro c member
      refine allBlank c ?_
      rw [blanksEq]
      exact List.mem_append_left rest member
    have stops : ∀ c ∈ (after ++ []).head?, isSelectorChar c = false :=
      word_stops isSelectorChar_of_isBlank afterBlank (by simp)
    rw [inputEq, ← List.append_nil after,
      dropWhile_run_append isSelectorChar_of_mem_offsetMark stops, skipBlanks_append _ afterBlank]
    rfl

theorem readOffset_persists (input more : List Char) :
    Persists (fun _ rest => EndsInSelector rest) more (readOffset input)
      (readOffset (input ++ more)) := by
  unfold readOffset
  cases clause : offsetDigits? input with
  | none =>
      by_cases begins : BeginsOffset (input ++ more)
      · exact Or.inl (endsInSelector_of_beginsOffset begins (offsetDigits?_eq_none_iff.mp clause))
      · rw [offsetDigits?_eq_none_iff.mpr begins]
        exact .done 0 input
  | some digits =>
      obtain ⟨blanks, digit, rest, allBlank, isDigit, digitsEq, inputEq⟩ :=
        offsetDigits?_eq_some_iff.mp clause
      have longerClause : offsetDigits? (input ++ more) = some (digits ++ more) :=
        offsetDigits?_eq_some_iff.mpr
          ⟨blanks, digit, rest ++ more, allBlank, isDigit, by simp [digitsEq], by simp [inputEq]⟩
      rw [longerClause]
      dsimp only
      by_cases ends : digits.dropWhile Char.isDigit = []
      · have allDigits := List.dropWhile_eq_nil_iff.mp ends
        split
        · left
          rw [ends]
          rfl
        · next tooLarge =>
            have larger := digitsValue_le_append digits (more.takeWhile Char.isDigit)
            rw [List.takeWhile_eq_self_iff.mpr allDigits] at tooLarge
            rw [List.takeWhile_append_of_pos allDigits, if_neg (by omega)]
            exact .stop _ digits
      · obtain ⟨sameDigits, rest⟩ := run_append_of_ends more ends
        rw [sameDigits, rest]
        split
        · exact .done _ (digits.dropWhile Char.isDigit)
        · exact .stop _ digits

theorem readDetail_persists (key type : String) (input more : List Char) :
    Persists Opening.IsOpen more (readDetail key type input)
      (readDetail key type (input ++ more)) := by
  unfold readDetail
  split
  · next kind _ =>
      by_cases blank : skipBlanks input = []
      · left
        rw [blank]
        rfl
      · rw [skipBlanks_append_of_ne_nil more blank]
        exact (readOffset_persists (skipBlanks input) more).map fun _ _ isOpen => isOpen
  · split
    · exact .done _ input
    · refine (readStyle_persists input more).andThen ?_ ?_
      · rintro style rest _ rfl
        exact Or.inl rfl
      · intro style rest _
        exact (expect_persists _ _ rest more).map fun _ _ impossible => impossible

theorem readWord_persists
    {missing : Cause} {closed comma : List Char → List Char → Reading Opening} (input more : List Char)
    (closedPersists : ∀ word rest,
      Persists Opening.IsOpen more (closed word rest) (closed word (rest ++ more)))
    (commaPersists : ∀ word rest,
      Persists Opening.IsOpen more (comma word rest) (comma word (rest ++ more))) :
    Persists Opening.IsOpen more (readWord missing closed comma input)
      (readWord missing closed comma (input ++ more)) := by
  unfold readWord
  dsimp only
  by_cases ends : (skipBlanks input).dropWhile isTokenChar = []
  · left
    rw [ends]
    split
    · exact Or.inl rfl
    · exact Or.inl rfl
  · have nonempty : skipBlanks input ≠ [] := by
      intro empty
      simp [empty] at ends
    obtain ⟨sameWord, sameRest⟩ := run_append_of_ends more ends
    rw [skipBlanks_append_of_ne_nil more nonempty, sameWord, sameRest]
    split
    · exact .stop _ _
    · by_cases blank : skipBlanks ((skipBlanks input).dropWhile isTokenChar) = []
      · left
        rw [blank]
        exact Or.inl rfl
      · rw [skipBlanks_append_of_ne_nil more blank]
        split
        · next rest equality =>
            rw [equality]
            exact closedPersists _ rest
        · next rest equality =>
            rw [equality]
            exact commaPersists _ rest
        · next notClosing notComma =>
            -- Neither brace nor comma comes to the front, since there is another character.
            obtain ⟨c, rest, equality⟩ := List.exists_cons_of_ne_nil blank
            rw [equality, List.cons_append]
            split
            · next found =>
                cases found
                exact absurd equality (notClosing rest)
            · next found =>
                cases found
                exact absurd equality (notComma rest)
            · exact stopUnfinished_persists (c :: rest) more

theorem readType_persists (key : String) (input more : List Char) :
    Persists Opening.IsOpen more (readType key input) (readType key (input ++ more)) := by
  rw [readType_eq_readWord, readType_eq_readWord]
  refine readWord_persists input more ?_ ?_
  · intro type rest
    split
    · exact .stop _ ('}' :: rest)
    · exact .done _ rest
  · exact fun type rest => readDetail_persists key (.ofList type) rest more

theorem readOpening_persists (input more : List Char) :
    Persists Opening.IsOpen more (readOpening input) (readOpening (input ++ more)) := by
  rw [readOpening_eq_readWord, readOpening_eq_readWord]
  refine readWord_persists input more ?_ ?_
  · exact fun key rest => .done _ rest
  · exact fun key rest => readType_persists (.ofList key) rest more

theorem readSelector_persists (input more : List Char) :
    Persists Never more (readSelector input) (readSelector (input ++ more)) := by
  unfold readSelector
  dsimp only
  by_cases ends : input.dropWhile isSelectorChar = []
  · left
    rw [ends]
    split
    · exact Or.inl rfl
    · exact Or.inl rfl
  · obtain ⟨sameWord, sameRest⟩ := run_append_of_ends more ends
    rw [sameWord, sameRest]
    split
    · exact .stop _ _
    · by_cases blank : skipBlanks (input.dropWhile isSelectorChar) = []
      · left
        rw [blank]
        exact Or.inl rfl
      · rw [skipBlanks_append_of_ne_nil more blank]
        exact (expect_persists _ _ _ more).map fun _ _ impossible => impossible

/-! ## Messages, placeholders and branches -/

def MessagePersists (context : Context) (input : List Char) : Prop :=
  ∀ more, Persists AtEnd more (readMessage context input) (readMessage context (input ++ more))

def PlaceholderPersists (input : List Char) : Prop :=
  ∀ more, Persists Never more (readPlaceholderBody input) (readPlaceholderBody (input ++ more))

def BranchesPersist (context : Context) (seen : List String) (input : List Char) : Prop :=
  ∀ more,
    Persists Never more (readBranchesAfter context seen input)
      (readBranchesAfter context seen (input ++ more))

theorem messagePersists_step
    {context : Context} {input : List Char}
    (placeholders : ∀ shorter, shorter.length < input.length → PlaceholderPersists shorter)
    (messages : ∀ shorter, shorter.length < input.length → MessagePersists context shorter) :
    MessagePersists context input := by
  intro more
  cases input with
  | nil =>
      left
      rw [readMessage_nil]
      rfl
  | cons c tail =>
      have restPersists :
          ∀ {middle} (f : Message → Message),
            middle.length < (c :: tail).length →
            Persists AtEnd more ((readMessage context middle).map f)
              ((readMessage context (middle ++ more)).map f) :=
        fun f shorter => (messages _ shorter more).map fun _ _ isOpen => isOpen
      rw [List.cons_append, readMessage_cons, readMessage_cons]
      split
      · exact .done [] (c :: tail)
      · split
        · refine (placeholders tail (by simp) more).andThen (fun _ _ _ never => never.elim) ?_
          intro node middle found
          exact restPersists _ (Nat.lt_succ_of_le (length_le_of_readPlaceholderBody found))
        · split
          · next isText =>
              refine (readText_persists context none (c :: tail) more).andThen ?_ ?_
              · rintro text _ _ rfl
                rw [readMessage_nil]
                exact rfl
              · intro text middle found
                have shorter := readText_rest_length_lt context c tail isText
                rw [found] at shorter
                exact restPersists _ shorter
          · exact restPersists _ (by simp)

theorem isOpen_readSelector
    {input : List Char}
    (notBlank : ∀ c ∈ input.head?, isBlank c = false)
    (ends : skipBlanks (input.dropWhile isSelectorChar) = []) :
    (readSelector input).IsOpen Never := by
  unfold readSelector
  dsimp only
  split
  · next noWord =>
      left
      have same : input.dropWhile isSelectorChar = input := by
        simpa [List.isEmpty_iff.mp noWord] using
          List.takeWhile_append_dropWhile (p := isSelectorChar) (l := input)
      rw [same, skipBlanks_of_head notBlank] at ends
      rw [same]
      exact ends
  · rw [ends]
    exact Or.inl rfl

/-- Branches of which the text has only a beginning of the first selector are open. -/
theorem isOpen_readBranches
    {input : List Char} (context : Context)
    (ends : EndsInSelector input) :
    (readBranches context input).IsOpen Never := by
  have notBlank : ∀ c ∈ (skipBlanks input).head?, isBlank c = false :=
    fun _ => not_blank_of_mem_head?_skipBlanks
  unfold EndsInSelector at ends
  unfold readBranches
  cases start : skipBlanks input with
  | nil =>
      rw [readBranchesAfter_nil]
      exact Or.inl rfl
  | cons c tail =>
      rw [start] at ends notBlank
      have notClosing : c ≠ '}' := by
        rintro rfl
        rw [List.dropWhile_cons_of_neg (by decide), skipBlanks_of_head notBlank] at ends
        cases ends
      rw [readBranchesAfter_cons, if_neg notClosing]
      exact (isOpen_readSelector notBlank ends).andThen _

theorem placeholderPersists_step
    {input : List Char}
    (branches :
      ∀ context shorter, shorter.length ≤ input.length → BranchesPersist context [] shorter) :
    PlaceholderPersists input := by
  intro more
  have branchesPersist :
      ∀ {context middle} (make : Branches → Node),
        middle.length ≤ input.length →
        Persists Never more
          ((readBranches context middle).andThen fun branches rest =>
            (expect '}' "a closing brace" rest).map fun _ => make branches)
          ((readBranches context (middle ++ more)).andThen fun branches rest =>
            (expect '}' "a closing brace" rest).map fun _ => make branches) := by
    intro context middle make notLonger
    have persists :
        Persists Never more (readBranches context middle)
          (readBranches context (middle ++ more)) := by
      unfold readBranches
      by_cases blank : skipBlanks middle = []
      · left
        rw [blank, readBranchesAfter_nil]
        exact Or.inl rfl
      · rw [skipBlanks_append_of_ne_nil more blank]
        exact branches context _ (Nat.le_trans (skipBlanks_length_le middle) notLonger) more
    refine persists.andThen (fun _ _ _ never => never.elim) ?_
    intro found rest _
    exact (expect_persists _ _ rest more).map fun _ _ never => never
  rw [readPlaceholderBody_eq, readPlaceholderBody_eq]
  refine (readOpening_persists input more).andThen ?_ ?_
  · intro opening middle _ isOpen
    cases opening with
    | closed node =>
        exact isOpen.elim
    | plural key kind offset =>
        exact (isOpen_readBranches .counted isOpen).andThen _
    | select key =>
        exact (isOpen_readBranches .plain isOpen).andThen _
  · intro opening middle found
    have notLonger := readOpening_rest_length_le input
    rw [found] at notLonger
    cases opening with
    | closed node =>
        exact .done node middle
    | plural key kind offset =>
        exact branchesPersist _ notLonger
    | select key =>
        exact branchesPersist _ notLonger

theorem branchesPersist_step
    {context : Context} {seen : List String} {input : List Char}
    (messages : ∀ shorter, shorter.length < input.length → MessagePersists context shorter)
    (branches :
      ∀ selector shorter,
        shorter.length < input.length → BranchesPersist context (selector :: seen) shorter) :
    BranchesPersist context seen input := by
  intro more
  cases input with
  | nil =>
      left
      rw [readBranchesAfter_nil]
      exact Or.inl rfl
  | cons c tail =>
      rw [List.cons_append, readBranchesAfter_cons, readBranchesAfter_cons]
      split
      · split
        · exact .stop _ (c :: tail)
        · exact .done [] (c :: tail)
      · refine (readSelector_persists (c :: tail) more).andThen (fun _ _ _ never => never.elim) ?_
        intro selector body selectorFound
        have bodyShorter := length_lt_of_readSelector selectorFound
        refine (messages body bodyShorter more).andThen ?_ ?_
        · rintro message _ _ rfl
          exact Or.inl rfl
        intro message middle messageFound
        refine (expect_persists '}' _ middle more).andThen (fun _ _ _ never => never.elim) ?_
        intro _ rest braceFound
        obtain rfl := eq_cons_of_expect braceFound
        have restShorter : (skipBlanks rest).length < (c :: tail).length := by
          have skipped := skipBlanks_length_le rest
          have notLonger := length_le_of_readMessage messageFound
          rw [List.length_cons] at notLonger
          omega
        split
        · exact Or.inr rfl
        · by_cases blank : skipBlanks rest = []
          · left
            rw [blank, readBranchesAfter_nil]
            exact Or.inl rfl
          · rw [skipBlanks_append_of_ne_nil more blank]
            exact (branches selector _ restShorter more).map fun _ _ never => never

theorem readers_persist :
    (∀ context input, MessagePersists context input) ∧
      (∀ input, PlaceholderPersists input) ∧
      ∀ context seen input, BranchesPersist context seen input :=
  readers_induction
    (fun _ _ => messagePersists_step)
    (fun _ => placeholderPersists_step)
    (fun _ _ _ => branchesPersist_step)

/-! ## Whole patterns -/

theorem readWhole_persists (input more : List Char) :
    Persists AtEnd more (readWhole input) (readWhole (input ++ more)) := by
  refine (readers_persist.1 .plain input more).andThen ?_ ?_
  · rintro message _ _ rfl
    exact rfl
  · intro message middle _
    cases middle with
    | nil =>
        exact Or.inl rfl
    | cons c rest =>
        exact .stop _ (c :: rest)

/-- Whether an error of a source may be due to the source ending where it does. -/
def IsPremature (error : PatternError) (source : String) : Prop :=
  error.cause = .unexpectedEndOfInput ∨
    error.cause = .unterminatedQuote ∨
    ((error.cause = .emptyKey ∨ error.cause = .expected "a placeholder type") ∧
      error.offset = source.utf8ByteSize)

/-- An error that is not premature is the error of the source with any text behind it. So a pattern
that is accepted has no beginning with such an error. -/
theorem parse_append_of_error
    {source : String} {error : PatternError}
    (rejected : parse source = .error error) (more : String) :
    (¬ IsPremature error source → parse (source ++ more) = .error error) ∧
      ∀ message, parse (source ++ more) = .ok message → IsPremature error source := by
  have persists : ¬ IsPremature error source → parse (source ++ more) = .error error := by
    intro notPremature
    obtain ⟨place, rest, failed, offsetEq⟩ := parse_eq_error_iff.mp rejected
    have notOpen : ¬ (readWhole source.toList).IsOpen AtEnd := by
      intro isOpen
      have truthful := readWhole_isTruthful source.toList []
      rw [failed] at isOpen truthful
      rcases isOpen with rfl | isQuote
      · obtain ⟨_, _, _, fits⟩ := truthful
        have atEnd : error.offset = source.utf8ByteSize := by
          rw [offsetEq, byteLength_nil, Nat.sub_zero, byteLength_toList]
        rcases fits.cases_of_end with isEnd | isKey | isType
        · exact notPremature (Or.inl isEnd)
        · exact notPremature (Or.inr (Or.inr ⟨Or.inl isKey, atEnd⟩))
        · exact notPremature (Or.inr (Or.inr ⟨Or.inr isType, atEnd⟩))
      · exact notPremature (Or.inr (Or.inl isQuote))
    have longer := (readWhole_persists source.toList more.toList).resolve_left notOpen
    refine parse_eq_error_iff.mpr ⟨place ++ more.toList, rest ++ more.toList, ?_, ?_⟩
    · rw [String.toList_append, longer, failed]
      rfl
    · rw [offsetEq, String.toList_append, byteLength_append, byteLength_append]
      omega
  refine ⟨persists, fun message accepted => ?_⟩
  by_contra notPremature
  rw [persists notPremature] at accepted
  cases accepted

/-- A pattern that breaks off behind the digits of an offset that is too large. -/
def largeOffset : String :=
  "\x7bn, plural, offset: 4294967296"

/-- An offset that is too large stays so, whatever comes behind its digits. The end that comes too
early does not. -/
theorem parse_append_large_offset :
    parse largeOffset = .error ⟨.invalidOffset, 20⟩ ∧
      ¬ IsPremature ⟨.invalidOffset, 20⟩ largeOffset ∧
      parse (largeOffset ++ "0 other\x7b#\x7d\x7d") = .error ⟨.invalidOffset, 20⟩ ∧
      parse "\x7bn" = .error ⟨.unexpectedEndOfInput, 2⟩ ∧
      parse "\x7bn\x7d" = .ok [.argument "n"] ∧
      IsPremature ⟨.unexpectedEndOfInput, 2⟩ "\x7bn" := by
  have rejected : parse largeOffset = .error ⟨.invalidOffset, 20⟩ := by
    with_unfolding_all rfl
  have notPremature : ¬ IsPremature ⟨.invalidOffset, 20⟩ largeOffset := by
    simp [IsPremature]
  have unfinished : parse "\x7bn" = .error ⟨.unexpectedEndOfInput, 2⟩ := by
    with_unfolding_all rfl
  have finished : parse "\x7bn\x7d" = .ok [.argument "n"] := by
    with_unfolding_all rfl
  refine ⟨rejected, notPremature, ?_, unfinished, finished, ?_⟩
  · exact (parse_append_of_error rejected "0 other\x7b#\x7d\x7d").1 notPremature
  · exact (parse_append_of_error unfinished "\x7d").2 _ finished

end Pattern

end MessagePattern
