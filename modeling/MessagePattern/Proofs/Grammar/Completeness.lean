import MessagePattern.Proofs.Grammar.Soundness

/-!
# Completeness

What the grammar derives is read, and so the grammar and the readers give a pattern the same
meaning.
-/

namespace MessagePattern.Grammar

open Pattern

theorem TextPart.exists_first
    {context : Context} {next : Option Char} {part value : List Char}
    (fits : TextPart context next part value) :
    ∃ c ∈ part.head?, context.isSyntax c = false := by
  cases fits with
  | @char c _ notSyntax => exact ⟨c, rfl, notSyntax⟩
  | doubled => exact ⟨'\'', rfl, isSyntax_apostrophe context⟩
  | lone => exact ⟨'\'', rfl, isSyntax_apostrophe context⟩
  | quoted => exact ⟨'\'', rfl, isSyntax_apostrophe context⟩

theorem exists_first_of_textRow
    {context : Context} {next : Option Char} {source content : List Char}
    (row : Row (TextPart context) next source content)
    (nonempty : source ≠ []) :
    ∃ c ∈ source.head?, context.isSyntax c = false := by
  cases row with
  | nil =>
      exact absurd rfl nonempty
  | cons fits _ =>
      exact first_append fits.exists_first _

/-- Branches begin with a selector, which a brace follows. -/
theorem first_of_derives_branches
    {context : Context} {source : List Char} {branches : Branches}
    (derived : Derives source (.branches context branches))
    (nonempty : branches ≠ []) :
    '{' ∈ source ∧ ∃ c ∈ source.head?, isSelectorChar c = true := by
  cases derived with
  | noBranch =>
      exact absurd rfl nonempty
  | @branch _ before body after rest selector _ _ isWord _ _ _ _ =>
      refine ⟨by simp, ?_⟩
      obtain ⟨c, first, inside⟩ :=
        isWord.exists_first (before ++ '{' :: body ++ '}' :: after ++ rest)
      exact ⟨c, by simpa using first, inside⟩

theorem not_blank_of_isSelectorChar
    {c : Char}
    (inside : isSelectorChar c = true) :
    isBlank c = false := by
  simp only [isSelectorChar, Bool.not_eq_true', Bool.or_eq_false_iff] at inside
  exact inside.1.1

theorem not_blank_of_mem_head?_branches
    {context : Context} {source : List Char} {branches : Branches}
    (derived : Derives source (.branches context branches)) (rest : List Char) :
    ∀ c ∈ (source ++ '}' :: rest).head?, isBlank c = false := by
  intro c first
  by_cases empty : branches = []
  · subst empty
    cases derived with
    | noBranch =>
        obtain rfl : '}' = c := by simpa using first
        decide
  · obtain ⟨_, beginsWithWord⟩ := first_of_derives_branches derived empty
    have inside := forall_first (first_append beginsWithWord ('}' :: rest))
    exact not_blank_of_isSelectorChar (inside c first)

/-- The text is read as the message in front of `next`, which ends messages. -/
def MessageRead (context : Context) (next : Option Char) (message : Message)
    (source : List Char) : Prop :=
  ∀ rest,
    rest.head? = next →
    (∀ c ∈ next, c = '}') →
    readMessage context (source ++ rest) = .done message rest

def PlaceholderRead (node : Node) (source : List Char) : Prop :=
  ∀ rest, readPlaceholder (source ++ rest) = .done node rest

/-- The text is read as the branches, after others with the selectors `seen`. -/
def BranchesRead (context : Context) (branches : Branches) (source : List Char) : Prop :=
  ∀ seen rest,
    (branches.map Branch.selector).Nodup →
    (∀ selector ∈ branches.map Branch.selector, selector ∉ seen) →
    (seen = [] → branches ≠ []) →
    readBranchesAfter context seen (source ++ '}' :: rest) = .done branches ('}' :: rest)

def Phrase.IsReadFrom (source : List Char) : Phrase → Prop
  | .message context next nodes => MessageRead context next nodes source
  | .placeholder node => PlaceholderRead node source
  | .branches context entries => BranchesRead context entries source

section Messages

variable {context : Context} {next : Option Char} {source others : List Char} {nodes : Message}

theorem messageRead_empty :
    MessageRead context next [] [] := by
  rintro rest rfl stops
  exact readMessage_stop stops

theorem messageRead_text
    {content : String}
    (nonempty : source ≠ [])
    (row : Row (TextPart context) (others.head?.or next) source content.toList)
    (stopsText : ∀ c ∈ others.head?.or next, context.isSyntax c = true)
    (nodesRead : MessageRead context next nodes others) :
    MessageRead context next (.text content :: nodes) (source ++ others) := by
  rintro rest rfl stops
  have startsWithText := first_append (exists_first_of_textRow row nonempty) (others ++ rest)
  rw [← List.head?_append] at row stopsText
  have textRead := readText_of_row row stopsText
  rw [List.append_assoc, readMessage_text startsWithText textRead, nodesRead rest rfl stops,
    String.ofList_toList]
  rfl

theorem messageRead_number
    (nodesRead : MessageRead .counted next nodes others) :
    MessageRead .counted next (.number :: nodes) ('#' :: others) := by
  rintro rest rfl stops
  rw [List.cons_append, readMessage_number, nodesRead rest rfl stops]
  rfl

theorem messageRead_placeholder
    {node : Node}
    (nodeRead : PlaceholderRead node source)
    (nodesRead : MessageRead context next nodes others) :
    MessageRead context next (node :: nodes) (source ++ others) := by
  rintro rest rfl stops
  rw [List.append_assoc, readMessage_placeholder (nodeRead _), nodesRead rest rfl stops]
  rfl

end Messages

section Placeholders

variable {keySource typeSource : List Char} {key type : String}

theorem readPlaceholder_of_readOpening
    {input middle rest : List Char} {opening : Opening} {node : Node}
    (opened : readOpening input = .done opening middle)
    (remainder : readRemainder opening middle = .done node rest) :
    readPlaceholder ('{' :: input) = .done node rest := by
  rw [readPlaceholder, expect_cons, Reading.andThen_done, readPlaceholderBody_eq, opened,
    Reading.andThen_done, remainder]

theorem placeholderRead_argument
    (keyPadded : Padded isTokenChar key keySource) :
    PlaceholderRead (.argument key) ('{' :: keySource ++ ['}']) := by
  intro rest
  have opened :
      readOpening (keySource ++ '}' :: rest) = .done (.closed (.argument key)) rest :=
    readOpening_brace keyPadded
  simpa using readPlaceholder_of_readOpening opened rfl

theorem placeholderRead_unstyled
    (keyPadded : Padded isTokenChar key keySource)
    (typePadded : Padded isTokenChar type typeSource)
    (takesStyle : TakesStyle type) :
    PlaceholderRead (.styled key type none)
      ('{' :: keySource ++ ',' :: typeSource ++ ['}']) := by
  intro rest
  have opened :
      readOpening (keySource ++ ',' :: (typeSource ++ '}' :: rest)) =
        .done (.closed (.styled key type none)) rest := by
    rw [readOpening_comma keyPadded, readType_brace typePadded takesStyle]
  simpa using readPlaceholder_of_readOpening opened rfl

theorem placeholderRead_styled
    {styleSource : List Char} {style : String}
    (keyPadded : Padded isTokenChar key keySource)
    (typePadded : Padded isTokenChar type typeSource)
    (takesStyle : TakesStyle type)
    (form : StyleForm styleSource style) :
    PlaceholderRead (.styled key type (if style = "" then none else some style))
      ('{' :: keySource ++ ',' :: typeSource ++ ',' :: styleSource ++ ['}']) := by
  intro rest
  have opened :
      readOpening (keySource ++ ',' :: (typeSource ++ ',' :: (styleSource ++ '}' :: rest))) =
        .done (.closed (.styled key type (if style = "" then none else some style))) rest := by
    rw [readOpening_comma keyPadded, readType_comma typePadded, readDetail_style takesStyle form]
  simpa using readPlaceholder_of_readOpening opened rfl

theorem placeholderRead_choice
    {blanks source : List Char} {cases : Branches}
    (keyPadded : Padded isTokenChar key keySource)
    (typePadded : Padded isTokenChar "select" typeSource)
    (allBlank : AllBlank blanks)
    (derived : Derives source (.branches .plain cases))
    (nonempty : cases ≠ [])
    (nodup : (cases.map Branch.selector).Nodup)
    (casesRead : BranchesRead .plain cases source) :
    PlaceholderRead (.choice key "select" cases)
      ('{' :: keySource ++ ',' :: typeSource ++ ',' :: blanks ++ source ++ ['}']) := by
  intro rest
  have opened :
      readOpening
          (keySource ++ ',' :: (typeSource ++ ',' :: (blanks ++ (source ++ '}' :: rest)))) =
        .done (.select key) (blanks ++ (source ++ '}' :: rest)) := by
    rw [readOpening_comma keyPadded, readType_comma typePadded, readDetail_select]
  have notBlank := not_blank_of_mem_head?_branches derived rest
  have remainder :
      readRemainder (.select key) (blanks ++ (source ++ '}' :: rest)) =
        .done (.choice key "select" cases) rest := by
    simp only [readRemainder, readBranches, skipBlanks_append _ allBlank,
      skipBlanks_of_head notBlank]
    rw [casesRead _ _ nodup (by simp) fun _ => nonempty, Reading.andThen_done, expect_cons,
      Reading.map_done]
  simpa using readPlaceholder_of_readOpening opened remainder

theorem placeholderRead_plural
    {clause source : List Char} {kind : PluralKind} {offset : UInt32} {branches : Branches}
    (keyPadded : Padded isTokenChar key keySource)
    (typePadded : Padded isTokenChar kind.typeName typeSource)
    (form : OffsetForm source clause offset)
    (derived : Derives source (.branches .counted branches))
    (nonempty : branches ≠ [])
    (nodup : (branches.map Branch.selector).Nodup)
    (branchesRead : BranchesRead .counted branches source) :
    PlaceholderRead (.plural key kind offset branches)
      ('{' :: keySource ++ ',' :: typeSource ++ ',' :: clause ++ source ++ ['}']) := by
  intro rest
  have hasBrace := (first_of_derives_branches derived nonempty).1
  have notBlank := not_blank_of_mem_head?_branches derived rest
  obtain ⟨middle, offsetRead, skipped⟩ := readOffset_of_form form ('}' :: rest) hasBrace notBlank
  have opened :
      readOpening
          (keySource ++ ',' :: (typeSource ++ ',' :: (clause ++ (source ++ '}' :: rest)))) =
        .done (.plural key kind offset) middle := by
    rw [readOpening_comma keyPadded, readType_comma typePadded, readDetail_plural, offsetRead,
      Reading.map_done]
  have remainder :
      readRemainder (.plural key kind offset) middle =
        .done (.plural key kind offset branches) rest := by
    simp only [readRemainder, readBranches, skipped]
    rw [branchesRead _ _ nodup (by simp) fun _ => nonempty, Reading.andThen_done, expect_cons,
      Reading.map_done]
  simpa using readPlaceholder_of_readOpening opened remainder

end Placeholders

section Branches

variable {context : Context}

theorem branchesRead_noBranch :
    BranchesRead context [] [] := by
  intro seen rest _ _ notFirst
  have seenNonempty : seen ≠ [] := fun isFirst => notFirst isFirst rfl
  rw [List.nil_append, readBranchesAfter_cons, if_pos rfl]
  simp [seenNonempty]

/-- One branch is read, and reading goes on after the blanks behind it. -/
theorem readBranchesAfter_branch
    {seen : List String} {selector : String} {before body after middle : List Char}
    {message : Message}
    (isWord : IsWord isSelectorChar selector)
    (beforeBlank : AllBlank before)
    (bodyRead : readMessage context body = .done message ('}' :: after))
    (isNew : selector ∉ seen)
    (skipped : skipBlanks after = middle) :
    readBranchesAfter context seen (selector.toList ++ (before ++ '{' :: body)) =
      (readBranchesAfter context (selector :: seen) middle).map (⟨selector, message⟩ :: ·) := by
  obtain ⟨c, tail, selectorEq⟩ := List.exists_cons_of_ne_nil isWord.nonempty
  have selectorRead := readSelector_of_isWord isWord beforeBlank body
  have notClosing : c ≠ '}' := by
    rintro rfl
    have inside := isWord.inside '}' (by simp [selectorEq])
    exact absurd inside (by decide)
  rw [selectorEq, List.cons_append] at selectorRead ⊢
  rw [readBranchesAfter_cons, if_neg notClosing, selectorRead, Reading.andThen_done, bodyRead,
    Reading.andThen_done, expect_cons, Reading.andThen_done]
  simp [isNew, skipped]

theorem branchesRead_branch
    {before body after others : List Char} {selector : String} {message : Message}
    {branches : Branches}
    (isWord : IsWord isSelectorChar selector)
    (beforeBlank : AllBlank before)
    (afterBlank : AllBlank after)
    (derived : Derives others (.branches context branches))
    (bodyRead : MessageRead context (some '}') message body)
    (othersRead : BranchesRead context branches others) :
    BranchesRead context (⟨selector, message⟩ :: branches)
      (selector.toList ++ before ++ '{' :: body ++ '}' :: after ++ others) := by
  intro seen rest nodup areNew _
  rw [List.map_cons, List.nodup_cons] at nodup
  obtain ⟨notRepeated, nodup⟩ := nodup
  have othersNew :
      ∀ other ∈ branches.map Branch.selector, other ∉ selector :: seen := by
    intro other member inSeen
    rcases List.mem_cons.mp inSeen with rfl | inSeen
    · exact notRepeated member
    · exact areNew other (List.mem_cons_of_mem selector member) inSeen
  have bodyFound :
      readMessage context (body ++ '}' :: (after ++ (others ++ '}' :: rest))) =
        .done message ('}' :: (after ++ (others ++ '}' :: rest))) :=
    bodyRead _ rfl (by simp)
  have skipped :
      skipBlanks (after ++ (others ++ '}' :: rest)) = others ++ '}' :: rest := by
    rw [skipBlanks_append _ afterBlank]
    exact skipBlanks_of_head (not_blank_of_mem_head?_branches derived rest)
  have branchesFound :=
    readBranchesAfter_branch isWord beforeBlank bodyFound (areNew selector (by simp)) skipped
  rw [othersRead _ _ nodup othersNew (by simp), Reading.map_done] at branchesFound
  simpa using branchesFound

end Branches

/-- What the grammar derives is read. -/
theorem Derives.isReadFrom
    {source : List Char} {phrase : Phrase}
    (derived : Derives source phrase) :
    phrase.IsReadFrom source := by
  induction derived with
  | empty =>
      exact messageRead_empty
  | text nonempty row stopsText _ nodesRead =>
      exact messageRead_text nonempty row stopsText nodesRead
  | number _ nodesRead =>
      exact messageRead_number nodesRead
  | placeholder _ _ nodeRead nodesRead =>
      exact messageRead_placeholder nodeRead nodesRead
  | argument keyPadded =>
      exact placeholderRead_argument keyPadded
  | unstyled keyPadded typePadded takesStyle =>
      exact placeholderRead_unstyled keyPadded typePadded takesStyle
  | styled keyPadded typePadded takesStyle form =>
      exact placeholderRead_styled keyPadded typePadded takesStyle form
  | choice keyPadded typePadded allBlank derived nonempty nodup casesRead =>
      exact placeholderRead_choice keyPadded typePadded allBlank derived nonempty nodup casesRead
  | plural keyPadded typePadded form derived nonempty nodup branchesRead =>
      exact placeholderRead_plural keyPadded typePadded form derived nonempty nodup branchesRead
  | noBranch =>
      exact branchesRead_noBranch
  | branch isWord beforeBlank _ afterBlank derived bodyRead othersRead =>
      exact branchesRead_branch isWord beforeBlank afterBlank derived bodyRead othersRead

end MessagePattern.Grammar
