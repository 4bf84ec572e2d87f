import MessagePattern.Proofs.Pattern.Faults
import MessagePattern.Proofs.Pattern.Performance
import MessagePattern.Proofs.Pattern.Readers

/-!
# The readers byte by byte

Each program of the machine has an outcome, which is that of the reader of the same text. So the
readers never cut a text inside a character or beyond its end, and come to an end.
-/

namespace MessagePattern.Pattern.Machine

/-- Reads the inside of a quoted part with the apostrophe that closes it. -/
def readInside (opening : List Char) : List Char → Reading (List Char)
  | [] => .failed .unterminatedQuote opening []
  | '\'' :: '\'' :: rest => (readInside opening rest).map ('\'' :: ·)
  | '\'' :: rest => .done [] rest
  | c :: rest => (readInside opening rest).map (c :: ·)

/-- A reader of quoted parts reads the inside, and what comes after as it does outside. -/
theorem eq_readInside
    {quotedReader plain : List Char → Reading (List Char)} {opening : List Char}
    (reads : Grammar.ReadsQuoted quotedReader plain)
    (unterminated : quotedReader [] = .failed .unterminatedQuote opening [])
    (input : List Char) :
    quotedReader input =
      (readInside opening input).andThen fun inside rest => (plain rest).map (inside ++ ·) := by
  fun_induction readInside opening input with
  | case1 =>
      exact unterminated
  | case2 rest inductionHypothesis =>
      rw [reads.doubled, inductionHypothesis]
      cases readInside opening rest <;> simp [Reading.andThen_done]
  | case3 rest notDoubled =>
      have closes : rest.head? ≠ some '\'' := head?_ne_of_ne_cons notDoubled
      rw [reads.closing closes, Reading.andThen_done]
      cases plain rest <;> rfl
  | case4 c rest notDoubled notApostrophe inductionHypothesis =>
      rw [reads.char notApostrophe, inductionHypothesis]
      cases readInside opening rest <;> simp [Reading.andThen_done]

theorem length_le_of_readInside
    {opening input inside rest : List Char}
    (found : readInside opening input = .done inside rest) :
    rest.length ≤ input.length := by
  fun_induction readInside opening input generalizing inside with
  | case1 =>
      cases found
  | case2 tail inductionHypothesis =>
      obtain ⟨_, tailFound, _⟩ := Reading.map_eq_done_iff.mp found
      have notLonger := inductionHypothesis tailFound
      simp only [List.length_cons]
      omega
  | case3 tail notDoubled =>
      cases found
      exact Nat.le_succ _
  | case4 c tail notDoubled notApostrophe inductionHypothesis =>
      obtain ⟨_, tailFound, _⟩ := Reading.map_eq_done_iff.mp found
      exact Nat.le_succ_of_le (inductionHypothesis tailFound)

theorem quoted_performs
    {rounds : Nat} {input : List Char} (total : Nat) (opening text : List Char)
    (enough : input.length < rounds) :
    Performs total (quoted (total - byteLength opening) text rounds) input
      ((readInside opening input).map (text ++ ·)) := by
  induction rounds generalizing text input with
  | zero =>
      cases enough
  | succ rounds inductionHypothesis =>
      rw [quoted]
      refine .step (peek_performs input) ?_
      fun_cases readInside opening input with
      | case1 =>
          exact throw_performs _ opening []
      | case2 rest =>
          dsimp only [List.head?_cons]
          rw [if_pos rfl]
          refine .step (peekSecond_performs _) ?_
          rw [List.tail_cons, List.head?_cons, if_pos rfl]
          refine .step (advance_performs ['\'', '\''] rest) ?_
          simp only [List.length_cons] at enough
          simpa using inductionHypothesis (text ++ ['\'']) (by omega)
      | case3 rest notDoubled =>
          have closes : rest.head? ≠ some '\'' := head?_ne_of_ne_cons notDoubled
          dsimp only [List.head?_cons]
          rw [if_pos rfl]
          refine .step (peekSecond_performs _) ?_
          rw [List.tail_cons, if_neg closes]
          refine .step (advance_performs ['\''] rest) ?_
          simpa using Performs.pure text
      | case4 c rest notDoubled notApostrophe =>
          dsimp only [List.head?_cons]
          rw [if_neg notApostrophe]
          refine .step (advanceChar_performs c rest) ?_
          simpa using inductionHypothesis (text ++ [c]) (Nat.lt_of_succ_lt_succ enough)

/-- A quoted part with what comes after it is read as the reader of quoted parts reads both. -/
theorem quoted_bind_performs
    {α : Type} {total rounds : Nat} {quotedReader plain : List Char → Reading (List Char)}
    {opening text input : List Char} {next : List Char → Machine α} {result : List Char → α}
    (enough : input.length < rounds)
    (reads : Grammar.ReadsQuoted quotedReader plain)
    (unterminated : quotedReader [] = .failed .unterminatedQuote opening [])
    (performsNext : ∀ inside rest, readInside opening input = .done inside rest →
      Performs total (next (text ++ inside)) rest
        ((plain rest).map fun value => result (inside ++ value))) :
    Performs total (quoted (total - byteLength opening) text rounds >>= next) input
      ((quotedReader input).map result) := by
  have insideFirst :
      (quotedReader input).map result =
        (readInside opening input).andThen fun inside rest =>
          (plain rest).map fun value => result (inside ++ value) := by
    rw [eq_readInside reads unterminated]
    cases readInside opening input <;> simp
  rw [insideFirst]
  exact (quoted_performs total opening text enough).bindMap performsNext

section Literal

variable {total : Nat} {context : Context}

/-- An apostrophe in text stands for itself or opens a quoted part, and the text goes on behind it. -/
theorem literal_apostrophe_performs
    {rounds : Nat} (text : List Char) {tail : List Char}
    (enough : tail.length < rounds)
    (continues : ∀ text rest, rest.length ≤ tail.length →
      Performs total (literal context text rounds) rest
        ((readText context none rest).map (text ++ ·))) :
    Performs total (literal context text (rounds + 1)) ('\'' :: tail)
      ((readText context none ('\'' :: tail)).map (text ++ ·)) := by
  have notSyntax : ¬ context.isSyntax '\'' = true := fun isSyntax =>
    ne_apostrophe_of_isSyntax isSyntax rfl
  have lone :
      Performs total (do advance 1; literal context (text ++ ['\'']) rounds) ('\'' :: tail)
        (((readText context none tail).map ('\'' :: ·)).map (text ++ ·)) := by
    refine .step (advance_performs ['\''] tail) ?_
    simpa using continues (text ++ ['\'']) tail (Nat.le_refl _)
  rw [literal]
  refine .step (peek_performs _) ?_
  dsimp only [List.head?_cons]
  rw [if_neg notSyntax, if_pos rfl]
  refine .step (peekSecond_performs _) ?_
  cases tail with
  | nil =>
      rw [readText_lone (by simp)]
      exact lone
  | cons d rest =>
      dsimp only [List.tail_cons, List.head?_cons]
      by_cases isDoubled : d = '\''
      · subst isDoubled
        rw [if_pos rfl, readText_doubled]
        refine .step (advance_performs ['\'', '\''] rest) ?_
        simpa using continues (text ++ ['\'']) rest (Nat.le_succ _)
      · rw [if_neg isDoubled]
        by_cases opens : context.isSyntax d = true
        · rw [if_pos opens, readText_opening opens]
          refine .step (position_performs _) ?_
          refine .step (advance_performs ['\''] (d :: rest)) ?_
          refine quoted_bind_performs enough (Grammar.readsQuoted_readText context _)
            (by rw [readText.eq_def]) fun inside after found => ?_
          simpa using continues (text ++ inside) after (length_le_of_readInside found)
        · rw [if_neg opens]
          rw [Bool.not_eq_true] at opens
          rw [readText_lone (by simpa using ⟨isDoubled, opens⟩)]
          exact lone

theorem literal_performs
    {rounds : Nat} {input : List Char} (text : List Char)
    (enough : input.length < rounds) :
    Performs total (literal context text rounds) input
      ((readText context none input).map (text ++ ·)) := by
  induction rounds generalizing text input with
  | zero =>
      cases enough
  | succ rounds inductionHypothesis =>
      cases input with
      | nil =>
          rw [literal]
          refine .step (peek_performs []) ?_
          simpa using Performs.pure text
      | cons c tail =>
          have tailEnough : tail.length < rounds := Nat.lt_of_succ_lt_succ enough
          by_cases isApostrophe : c = '\''
          · subst isApostrophe
            exact literal_apostrophe_performs text tailEnough fun text rest notLonger =>
              inductionHypothesis text (Nat.lt_of_le_of_lt notLonger tailEnough)
          · rw [literal]
            refine .step (peek_performs _) ?_
            dsimp only [List.head?_cons]
            by_cases isSyntax : context.isSyntax c = true
            · rw [if_pos isSyntax, readText_stop (by simpa using isSyntax)]
              simpa using Performs.pure text
            · rw [if_neg isSyntax, if_neg isApostrophe]
              rw [Bool.not_eq_true] at isSyntax
              rw [readText_char isApostrophe isSyntax]
              refine .step (advanceChar_performs c tail) ?_
              simpa using inductionHypothesis (text ++ [c]) tailEnough

end Literal

/-- The style that is kept, and the blanks behind it if something follows them. -/
def joinStyle (kept loose rest : List Char) : List Char :=
  if rest.isEmpty then kept else kept ++ loose ++ rest

@[simp] theorem joinStyle_end (kept loose : List Char) :
    joinStyle kept loose [] = kept := rfl

@[simp] theorem joinStyle_tight (kept : List Char) :
    joinStyle kept [] = (kept ++ ·) := by
  funext rest
  cases rest <;> simp [joinStyle]

theorem joinStyle_of_ne_nil
    {kept loose rest : List Char}
    (nonempty : rest ≠ []) :
    joinStyle kept loose rest = kept ++ loose ++ rest := by
  rw [joinStyle, if_neg (by simpa using nonempty)]

theorem joinStyle_consLoose
    {kept loose : List Char} {c : Char} (rest : List Char) :
    joinStyle kept loose (consLoose c rest) =
      if isBlank c then joinStyle kept (loose ++ [c]) rest
      else joinStyle (kept ++ loose ++ [c]) [] rest := by
  cases rest <;> cases blank : isBlank c <;> simp [joinStyle, consLoose, blank]

/-- A quoted part that is closed has something in it. -/
theorem ne_nil_of_readInside
    {opening input inside rest : List Char}
    (opens : input.head? ≠ some '\'')
    (found : readInside opening input = .done inside rest) :
    inside ≠ [] := by
  cases input with
  | nil =>
      cases found
  | cons c tail =>
      rw [readInside] at found
      · obtain ⟨_, _, rfl⟩ := Reading.map_eq_done_iff.mp found
        simp
      all_goals simp_all

section Style

variable {total : Nat}

/-- An apostrophe in a style belongs to two that stand for one or opens a quoted part, and blanks
before it are kept. -/
theorem styleFrom_apostrophe_performs
    {rounds : Nat} (kept loose : List Char) {tail : List Char}
    (enough : tail.length < rounds)
    (continues : ∀ kept rest, rest.length ≤ tail.length →
      Performs total (styleFrom kept (byteLength kept) rounds) rest
        ((readStyleText none rest).map (kept ++ ·))) :
    Performs total (styleFrom (kept ++ loose) (byteLength kept) (rounds + 1)) ('\'' :: tail)
      ((readStyleText none ('\'' :: tail)).map (joinStyle kept loose)) := by
  rw [styleFrom]
  refine .step (peek_performs _) ?_
  dsimp only [List.head?_cons]
  rw [if_neg (by decide), if_neg (by decide), if_pos rfl]
  refine .step (peekSecond_performs _) ?_
  dsimp only [List.tail_cons]
  by_cases isDoubled : tail.head? = some '\''
  · obtain ⟨rest, rfl⟩ := List.head?_eq_some_iff.mp isDoubled
    rw [if_pos isDoubled, readStyleText_doubled]
    refine .step (advance_performs ['\'', '\''] rest) ?_
    have next := continues (kept ++ loose ++ ['\'']) rest (Nat.le_succ _)
    simpa [joinStyle_of_ne_nil] using next
  · rw [if_neg isDoubled, readStyleText_opening isDoubled]
    refine .step (position_performs _) ?_
    refine .step (advance_performs ['\''] tail) ?_
    refine quoted_bind_performs enough (Grammar.readsQuoted_readStyleText _)
      (by rw [readStyleText.eq_def]) fun inside after found => ?_
    have nonempty := ne_nil_of_readInside isDoubled found
    have next := continues (kept ++ loose ++ inside) after (length_le_of_readInside found)
    simpa [joinStyle_of_ne_nil, nonempty] using next

theorem styleFrom_performs
    {rounds : Nat} {input : List Char} (kept loose : List Char)
    (enough : input.length < rounds) :
    Performs total (styleFrom (kept ++ loose) (byteLength kept) rounds) input
      ((readStyleText none input).map (joinStyle kept loose)) := by
  induction rounds generalizing kept loose input with
  | zero =>
      cases enough
  | succ rounds inductionHypothesis =>
      have ends := @truncate_performs total kept loose
      cases input with
      | nil =>
          rw [styleFrom]
          refine .step (peek_performs []) ?_
          simpa using ends []
      | cons c tail =>
          have tailEnough : tail.length < rounds := Nat.lt_of_succ_lt_succ enough
          have continues :
              ∀ kept rest, rest.length ≤ tail.length →
                Performs total (styleFrom kept (byteLength kept) rounds) rest
                  ((readStyleText none rest).map (kept ++ ·)) := by
            intro kept rest notLonger
            simpa using inductionHypothesis kept [] (Nat.lt_of_le_of_lt notLonger tailEnough)
          by_cases isApostrophe : c = '\''
          · subst isApostrophe
            exact styleFrom_apostrophe_performs kept loose tailEnough continues
          · rw [styleFrom]
            refine .step (peek_performs _) ?_
            dsimp only [List.head?_cons]
            by_cases isClosing : c = '}'
            · subst isClosing
              rw [if_pos rfl]
              simpa using ends ('}' :: tail)
            · rw [if_neg isClosing]
              by_cases isOpening : c = '{'
              · subst isOpening
                rw [if_pos rfl, readStyleText]
                exact fail_performs _ _
              · rw [if_neg isOpening, if_neg isApostrophe,
                  readStyleText_char isApostrophe isOpening isClosing]
                refine .step (advanceChar_performs c tail) ?_
                rw [Reading.map_map, funext joinStyle_consLoose]
                split
                · simpa using inductionHypothesis kept (loose ++ [c]) tailEnough
                · simpa using continues (kept ++ loose ++ [c]) tail (Nat.le_refl _)

theorem style_performs
    {rounds : Nat} {input : List Char}
    (enough : input.length < rounds) :
    Performs total (style rounds) input (readStyle input) := by
  have skips := skipBlanks_length_le input
  refine .step (skipBlanks_performs input) ?_
  have unquoted :=
    @styleFrom_performs total rounds (MessagePattern.skipBlanks input) [] [] (by omega)
  rw [joinStyle_tight] at unquoted
  simpa [readStyle] using unquoted

end Style

theorem offset_performs
    (total : Nat) (input : List Char) :
    Performs total offset input (readOffset input) := by
  refine .step (get_performs input) ?_
  dsimp only [Cursor.before]
  cases clause : offsetDigits? input with
  | none =>
      rw [readOffset, clause]
      exact .pure 0
  | some digits =>
      obtain ⟨blanks, digit, rest, allBlank, isDigit, rfl, rfl⟩ :=
        Grammar.offsetDigits?_eq_some_iff.mp clause
      have notBlank : ∀ c ∈ (digit :: rest).head?, isBlank c = false := by
        simpa using Grammar.not_blank_of_isDigit isDigit
      rw [readOffset, clause, if_neg (by simp), List.append_assoc]
      refine .step (advance_performs offsetMark _) (.step (skipBlanks_performs _) ?_)
      rw [skipBlanks_append _ allBlank, skipBlanks_of_head notBlank]
      refine .step (position_performs _) ?_
      refine .step (widthWhile_performs Char.isDigit _) ?_
      refine .step (sliceWhile_performs Char.isDigit _) ?_
      dsimp only
      split
      · exact .step (advanceWhile_performs Char.isDigit _) (.pure _)
      · exact throw_performs _ (digit :: rest) (digit :: rest)

/-- A key or a type is read with the brace or comma behind it, and what comes next goes on from
there. -/
theorem word_bind_performs
    {α : Type} {total : Nat} {missing : Cause} {next : List Char × Char → Machine α}
    {closed comma : List Char → List Char → Reading Opening}
    {readNext : Opening → List Char → Reading α} {input : List Char}
    (closedPerforms : ∀ word rest,
      Performs total (next (word, '}')) ('}' :: rest) ((closed word rest).andThen readNext))
    (commaPerforms : ∀ word rest,
      rest.length < input.length →
        Performs total (next (word, ',')) (',' :: rest) ((comma word rest).andThen readNext)) :
    Performs total (word missing >>= next) input
      ((readWord missing closed comma input).andThen readNext) := by
  have isEnd :
      MessagePattern.skipBlanks ((MessagePattern.skipBlanks input).dropWhile isTokenChar) <:+
        input :=
    (skipBlanks_suffix _).trans ((List.dropWhile_suffix _).trans (skipBlanks_suffix input))
  rw [word, readWord]
  simp only [bind_assoc]
  refine .step (skipBlanks_performs input) (.step (takeRun_performs isTokenChar _) ?_)
  split
  · exact (fail_performs missing _).failed
  · simp only [bind_assoc]
    refine .step (skipBlanks_performs _) (.step (peek_performs _) ?_)
    generalize (MessagePattern.skipBlanks input).takeWhile isTokenChar = word
    generalize MessagePattern.skipBlanks
      ((MessagePattern.skipBlanks input).dropWhile isTokenChar) = after at isEnd ⊢
    cases after with
    | nil =>
        exact (fail_performs _ []).failed
    | cons c tail =>
        by_cases isClosing : c = '}'
        · subst isClosing
          exact closedPerforms word tail
        · by_cases isComma : c = ','
          · subst isComma
            exact commaPerforms word tail isEnd.length_le
          · have isOther : ¬ (c = '}' ∨ c = ',') := by
              simp [isClosing, isComma]
            dsimp only [List.head?_cons]
            rw [if_neg isOther]
            simpa [isClosing, isComma, stopUnfinished, Reading.stop]
              using (fail_performs _ (c :: tail)).failed

/-! ## Messages, placeholders and branches -/

/-- Whether the programs that call each other do what the readers say, if they are given enough
rounds. The program for branches skips blanks by itself and keeps the branches whose selectors the
reader knows. -/
structure ReadersPerform (total rounds : Nat) : Prop where
  ofMessage :
    ∀ context nodes input,
      4 * input.length + 2 ≤ rounds →
        Performs total (message context nodes rounds) input
          ((readMessage context input).map (nodes ++ ·))
  ofPlaceholder :
    ∀ input,
      4 * input.length + 1 ≤ rounds →
        Performs total (placeholder rounds) input (readPlaceholder input)
  ofDetail :
    ∀ key type input,
      4 * input.length + 4 ≤ rounds →
        Performs total
          (do
            let node ← detail key type rounds
            require '}' "a closing brace"
            return node)
          input ((readDetail key type input).andThen readRemainder)
  ofBranches :
    ∀ context before input,
      4 * input.length + 3 ≤ rounds →
        Performs total (branches context before rounds) input
          ((readBranchesAfter context (before.map Branch.selector).reverse
            (MessagePattern.skipBlanks input)).map (before ++ ·))

section Steps

variable {total rounds : Nat}

theorem message_performs_step
    (performs : ReadersPerform total rounds) (context : Context) (nodes : Message)
    (input : List Char)
    (enough : 4 * input.length + 2 ≤ rounds + 1) :
    Performs total (message context nodes (rounds + 1)) input
      ((readMessage context input).map (nodes ++ ·)) := by
  rw [message]
  refine .step (peek_performs input) ?_
  cases input with
  | nil =>
      simpa using Performs.pure nodes
  | cons c tail =>
      have goesOn :
          ∀ {rest} (node : Node), rest.length < (c :: tail).length →
            Performs total (message context (nodes ++ [node]) rounds) rest
              (((readMessage context rest).map (node :: ·)).map (nodes ++ ·)) := by
        intro rest node shorter
        have next := performs.ofMessage context (nodes ++ [node]) rest (by omega)
        simpa using next
      dsimp only [List.head?_cons]
      rw [readMessage_cons]
      by_cases isClosing : c = '}'
      · rw [if_pos isClosing, if_pos isClosing]
        simpa using Performs.pure nodes
      · rw [if_neg isClosing, if_neg isClosing]
        by_cases isOpening : c = '{'
        · subst isOpening
          have first := performs.ofPlaceholder ('{' :: tail) (by omega)
          rw [readPlaceholder, expect_cons, Reading.andThen_done] at first
          rw [if_pos rfl, if_pos rfl, Reading.map_andThen]
          refine first.bind fun node rest found => goesOn node ?_
          exact Nat.lt_succ_of_le (length_le_of_readPlaceholderBody found)
        · rw [if_neg isOpening, if_neg isOpening]
          by_cases isText : context.isSyntax c = false
          · have notNumber : ¬ (c = '#' ∧ context = .counted) := by
              rintro ⟨rfl, rfl⟩
              simp [Context.isSyntax] at isText
            have shorter := readText_rest_length_lt context c tail isText
            have first := @literal_performs total context rounds (c :: tail) [] (by omega)
            rw [if_neg notNumber, if_pos isText, Reading.map_andThen]
            refine first.bindMap fun text rest found => ?_
            rw [found] at shorter
            exact goesOn (.text (.ofList text)) shorter
          · have isNumber : c = '#' ∧ context = .counted := by
              simpa [Context.isSyntax, isClosing, isOpening, and_comm] using isText
            obtain ⟨rfl, rfl⟩ := isNumber
            rw [if_pos ⟨rfl, rfl⟩, if_neg isText]
            exact .step (advance_performs ['#'] tail) (goesOn .number (Nat.lt_succ_self _))

/-- Branches make a node with the closing brace behind them. -/
theorem branches_bind_performs
    {context : Context} {input : List Char} (make : Branches → Node)
    (performs : ReadersPerform total rounds)
    (enough : 4 * input.length + 3 ≤ rounds) :
    Performs total
      (do
        let branches ← branches context [] rounds
        require '}' "a closing brace"
        return make branches)
      input
      ((readBranches context input).andThen fun branches rest =>
        (expect '}' "a closing brace" rest).map fun _ => make branches) :=
  (performs.ofBranches context [] input enough).bindMap fun branches rest _ =>
    (require_performs '}' "a closing brace" rest).map fun _ => make branches

theorem detail_performs_step
    (performs : ReadersPerform total rounds) (key type : String) (input : List Char)
    (enough : 4 * input.length + 4 ≤ rounds + 1) :
    Performs total
      (do
        let node ← detail key type (rounds + 1)
        require '}' "a closing brace"
        return node)
      input ((readDetail key type input).andThen readRemainder) := by
  rw [detail, readDetail]
  cases isPlural : PluralKind.ofType? type with
  | some kind =>
      have skips := skipBlanks_length_le input
      simp only [bind_assoc, pure_bind, Reading.andThen_map]
      refine .step (skipBlanks_performs input) ?_
      refine (offset_performs total _).bind fun offset rest found => ?_
      have notLonger := readOffset_rest_length_le (MessagePattern.skipBlanks input)
      rw [found, Reading.rest_done] at notLonger
      exact branches_bind_performs _ performs (by omega)
  | none =>
      dsimp only
      split
      · next isSelect =>
          simp only [bind_assoc, pure_bind]
          rw [isSelect]
          exact branches_bind_performs _ performs (by omega)
      · simp only [bind_assoc, pure_bind, Reading.andThen_andThen, Reading.andThen_map]
        refine (style_performs (by omega)).bind fun style rest _ => ?_
        exact (require_performs '}' "a closing brace" rest).bind fun _ last _ => .pure _

theorem placeholder_performs_step
    (performs : ReadersPerform total rounds) (input : List Char)
    (enough : 4 * input.length + 1 ≤ rounds + 1) :
    Performs total (placeholder (rounds + 1)) input (readPlaceholder input) := by
  rw [placeholder, readPlaceholder]
  refine (require_performs '{' "an opening brace" input).bind fun _ body opening => ?_
  rw [eq_cons_of_expect opening, List.length_cons] at enough
  rw [readPlaceholderBody_eq, readOpening_eq_readWord]
  refine word_bind_performs ?_ ?_
  · intro key rest
    exact .step (advance_performs ['}'] rest) (.pure _)
  · intro key rest shorter
    refine .step (advance_performs [','] rest) ?_
    rw [readType_eq_readWord]
    refine word_bind_performs ?_ ?_
    · intro type last
      dsimp only
      rw [if_pos rfl]
      split
      · exact fail_performs _ _
      · exact .step (advance_performs ['}'] last) (.pure _)
    · intro type last shorterLast
      refine .step (advance_performs [','] last) ?_
      exact performs.ofDetail (.ofList key) (.ofList type) last (by omega)

theorem any_selector_eq_contains (before : Branches) (selector : String) :
    (before.any fun branch => branch.selector == selector) =
      (before.map Branch.selector).reverse.contains selector := by
  rw [Bool.eq_iff_iff]
  simp

theorem branches_performs_step
    (performs : ReadersPerform total rounds) (context : Context) (before : Branches)
    (input : List Char)
    (enough : 4 * input.length + 3 ≤ rounds + 1) :
    Performs total (branches context before (rounds + 1)) input
      ((readBranchesAfter context (before.map Branch.selector).reverse
        (MessagePattern.skipBlanks input)).map (before ++ ·)) := by
  have skipsInput := skipBlanks_length_le input
  rw [branches]
  refine .step (skipBlanks_performs input) ?_
  generalize MessagePattern.skipBlanks input = input at *
  refine .step (peek_performs input) ?_
  cases input with
  | nil =>
      rw [readBranchesAfter_nil]
      exact fail_performs _ []
  | cons c tail =>
      rw [List.length_cons] at skipsInput
      dsimp only [List.head?_cons]
      rw [readBranchesAfter_cons]
      by_cases isClosing : c = '}'
      · subst isClosing
        rw [if_pos rfl, if_pos rfl]
        cases before with
        | nil =>
            exact fail_performs _ _
        | cons branch others =>
            simpa using Performs.pure (branch :: others)
      · rw [if_neg isClosing, if_neg isClosing, readSelector]
        refine .step (position_performs _) (.step (takeRun_performs isSelectorChar _) ?_)
        have drops := (List.dropWhile_suffix isSelectorChar (l := c :: tail)).length_le
        have skips := skipBlanks_length_le ((c :: tail).dropWhile isSelectorChar)
        rw [List.length_cons] at drops
        split
        · exact fail_performs _ _
        · simp only [Reading.map_andThen, Reading.andThen_map]
          refine .step (skipBlanks_performs _) ?_
          refine (require_performs '{' "an opening brace" _).bind fun _ body opening => ?_
          rw [eq_cons_of_expect opening, List.length_cons] at skips
          have inner := performs.ofMessage context [] body (by omega)
          refine inner.bindMap fun message after found => ?_
          have shorter := length_le_of_readMessage found
          refine (require_performs '}' "a closing brace" after).bind fun _ last closing => ?_
          rw [eq_cons_of_expect closing, List.length_cons] at shorter
          simp only [any_selector_eq_contains]
          split
          · exact throw_performs _ (c :: tail) last
          · have next := performs.ofBranches context
              (before ++ [⟨.ofList ((c :: tail).takeWhile isSelectorChar), message⟩]) last
              (by omega)
            simpa using next

end Steps

theorem readers_perform (total rounds : Nat) :
    ReadersPerform total rounds := by
  induction rounds with
  | zero =>
      constructor <;> intros <;> omega
  | succ rounds inductionHypothesis =>
      exact
        { ofMessage := message_performs_step inductionHypothesis
          ofPlaceholder := placeholder_performs_step inductionHypothesis
          ofDetail := detail_performs_step inductionHypothesis
          ofBranches := branches_performs_step inductionHypothesis }

theorem lt_roundsFor (input : List Char) :
    4 * input.length + 3 < roundsFor input := by
  rw [roundsFor]
  omega

theorem length_lt_roundsFor (input : List Char) :
    input.length < roundsFor input := by
  have bound := lt_roundsFor input
  omega

section Readers

variable (total : Nat) (input : List Char)

theorem text_performs (context : Context) :
    Performs total (literal context [] (roundsFor input)) input (readText context none input) := by
  simpa using @literal_performs total context _ input [] (length_lt_roundsFor input)

theorem message_performs (context : Context) :
    Performs total (message context [] (roundsFor input)) input (readMessage context input) := by
  have enough := lt_roundsFor input
  simpa using (readers_perform total _).ofMessage context [] input (by omega)

theorem placeholder_performs :
    Performs total (placeholder (roundsFor input)) input (readPlaceholder input) := by
  have enough := lt_roundsFor input
  exact (readers_perform total _).ofPlaceholder input (by omega)

theorem branches_performs (context : Context) :
    Performs total (branches context [] (roundsFor input)) input (readBranches context input) := by
  have enough := lt_roundsFor input
  simpa [readBranches] using (readers_perform total _).ofBranches context [] input (by omega)

theorem whole_performs :
    Performs total (whole (roundsFor input)) input (readWhole input) := by
  refine (message_performs total input .plain).bind fun message rest _ => ?_
  refine .step (peek_performs rest) ?_
  cases rest with
  | nil =>
      exact .pure message
  | cons c tail =>
      exact fail_performs _ (c :: tail)

end Readers

end MessagePattern.Pattern.Machine
