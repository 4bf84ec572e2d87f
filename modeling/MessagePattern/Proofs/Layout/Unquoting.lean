import MessagePattern.Pattern.Cursor
import MessagePattern.Proofs.Layout.Text
import MessagePattern.Proofs.Text.Bytes

/-!
# Reading what quoting writes

A cursor in front of a written text or style reads it as the text or style that was written, and
stands right behind it afterwards.
-/

namespace MessagePattern.Layout

open Grammar Pattern

/-- A reader that takes a part of the text moves the cursor past the bytes of this part. -/
theorem answer_of_done
    {α : Type} {wrap : α → Answer} {reader : List Char → Reading α}
    {offset : Nat} {consumed rest : List Char} {value : α}
    (found : reader (consumed ++ rest) = .done value rest) :
    Cursor.answer ⟨offset, consumed ++ rest⟩ wrap reader =
      (wrap value, ⟨offset + byteLength consumed, rest⟩) := by
  rw [Cursor.answer, Cursor.read, found]
  simp [Cursor.moveTo, Cursor.offsetOf, Answer.ofResult]

theorem toList_joinFragments_textFragments (context : Context) (text : String) :
    (joinFragments (textFragments context text)).toList =
      (pieces context text.toList).flatMap Piece.source := by
  rw [toList_joinFragments, ← nodeSource_text, nodeSource, nodeFragments]

theorem readText_source
    {context : Context} {rest : List Char}
    (text : List Char)
    (stops : ∀ c ∈ rest.head?, context.isSyntax c = true) :
    readText context none ((pieces context text).flatMap Piece.source ++ rest) =
      .done text rest := by
  have closes : rest.head? ≠ some '\'' := by
    intro first
    exact absurd rfl (ne_apostrophe_of_isSyntax (stops '\'' first))
  exact readText_of_row (row_of_pieces context text closes) stops

/-- A written text is read back in front of the end and of any character that is syntax in its
context, and nothing is read but what was written. -/
theorem step_text_textFragments
    (context : Context) (text : String) (offset : Nat) {rest : List Char}
    (stops : ∀ c ∈ rest.head?, context.isSyntax c = true) :
    Cursor.step ⟨offset, (joinFragments (textFragments context text)).toList ++ rest⟩
        (.text context) =
      (.text text,
        ⟨offset + (joinFragments (textFragments context text)).utf8ByteSize, rest⟩) := by
  have found := readText_source text.toList stops
  rw [← toList_joinFragments_textFragments] at found
  rw [Cursor.step, answer_of_done found, byteLength_toList, String.ofList_toList]

/-- A text with apostrophes that a quoted run takes in, and with apostrophes at its end. -/
def apostrophes : String :=
  "é'#''\x7b'x'"

def apostrophesWritten : String :=
  "é'''#''''\x7b'''x''"

theorem step_text_apostrophes :
    (∀ c ∈ ['#', '\''].head?, Context.counted.isSyntax c = true) ∧
      joinFragments (textFragments .counted apostrophes) = apostrophesWritten ∧
      Cursor.step ⟨3, apostrophesWritten.toList ++ ['#', '\'']⟩ (.text .counted) =
        (.text apostrophes, ⟨20, ['#', '\'']⟩) := by
  have stops : ∀ c ∈ ['#', '\''].head?, Context.counted.isSyntax c = true := by
    rintro _ ⟨⟩
    decide
  have written : joinFragments (textFragments .counted apostrophes) = apostrophesWritten := by
    decide +kernel
  refine ⟨stops, written, ?_⟩
  have found := step_text_textFragments .counted apostrophes 3 stops
  rw [written] at found
  exact found

theorem readStyle_quoteStyle
    {before after : List Char}
    (style : String) (rest : List Char)
    (beforeBlank : AllBlank before)
    (afterBlank : AllBlank after) :
    readStyle (before ++ quoteStyle style.toList ++ after ++ '}' :: rest) =
      .done style.toList ('}' :: rest) := by
  have closes : (after ++ ['}']).head? ≠ some '\'' := by
    cases after with
    | nil =>
        simp
    | cons c after =>
        have blank : isBlank c = true := afterBlank c (by simp)
        simpa using (not_brace_of_isBlank blank).1
  exact readStyle_of_form
    (.mk beforeBlank (trimmed_quoteStyle _) (row_quoteStyle _ closes) afterBlank)

/-- A written style is read back from between any blanks, up to the closing brace. -/
theorem step_style_quoteStyle
    {before after : List Char}
    (style : String) (offset : Nat) (rest : List Char)
    (beforeBlank : AllBlank before)
    (afterBlank : AllBlank after) :
    Cursor.step ⟨offset, before ++ quoteStyle style.toList ++ after ++ '}' :: rest⟩ .style =
      (.text style,
        ⟨offset + byteLength (before ++ quoteStyle style.toList ++ after), '}' :: rest⟩) := by
  have found := readStyle_quoteStyle style rest beforeBlank afterBlank
  rw [Cursor.step, answer_of_done found, String.ofList_toList]

/-- A style with blanks at both of its ends and with apostrophes that merge with those around it. -/
def blankStyle : String :=
  "' \x7b\u2003x \x7d''"

def blankStyleWritten : String :=
  "''' \x7b\u2003x \x7d'''''"

/-- Blanks in front of the apostrophes and behind them are not part of the style. -/
theorem step_style_apostrophes :
    AllBlank ['\t', '\u2003'] ∧
      AllBlank ['\n', '\u3000'] ∧
      quoteStyle blankStyle.toList = blankStyleWritten.toList ∧
      Cursor.step
          ⟨7, ['\t', '\u2003'] ++ blankStyleWritten.toList ++ ['\n', '\u3000'] ++
            '}' :: ['\'', ' ']⟩
          .style =
        (.text blankStyle, ⟨31, ['}', '\'', ' ']⟩) := by
  have beforeBlank : AllBlank ['\t', '\u2003'] := by
    decide
  have afterBlank : AllBlank ['\n', '\u3000'] := by
    decide
  have written : quoteStyle blankStyle.toList = blankStyleWritten.toList := by
    decide +kernel
  refine ⟨beforeBlank, afterBlank, written, ?_⟩
  have found := step_style_quoteStyle blankStyle 7 ['\'', ' '] beforeBlank afterBlank
  rw [written] at found
  exact found

end MessagePattern.Layout
