import MessagePattern.Proofs.Pattern.Rejection
import MessagePattern.Proofs.Report.Location

/-!
# Where a report points

The rows of a report on a pattern, what a terminal shows of them, and that the caret stands below the
character that the error is about.
-/

namespace MessagePattern.Report

open Layout

/-- A part of a row: a control sequence, of which nothing is seen, or text. -/
inductive Piece where
  | code (parameters : String)
  | text (content : List Char)
  deriving DecidableEq, Repr

abbrev Row := List Piece

def Piece.written : Piece → List Char
  | code parameters => (controlSequence parameters).toList
  | text content => content

def Piece.visible : Piece → List Char
  | code _ => []
  | text content => content

namespace Row

def written (row : Row) : List Char :=
  row.flatMap Piece.written

/-- What is seen of a row. -/
def visible (row : Row) : List Char :=
  row.flatMap Piece.visible

def painted (colour : Colour) (content : List Char) : Row :=
  [.code colour.parameters, .text content, .code "39"]

def emboldened (content : List Char) : Row :=
  [.code "1", .text content, .code "0"]

@[simp] theorem written_nil : written [] = [] := rfl

@[simp] theorem written_cons (piece : Piece) (row : Row) :
    written (piece :: row) = piece.written ++ written row := rfl

@[simp] theorem written_append (left right : Row) :
    written (left ++ right) = written left ++ written right :=
  List.flatMap_append

@[simp] theorem visible_nil : visible [] = [] := rfl

@[simp] theorem visible_cons (piece : Piece) (row : Row) :
    visible (piece :: row) = piece.visible ++ visible row := rfl

@[simp] theorem visible_append (left right : Row) :
    visible (left ++ right) = visible left ++ visible right :=
  List.flatMap_append

@[simp] theorem visible_painted (colour : Colour) (content : List Char) :
    visible (painted colour content) = content := by
  simp [painted, Piece.visible]

@[simp] theorem visible_emboldened (content : List Char) :
    visible (emboldened content) = content := by
  simp [emboldened, Piece.visible]

theorem written_painted (colour : Colour) (content : String) :
    written (painted colour content.toList) = (colour.paint content).toList := by
  simp [painted, Colour.paint, Piece.written]

theorem written_emboldened (content : String) :
    written (emboldened content.toList) = (bold content).toList := by
  simp [emboldened, bold, Piece.written]

end Row

section Rows

variable (location : Location)

/-- The number of columns for line numbers. -/
def gutterWidth : Nat :=
  max 3 (toString (location.line + 1)).length

/-- The line number before an excerpt, and the bar behind it. -/
def gutter : List Char :=
  (alignRight (gutterWidth location) (toString (location.line + 1)) ++ " | ").toList

/-- What stands below the line number and the bar. -/
def margin : List Char :=
  (alignRight (gutterWidth location) " " ++ " | ").toList

def headerRow (file problem : String) : Row :=
  Row.painted .brightRed "error".toList ++
    [.text (": " ++ file ++ ":" ++ toString (location.line + 1) ++ ":" ++
      toString (location.column + 1) ++ " ").toList] ++
    Row.emboldened problem.toList

def blankRow : Row :=
  .text (alignRight (gutterWidth location) " " ++ " ").toList ::
    Row.painted .brightBlue "|".toList

def excerptRow (excerpt : List Char) : Row :=
  Row.painted .brightBlue
      (alignRight (gutterWidth location) (toString (location.line + 1))).toList ++
    .text [' '] :: Row.painted .brightBlue "|".toList ++
    [.text (' ' :: excerpt)]

def caretRow : Row :=
  blankRow location ++
    .text [' '] :: Row.painted .brightRed (alignRight (location.column + 1) "^").toList

end Rows

theorem toList_patternReport (theme : Theme) (file source : String) (error : PatternError) :
    (patternReport theme file source error).toList =
      (headerRow (locate source error.offset) file (explain theme error.cause).problem).written ++
        '\n' :: '\n' ::
        ((blankRow (locate source error.offset)).written ++ '\n' ::
          ((excerptRow (locate source error.offset)
              (lineAt (locate source error.offset).line source.toList)).written ++ '\n' ::
            ((caretRow (locate source error.offset)).written ++ '\n' :: '\n' ::
              (explain theme error.cause).details.toList))) := by
  unfold patternReport
  generalize explain theme error.cause = explanation
  generalize locate source error.offset = location
  simp only [headerRow, blankRow, excerptRow, caretRow, Row.written_append, Row.written_cons,
    Row.written_painted, Row.written_emboldened, Row.written_nil, Piece.written, gutterWidth,
    errorMark, String.toList_append, String.toList_ofList]
  simp

theorem lineFeed_not_mem_toDigits (n : Nat) :
    '\n' ∉ Nat.toDigits 10 n := by
  intro member
  have isDigit := Nat.isDigit_of_mem_toDigits (by decide) (by decide) member
  cases isDigit

theorem toList_alignRight (width : Nat) (text : String) :
    (alignRight width text).toList =
      List.replicate (width - text.length) ' ' ++ text.toList := by
  rw [alignRight, String.toList_append, String.toList_ofList]

section Rows

variable (location : Location)

theorem lineFeed_not_mem_headerRow
    {file problem : String}
    (fileUnbroken : '\n' ∉ file.toList)
    (problemUnbroken : '\n' ∉ problem.toList) :
    '\n' ∉ (headerRow location file problem).written := by
  simp [headerRow, Row.painted, Row.emboldened, Piece.written, controlSequence, Colour.parameters,
    lineFeed_not_mem_toDigits, fileUnbroken, problemUnbroken]

theorem lineFeed_not_mem_blankRow :
    '\n' ∉ (blankRow location).written := by
  simp [blankRow, Row.painted, Piece.written, controlSequence, Colour.parameters,
    toList_alignRight]

theorem lineFeed_not_mem_excerptRow
    {excerpt : List Char}
    (unbroken : '\n' ∉ excerpt) :
    '\n' ∉ (excerptRow location excerpt).written := by
  simp [excerptRow, Row.painted, Piece.written, controlSequence, Colour.parameters,
    toList_alignRight, lineFeed_not_mem_toDigits, unbroken]

theorem lineFeed_not_mem_caretRow :
    '\n' ∉ (caretRow location).written := by
  have blank := lineFeed_not_mem_blankRow location
  simp [caretRow, Row.painted, Piece.written, controlSequence, Colour.parameters,
    toList_alignRight, blank]

end Rows

theorem lineFeed_not_mem_lineAt (number : Nat) (text : List Char) :
    '\n' ∉ lineAt number text := by
  induction number generalizing text with
  | zero =>
      have unbroken : '\n' ∉ text.takeWhile (· ≠ '\n') := by
        intro member
        simpa using List.mem_takeWhile_imp member
      rw [lineAt, firstLine]
      split
      · exact fun member => unbroken (List.dropLast_subset _ member)
      · exact unbroken
  | succ number inductionHypothesis =>
      exact inductionHypothesis _

/-- The problem is told alike in every theme. -/
theorem problem_eq (theme other : Theme) (cause : Cause) :
    (explain theme cause).problem = (explain other cause).problem := by
  cases cause <;> rfl

/-- A cause that fits a place is told in one line. -/
theorem lineFeed_not_mem_problem
    {cause : Cause} {before after : List Char}
    (fits : cause.Fits before after) (theme : Theme) :
    '\n' ∉ (explain theme cause).problem.toList := by
  cases cause with
  | expected what =>
      change '\n' ∉ ("Expected " ++ what).toList
      rcases fits with ⟨rfl, _⟩ | ⟨rfl, _⟩ | ⟨rfl, _⟩ <;> decide
  | invalidCharacter c =>
      have notBlank : isBlank c = false := fits.2
      have different : c ≠ '\n' := by
        rintro rfl
        cases notBlank
      change '\n' ∉ ("Invalid character '" ++ String.singleton c ++ "'").toList
      simp [Ne.symm different]
  | duplicateSelector selector =>
      have unbroken : '\n' ∉ selector.toList := by
        intro member
        have inside := fits.1.inside _ member
        cases inside
      change '\n' ∉ ("Duplicate selector \"" ++ selector ++ "\"").toList
      simp [unbroken]
  | _ =>
      rw [problem_eq theme .plain]
      decide

/-- The rows that stand before the details. -/
theorem splitOn_patternReport
    {theme : Theme} {file source : String} {error : PatternError} {location : Location}
    (located : locate source error.offset = location)
    (fileUnbroken : '\n' ∉ file.toList)
    (problemUnbroken : '\n' ∉ (explain theme error.cause).problem.toList) :
    (patternReport theme file source error).toList.splitOn '\n' =
      (headerRow location file (explain theme error.cause).problem).written :: [] ::
        (blankRow location).written ::
          (excerptRow location (lineAt location.line source.toList)).written ::
            (caretRow location).written :: [] ::
              (explain theme error.cause).details.toList.splitOn '\n' := by
  have lineFeedFirst :
      ∀ text : List Char, ('\n' :: text).splitOn '\n' = [] :: text.splitOn '\n' :=
    List.splitOn_append_cons_self_of_not_mem List.not_mem_nil
  have excerptUnbroken := lineFeed_not_mem_lineAt location.line source.toList
  rw [toList_patternReport, located,
    List.splitOn_append_cons_self_of_not_mem
      (lineFeed_not_mem_headerRow location fileUnbroken problemUnbroken),
    lineFeedFirst,
    List.splitOn_append_cons_self_of_not_mem (lineFeed_not_mem_blankRow location),
    List.splitOn_append_cons_self_of_not_mem
      (lineFeed_not_mem_excerptRow location excerptUnbroken),
    List.splitOn_append_cons_self_of_not_mem (lineFeed_not_mem_caretRow location),
    lineFeedFirst]

section Visible

variable (location : Location)

theorem visible_headerRow (file problem : String) :
    (headerRow location file problem).visible =
      ("error: " ++ file ++ ":" ++ toString (location.line + 1) ++ ":" ++
        toString (location.column + 1) ++ " " ++ problem).toList := by
  simp [headerRow, Piece.visible]

theorem visible_excerptRow (excerpt : List Char) :
    (excerptRow location excerpt).visible = gutter location ++ excerpt := by
  simp [excerptRow, gutter, Piece.visible]

theorem visible_caretRow :
    (caretRow location).visible =
      margin location ++ List.replicate location.column ' ' ++ ['^'] := by
  have caretLength : "^".length = 1 := rfl
  simp [caretRow, blankRow, margin, Piece.visible, toList_alignRight, caretLength]

/-- The margin is as wide as the gutter above it, however long the line number is. -/
theorem length_margin :
    (margin location).length = (gutter location).length := by
  have blankLength : " ".length = 1 := rfl
  rw [margin, gutter, gutterWidth]
  generalize toString (location.line + 1) = line
  simp only [String.toList_append, toList_alignRight, List.length_append, List.length_replicate,
    String.length_toList, blankLength]
  omega

theorem caret_not_mem_margin :
    '^' ∉ margin location := by
  simp [margin, toList_alignRight]

end Visible

/-! ## Reports on rejected patterns -/

/-- Whether the report on an error shows a location in the source, at which a target stands. -/
structure Shows (theme : Theme) (file source : String) (error : PatternError)
    (location : Location) (target : Option Char) : Prop where
  located : locateBytes? source.toList error.offset = some location
  rows :
    (patternReport theme file source error).toList.splitOn '\n' =
      (headerRow location file (explain theme error.cause).problem).written :: [] ::
        (blankRow location).written ::
          (excerptRow location (separatedLine location.line source.toList)).written ::
            (caretRow location).written :: [] ::
              (explain theme error.cause).details.toList.splitOn '\n'
  header :
    (headerRow location file (explain theme error.cause).problem).visible =
      ("error: " ++ file ++ ":" ++ toString (location.line + 1) ++ ":" ++
        toString (location.column + 1) ++ " " ++ (explain theme error.cause).problem).toList
  excerpt :
    (excerptRow location (separatedLine location.line source.toList)).visible =
      gutter location ++ separatedLine location.line source.toList
  caret :
    (caretRow location).visible =
      margin location ++ List.replicate location.column ' ' ++ ['^']
  margin_length : (margin location).length = (gutter location).length
  margin_blank : '^' ∉ margin location
  column_le : location.column ≤ (separatedLine location.line source.toList).length
  target_below :
    target.isSome = true → (separatedLine location.line source.toList)[location.column]? = target

/-- The report on a rejected pattern shows the place that the error is about. -/
theorem shows_of_parse
    {file source : String} {error : PatternError}
    (rejected : Pattern.parse source = .error error)
    (oneLine : '\n' ∉ file.toList) (theme : Theme) :
    ∃ earlier current place,
      IsCutAt source.toList error.offset earlier current place ∧
        Shows theme file source error ⟨earlier.count '\n', current.length⟩ place.head? := by
  obtain ⟨before, place, sourceEq, length, fits⟩ := Pattern.exists_place_of_parse rejected
  obtain ⟨earlier, current, isCut⟩ := exists_isCutAt before place
  rw [← sourceEq, length] at isCut
  have located := isCut.locate_eq
  have excerptEq :
      separatedLine (earlier.count '\n') source.toList = firstLine (current ++ place) := by
    rw [← lineAt_eq_separatedLine, isCut.lineAt_eq]
  have reaches := firstLine_append isCut.current_unbroken fits.not_blank
  rw [← excerptEq] at reaches
  refine ⟨earlier, current, place, isCut, ?_⟩
  exact
    { located := isCut.locateBytes?_eq
      rows := by
        have rows := splitOn_patternReport located oneLine (lineFeed_not_mem_problem fits theme)
        rwa [lineAt_eq_separatedLine] at rows
      header := visible_headerRow _ _ _
      excerpt := visible_excerptRow _ _
      caret := visible_caretRow _
      margin_length := length_margin _
      margin_blank := caret_not_mem_margin _
      column_le := reaches.1
      target_below := fun found => reaches.2 (by
        rintro rfl
        cases found) }

/-- A character on the second of two lines that end in both characters, behind characters of
several bytes. -/
def secondLine : String :=
  "é\r\na\x7b½ ☃\x7d\r\n"

theorem shows_second_line :
    Pattern.parse secondLine = .error ⟨.invalidCharacter '☃', 9⟩ ∧
      '\n' ∉ "greeting.txt".toList ∧
      ∃ earlier current place,
        IsCutAt secondLine.toList 9 earlier current place ∧
          Shows .terminal "greeting.txt" secondLine ⟨.invalidCharacter '☃', 9⟩
            ⟨earlier.count '\n', current.length⟩ place.head? := by
  have rejected : Pattern.parse secondLine = .error ⟨.invalidCharacter '☃', 9⟩ := by
    with_unfolding_all rfl
  have oneLine : '\n' ∉ "greeting.txt".toList := by
    decide
  exact ⟨rejected, oneLine, shows_of_parse rejected oneLine .terminal⟩

end MessagePattern.Report
