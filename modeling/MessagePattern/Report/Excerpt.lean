import MessagePattern.Report.Advice
import MessagePattern.Plural.RuleFile
import MessagePattern.Source.Access
import MessagePattern.Text.Bytes

/-!
Reports of errors for a terminal. An error in a pattern is shown with the line that it is in and a
caret below the character that it is about.
-/

namespace MessagePattern.Report

open Layout

/-! ## Places in a text -/

/-- A place by line and column, both counted from zero. -/
structure Location where
  line : Nat
  column : Nat
  deriving DecidableEq, Repr

def Location.after (before : List Char) : Location :=
  ⟨before.count '\n', (before.reverse.takeWhile (· ≠ '\n')).length⟩

def locate (source : String) (offset : Nat) : Location :=
  .after (takeBytes offset source.toList)

/-- The line at the front of a text, without the carriage return before the line feed. -/
def firstLine (text : List Char) : List Char :=
  let line := text.takeWhile (· ≠ '\n')
  if line.length < text.length ∧ line.getLast? = some '\r' then line.dropLast else line

/-- The line with the given number, which is empty if there is no such line. -/
def lineAt : Nat → List Char → List Char
  | 0, text => firstLine text
  | n + 1, text => lineAt n ((text.dropWhile (· ≠ '\n')).drop 1)

/-! ## Reports -/

/-- The text with blanks before it that fill it up to the given width. -/
def alignRight (width : Nat) (text : String) : String :=
  .ofList (List.replicate (width - text.length) ' ') ++ text

def errorMark : String := Colour.brightRed.paint "error"

def patternReport (theme : Theme) (file source : String) (error : PatternError) : String :=
  let explanation := explain theme error.cause
  let location := locate source error.offset
  let line := toString (location.line + 1)
  let column := location.column + 1
  let width := max 3 line.length
  let bar := Colour.brightBlue.paint "|"
  let margin := alignRight width " "
  errorMark ++ ": " ++ file ++ ":" ++ line ++ ":" ++ toString column ++ " " ++
    bold explanation.problem ++ "\n\n" ++
    margin ++ " " ++ bar ++ "\n" ++
    Colour.brightBlue.paint (alignRight width line) ++ " " ++ bar ++ " " ++
    .ofList (lineAt location.line source.toList) ++ "\n" ++
    margin ++ " " ++ bar ++ " " ++ Colour.brightRed.paint (alignRight column "^") ++ "\n\n" ++
    explanation.details

def loadingReport (error : Source.LoadingError) : String :=
  errorMark ++ ": " ++ error.file ++ ":" ++ bold error.problem

def rulesReport (error : Plural.RulesError) : String :=
  errorMark ++ ": " ++ error.message

end MessagePattern.Report
