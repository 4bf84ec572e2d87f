import MessagePattern.Command.Arguments
import MessagePattern.Message.Exchange
import MessagePattern.Pattern.Cursor
import MessagePattern.Plural.Builtin
import MessagePattern.Plural.Check
import MessagePattern.Report.Excerpt

/-!
The program: what it writes and how it ends, given its arguments and what it can read.
-/

namespace MessagePattern.Command

open Layout

/-! ## Outcomes -/

/-- What a run of the program comes to. -/
structure Outcome where
  code : UInt8
  output : String
  errors : String
  deriving DecidableEq, Repr

namespace Outcome

def printed (output : String) : Outcome := ⟨0, output ++ "\n", ""⟩

def failed (report : String) : Outcome := ⟨1, "", report ++ "\n"⟩

end Outcome

/-! ## Commands -/

/-- The pattern in the text of a file, which ends with a line feed of its own. -/
def patternOfText (text : String) : String :=
  if text.toList.getLast? = some '\n' then .ofList text.toList.dropLast else text

/-- Loads and parses a pattern and goes on with its message. -/
def withMessage (surroundings : Source.Surroundings) (file : String)
    (continuation : Message → Outcome) : Outcome :=
  match surroundings.load file with
  | .error error => .failed (Report.loadingReport error)
  | .ok text =>
    let source := patternOfText text
    match Pattern.parse source with
    | .error error => .failed (Report.patternReport .plain file source error)
    | .ok message => continuation message

/-- The warnings about the findings in a file, a line each. -/
def warnings (file : String) (findings : List Plural.Finding) : String :=
  String.join <| findings.map fun finding =>
    Colour.brightYellow.paint "warning" ++ ": " ++ file ++ ": " ++ finding.message ++ "\n"

def runCheck (surroundings : Source.Surroundings) (locale file : String)
    (table : Plural.RuleTable) : Outcome :=
  withMessage surroundings file fun message =>
    match Plural.check message locale table with
    | [] => ⟨0, "", ""⟩
    | findings => ⟨1, "", warnings file findings⟩

def programName : String := "message-print"

def programVersion : String := "v0.3.0"

def run (surroundings : Source.Surroundings) : Invocation → Outcome
  | .usage =>
    .printed ("usage: " ++ programName ++ " [COMMAND] ...\nTry '--help' for more information.")
  | .version none => .printed (programName ++ " " ++ programVersion)
  | .version (some command) => .printed (programName ++ "-" ++ command ++ " " ++ programVersion)
  | .format isColoured file =>
    withMessage surroundings file fun message =>
      .printed (render (if isColoured then .terminal else .plain) message)
  | .check locale none file => runCheck surroundings locale file .builtin
  | .check locale (some rules) file =>
    match Plural.RuleTable.load surroundings rules with
    | .error error => .failed (Report.rulesReport error)
    | .ok table => runCheck surroundings locale file table
  | .inspect file =>
    withMessage surroundings file fun message => .printed (message.toJson.toText .pretty)

def runArguments (surroundings : Source.Surroundings) (arguments : List String) : Outcome :=
  match Invocation.ofArguments arguments with
  | .ok invocation => run surroundings invocation
  | .error error => ⟨2, "", "error: " ++ error.message ++ "\n"⟩

end MessagePattern.Command
