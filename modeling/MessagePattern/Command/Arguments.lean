/-!
The arguments of the command line.

Options come in any order with the file. A short option may have its value attached, with or without
an equals sign, and short flags may share a hyphen; a long option has its value after an equals sign.
Else the value is the next argument, which may not look like an option. Two hyphens end the options.
-/

namespace MessagePattern.Command

structure OptionSpec where
  long : String
  short : Option Char
  takesValue : Bool
  deriving DecidableEq, Repr

inductive UsageError where
  | unknownCommand (name : String)
  | unexpectedArgument (argument : String)
  | missingValue (long : String)
  | unexpectedValue (long : String)
  | repeatedOption (long : String)
  | missingFile
  deriving DecidableEq, Repr

/-- What ends the reading of arguments early. -/
inductive Interruption where
  | usage (error : UsageError)
  | version
  | help
  deriving DecidableEq, Repr

/-- What the arguments of a command say: the options given, with their values, and the file. -/
structure Given where
  options : List (String × Option String)
  file : Option String
  deriving DecidableEq, Repr

namespace Given

def empty : Given := ⟨[], none⟩

def addOption (given : Given) (long : String) (value : Option String) :
    Except Interruption Given :=
  if given.options.any fun option => option.1 == long then .error (.usage (.repeatedOption long))
  else .ok { given with options := (long, value) :: given.options }

def addFile (given : Given) (argument : String) : Except Interruption Given :=
  match given.file with
  | none => .ok { given with file := some argument }
  | some _ => .error (.usage (.unexpectedArgument argument))

def has (given : Given) (long : String) : Bool :=
  given.options.any fun option => option.1 == long

def value? (given : Given) (long : String) : Option String :=
  (given.options.lookup long).join

end Given

/-! ## Single arguments -/

def commonOptions : List (OptionSpec × Interruption) :=
  [(⟨"version", some 'V', false⟩, .version), (⟨"help", some 'h', false⟩, .help)]

/-- Reads the letters after a hyphen. An option that still needs its value is returned as well. -/
def readLetters (specs : List OptionSpec) (argument : String) (given : Given) :
    List Char → Except Interruption (Given × Option String)
  | [] => .ok (given, none)
  | letter :: letters =>
    match commonOptions.find? fun option => option.1.short == some letter with
    | some (_, interruption) => .error interruption
    | none =>
      match specs.find? fun spec => spec.short == some letter with
      | none => .error (.usage (.unexpectedArgument argument))
      | some spec =>
        if spec.takesValue then
          match letters with
          | [] => .ok (given, some spec.long)
          | '=' :: value => do return (← given.addOption spec.long (some (.ofList value)), none)
          | value => do return (← given.addOption spec.long (some (.ofList value)), none)
        else do
          readLetters specs argument (← given.addOption spec.long none) letters

/-- Reads what follows two hyphens: a name and perhaps a value. An option that still needs its value
is returned as well. -/
def readLong (specs : List OptionSpec) (argument : String) (given : Given) (word : List Char) :
    Except Interruption (Given × Option String) :=
  let name := String.ofList (word.takeWhile (· ≠ '='))
  let value? :=
    match word.dropWhile (· ≠ '=') with
    | [] => none
    | _ :: value => some (String.ofList value)
  match commonOptions.find? fun option => option.1.long == name with
  | some (spec, interruption) =>
    match value? with
    | none => .error interruption
    | some _ => .error (.usage (.unexpectedValue spec.long))
  | none =>
    match specs.find? fun spec => spec.long == name with
    | none => .error (.usage (.unexpectedArgument argument))
    | some spec =>
      match spec.takesValue, value? with
      | true, none => .ok (given, some spec.long)
      | true, some value => do return (← given.addOption spec.long (some value), none)
      | false, none => do return (← given.addOption spec.long none, none)
      | false, some _ => .error (.usage (.unexpectedValue spec.long))

/-- Whether an argument begins with a hyphen and is not one alone. -/
def looksLikeOption (argument : String) : Bool :=
  match argument.toList with
  | '-' :: _ :: _ => true
  | _ => false

/-- Reads the arguments of a command. An option that awaits its value is `pending`. -/
def readArguments (specs : List OptionSpec) (given : Given) (pending : Option String) :
    List String → Except Interruption Given
  | [] =>
    match pending with
    | none => .ok given
    | some long => .error (.usage (.missingValue long))
  | argument :: arguments =>
    match pending with
    | some long =>
      if looksLikeOption argument then .error (.usage (.missingValue long))
      else do
        readArguments specs (← given.addOption long (some argument)) none arguments
    | none =>
      match argument.toList with
      | ['-', '-'] => arguments.foldlM Given.addFile given
      | '-' :: '-' :: word => do
        let (given, pending) ← readLong specs argument given word
        readArguments specs given pending arguments
      | '-' :: letter :: letters => do
        let (given, pending) ← readLetters specs argument given (letter :: letters)
        readArguments specs given pending arguments
      | _ => do
        readArguments specs (← given.addFile argument) none arguments

/-! ## Invocations -/

inductive Invocation where
  | usage
  | version (command : Option String)
  | format (isColoured : Bool) (file : String)
  | check (locale : String) (rules : Option String) (file : String)
  | inspect (file : String)
  deriving DecidableEq, Repr

def Invocation.file? : Invocation → Option String
  | usage | version _ => none
  | format _ file | inspect file | check _ _ file => some file

def Invocation.rules? : Invocation → Option String
  | check _ rules _ => rules
  | _ => none

def formatOptions : List OptionSpec :=
  [⟨"raw-control-chars", some 'R', false⟩]

def checkOptions : List OptionSpec :=
  [⟨"locale", some 'l', true⟩, ⟨"rules", none, true⟩]

/-- Reads the arguments of a command and makes an invocation of them and the file. -/
def readCommand (name : String) (specs : List OptionSpec) (arguments : List String)
    (invocation : Given → String → Invocation) : Except UsageError Invocation :=
  match readArguments specs .empty none arguments with
  | .ok given =>
    match given.file with
    | some file => .ok (invocation given file)
    | none => .error .missingFile
  | .error .version => .ok (.version (some name))
  | .error .help => .ok .usage
  | .error (.usage error) => .error error

/-- What the arguments of the program ask for. -/
def Invocation.ofArguments : List String → Except UsageError Invocation
  | [] | ["--"] => .ok .usage
  | "format" :: arguments =>
    readCommand "format" formatOptions arguments fun given =>
      .format (given.has "raw-control-chars")
  | "check" :: arguments =>
    readCommand "check" checkOptions arguments fun given =>
      .check ((given.value? "locale").getD "en") (given.value? "rules")
  | "inspect" :: arguments => readCommand "inspect" [] arguments fun _ => .inspect
  | argument :: _ =>
    if looksLikeOption argument then
      match readArguments [] .empty none [argument] with
      | .error .version => .ok (.version none)
      | .error .help => .ok .usage
      | .error (.usage error) => .error error
      | .ok _ => .error (.unexpectedArgument argument)
    else .error (.unknownCommand argument)

def UsageError.message : UsageError → String
  | unknownCommand name => "unrecognized command '" ++ name ++ "'"
  | unexpectedArgument argument => "unexpected argument '" ++ argument ++ "'"
  | missingValue long => "a value is required for '--" ++ long ++ "'"
  | unexpectedValue long => "no value is taken by '--" ++ long ++ "'"
  | repeatedOption long => "the argument '--" ++ long ++ "' cannot be used more than once"
  | missingFile => "no filename given"

end MessagePattern.Command
