/-!
Getting at the files that the program reads.
-/

namespace MessagePattern.Source

/-- Why a file could not be read. -/
inductive AccessFailure where
  | notFound
  | isDirectory
  | notDirectory
  | invalidData
  | invalidInput
  | invalidFilename
  | permissionDenied
  | other
  deriving DecidableEq, Repr

def AccessFailure.description : AccessFailure → String
  | notFound => "entity not found"
  | isDirectory => "is a directory"
  | notDirectory => "not a directory"
  | invalidData => "invalid data"
  | invalidInput => "invalid input parameter"
  | invalidFilename => "invalid filename"
  | permissionDenied => "permission denied"
  | other => "other error"

/-- What the program can read: its standard input, and files by name. -/
structure Surroundings where
  input : ByteArray
  read : String → Except AccessFailure ByteArray

/-- The text that bytes hold, which must be valid UTF-8. -/
def decodeText (bytes : ByteArray) : Except AccessFailure String :=
  match String.fromUTF8? bytes with
  | some text => .ok text
  | none => .error .invalidData

@[simp] theorem decodeText_toUTF8 (text : String) :
    decodeText text.toUTF8 = .ok text := by
  have decoded : String.fromUTF8? text.toUTF8 = some text :=
    dif_pos text.isValidUTF8
  rw [decodeText, decoded]

def Surroundings.readText (surroundings : Surroundings) (file : String) :
    Except AccessFailure String := do
  decodeText (← surroundings.read file)

/-! ## Loading patterns -/

/-- Why the text of a pattern could not be had. -/
structure LoadingError where
  problem : String
  details : String
  file : String
  deriving DecidableEq, Repr

namespace LoadingError

/-- The error for a file that could not be read. -/
def ofFailure (file : String) (failure : AccessFailure) : LoadingError :=
  if failure = .notFound then ⟨"File not found", "", file⟩
  else ⟨"Failed reading", failure.description, file⟩

/-- The error in one line, with what details there are. -/
def message (error : LoadingError) : String :=
  error.problem ++ ": " ++ error.file ++
    if error.details.isEmpty then "" else ": " ++ error.details

end LoadingError

/-- The file name that stands for standard input. -/
def standardInput : String := "-"

def Surroundings.load (surroundings : Surroundings) (file : String) :
    Except LoadingError String :=
  let text :=
    if file = standardInput then decodeText surroundings.input else surroundings.readText file
  match text with
  | .ok text => .ok text
  | .error failure => .error (.ofFailure file failure)

theorem Surroundings.load_of_read
    {surroundings : Surroundings} {file text : String}
    (isFile : file ≠ standardInput)
    (isRead : surroundings.read file = .ok text.toUTF8) :
    surroundings.load file = .ok text := by
  have found : surroundings.readText file = .ok text := by
    rw [Surroundings.readText, isRead]
    exact decodeText_toUTF8 text
  rw [Surroundings.load, if_neg isFile, found]

end MessagePattern.Source
