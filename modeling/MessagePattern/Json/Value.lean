import MessagePattern.Json.Token
import MessagePattern.Text.Digits

/-!
JSON values: their text forms, and reading them back.
-/

namespace MessagePattern

structure Json.Member (α : Type) where
  key : List Char
  value : α
  deriving DecidableEq, Repr

/-- A JSON value. Numbers, strings and keys are kept as they are written, without quotes. -/
inductive Json where
  | null
  | bool (value : Bool)
  | number (literal : List Char)
  | string (literal : List Char)
  | array (items : List Json)
  | object (members : List (Json.Member Json))
  deriving Repr

namespace Json

def text (content : String) : Json :=
  string (escape content)

def natural (value : Nat) : Json :=
  number (toString value).toList

def record (members : List (String × Json)) : Json :=
  object (members.map fun (key, value) => ⟨escape key, value⟩)

/-- The object whose only member names what its value is. -/
def tagged (tag : String) (value : Json) : Json :=
  object [⟨escape tag, value⟩]

def text? : Json → Option String
  | string literal => unescape? literal
  | _ => none

/-- The value of a number that is written with digits alone. -/
def natural? : Json → Option Nat
  | number literal => if isDigits literal then some (digitsValue literal) else none
  | _ => none

def texts? : Json → Option (List String)
  | array items => items.mapM text?
  | _ => none

/-- The tag and the value of an object with one member. -/
def tagged? : Json → Option (String × Json)
  | object [member] => return (← unescape? member.key, member.value)
  | _ => none

/-- The bare name that a value is: a string or, if there is room for a nested value, an object that
tags null. -/
def name? (room : Nat) : Json → Option String
  | string literal => unescape? literal
  | object [⟨key, null⟩] => if room = 0 then none else unescape? key
  | _ => none

def members? : Json → Option (List (String × Json))
  | object members => members.mapM fun member => return (← unescape? member.key, member.value)
  | _ => none

/-- The values of the named fields, where they are given. A record is written as an object, in which
no named field may occur twice, or as the array of its values, of which at least `least` must be
there. -/
def fields? (names : List String) (least : Nat) : Json → Option (List (Option Json))
  | array items =>
    if least ≤ items.length ∧ items.length ≤ names.length then
      some (names.mapIdx fun i _ => items[i]?)
    else none
  | value => do
    let members ← value.members?
    names.mapM fun name =>
      match members.filter fun member => member.1 == name with
      | [] => some none
      | [member] => some (some member.2)
      | _ => none

/-! ## Writing -/

/-- How values are laid out: what separates items on a level, and what follows the colon. -/
structure Spacing where
  newLine : Nat → List Char
  afterColon : List Char

namespace Spacing

def compact : Spacing := ⟨fun _ => [], []⟩

/-- A line for each item, indented by two spaces for each level. -/
def pretty : Spacing := ⟨fun level => '\n' :: List.replicate (2 * level) ' ', [' ']⟩

end Spacing

mutual

def write (spacing : Spacing) (level : Nat) : Json → List Char
  | null => "null".toList
  | bool value => (if value then "true" else "false").toList
  | number literal => literal
  | string literal => '"' :: literal ++ ['"']
  | array [] => ['[', ']']
  | array (item :: items) =>
    '[' :: spacing.newLine (level + 1) ++ write spacing (level + 1) item ++
      writeItems spacing (level + 1) items ++ spacing.newLine level ++ [']']
  | object [] => ['{', '}']
  | object (⟨key, value⟩ :: members) =>
    '{' :: spacing.newLine (level + 1) ++ '"' :: key ++ '"' :: ':' :: spacing.afterColon ++
      write spacing (level + 1) value ++ writeMembers spacing (level + 1) members ++
      spacing.newLine level ++ ['}']

def writeItems (spacing : Spacing) (level : Nat) : List Json → List Char
  | [] => []
  | item :: items =>
    ',' :: spacing.newLine level ++ write spacing level item ++ writeItems spacing level items

def writeMembers (spacing : Spacing) (level : Nat) : List (Member Json) → List Char
  | [] => []
  | ⟨key, value⟩ :: members =>
    ',' :: spacing.newLine level ++ '"' :: key ++ '"' :: ':' :: spacing.afterColon ++
      write spacing level value ++ writeMembers spacing level members

end

def toText (spacing : Spacing) (value : Json) : String :=
  .ofList (write spacing 0 value)

/-! ## Reading -/

/-- An array or object that is being read: what is in it so far, last first, and the key of the
member whose value is awaited. -/
inductive Frame where
  | array (items : List Json)
  | object (members : List (Member Json)) (key : List Char)
  deriving Repr

mutual

/-- Reads a value inside the given frames, innermost first, and then all that is left. -/
def readValue? (frames : List Frame) : List Token → Option Json
  | .null :: tokens => readOn? null frames tokens
  | .bool value :: tokens => readOn? (bool value) frames tokens
  | .number literal :: tokens => readOn? (number literal) frames tokens
  | .string literal :: tokens => readOn? (string literal) frames tokens
  | .openArray :: .closeArray :: tokens => readOn? (array []) frames tokens
  | .openArray :: tokens => readValue? (.array [] :: frames) tokens
  | .openObject :: .closeObject :: tokens => readOn? (object []) frames tokens
  | .openObject :: .string key :: .colon :: tokens => readValue? (.object [] key :: frames) tokens
  | _ => none

/-- Reads all that is left after a value inside the given frames. -/
def readOn? (value : Json) : List Frame → List Token → Option Json
  | [], [] => some value
  | .array items :: frames, .comma :: tokens =>
    readValue? (.array (value :: items) :: frames) tokens
  | .array items :: frames, .closeArray :: tokens =>
    readOn? (array (value :: items).reverse) frames tokens
  | .object members key :: frames, .comma :: .string next :: .colon :: tokens =>
    readValue? (.object (⟨key, value⟩ :: members) next :: frames) tokens
  | .object members key :: frames, .closeObject :: tokens =>
    readOn? (object (⟨key, value⟩ :: members).reverse) frames tokens
  | _, _ => none

end

def ofText? (content : String) : Option Json := do
  readValue? [] (← tokens? content.toList)

end Json

end MessagePattern
