import MessagePattern.Pattern.Message
import MessagePattern.Text.Bytes

/-!
Reading a pattern at a position, in one go or request by request.

After each request the cursor stands where its reader stopped, also when the reader failed, and the
next request goes on from there.
-/

namespace MessagePattern.Pattern

/-- A position in a text: how many bytes have been read, and what is left. -/
structure Cursor where
  offset : Nat
  rest : List Char
  deriving Repr, DecidableEq

namespace Cursor

def empty : Cursor := ⟨0, []⟩

def start (content : String) : Cursor := ⟨0, content.toList⟩

/-- The position of a place, given by the text that follows it. -/
def offsetOf (cursor : Cursor) (place : List Char) : Nat :=
  cursor.offset + (byteLength cursor.rest - byteLength place)

/-- Moves on to where the given text is left. -/
def moveTo (cursor : Cursor) (rest : List Char) : Cursor :=
  ⟨cursor.offsetOf rest, rest⟩

def read {α : Type} (cursor : Cursor) (reader : List Char → Reading α) :
    Except PatternError α × Cursor :=
  match reader cursor.rest with
  | .done value rest => (.ok value, cursor.moveTo rest)
  | .failed cause place rest => (.error ⟨cause, cursor.offsetOf place⟩, cursor.moveTo rest)

end Cursor

/-! ## Requests -/

/-- What a cursor can be asked to do. -/
inductive Request where
  | reset
  | load (content : String)
  | whole
  | message (context : Context)
  | text (context : Context)
  | placeholder
  | branches (context : Context)
  | style
  deriving Repr, DecidableEq

inductive Answer where
  | ready
  | message (message : Message)
  | text (text : String)
  | placeholder (node : Node)
  | branches (branches : Branches)
  | error (error : PatternError)
  deriving Repr

def Answer.ofResult {α : Type} (answer : α → Answer) : Except PatternError α → Answer
  | .ok value => answer value
  | .error fault => .error fault

def Cursor.answer {α : Type} (cursor : Cursor) (wrap : α → Answer)
    (reader : List Char → Reading α) : Answer × Cursor :=
  let (result, cursor) := cursor.read reader
  (.ofResult wrap result, cursor)

def Cursor.step (cursor : Cursor) : Request → Answer × Cursor
  | .reset => (.ready, .empty)
  | .load content => (.ready, .start content)
  | .whole => cursor.answer .message readWhole
  | .message context => cursor.answer .message (readMessage context)
  | .text context => cursor.answer (.text <| .ofList ·) (readText context none)
  | .placeholder => cursor.answer .placeholder readPlaceholder
  | .branches context => cursor.answer .branches (readBranches context)
  | .style => cursor.answer (.text <| .ofList ·) readStyle

/-- The message that a pattern stands for, or what is wrong with the pattern. -/
def parse (content : String) : Except PatternError Message :=
  ((Cursor.start content).read readWhole).1

/-- The plural of a word is formed with an s, and used for any count but one. -/
private def quantity (count : Nat) (word : String) : String :=
  toString count ++ " " ++ word ++ if count = 1 then "" else "s"

/-- What came of parsing a pattern, in one line for a log. -/
def summary : Except PatternError Message → String
  | .ok message =>
    "Found " ++ quantity message.length "node" ++ " with " ++
      quantity message.placeholderCount "placeholder"
  | .error error => "error: " ++ error.message

end MessagePattern.Pattern
