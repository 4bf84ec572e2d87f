import MessagePattern.Source.Access

/-!
A folder of files held in memory, and finding a file in it by its path.
-/

namespace MessagePattern.Source

/-- The content of a folder by path: the bytes of files, and nothing for folders in it. -/
structure Folder where
  entries : List (List String × Option ByteArray)

inductive Entry where
  | missing
  | folder
  | file (content : ByteArray)

/-- A place that a path leads to: one in the folder, or one outside, where nothing is known but
folders above. -/
inductive Place where
  | outside
  | inside (path : List String)
  deriving DecidableEq, Repr

namespace Folder

def ofList (entries : List (String × Option ByteArray)) : Folder :=
  ⟨entries.map fun (name, content) => (name.splitOn "/", content)⟩

/-- What stands at a place. A path that leads to a file leads through folders. -/
def entry (folder : Folder) : Place → Entry
  | .outside => .folder
  | .inside path =>
    match folder.entries.lookup path with
    | some (some content) => .file content
    | some none => .folder
    | none =>
      if folder.entries.any fun entry => path.isPrefixOf entry.1 then .folder
      else if path.isEmpty then .folder
      else .missing

/-- The longest name that a file can have, in bytes. -/
def nameLimit : Nat := 255

/-- The longest path that can be asked for, in bytes. -/
def pathLimit : Nat := 4095

/-- Goes from a place to an existing one by one part of a path. -/
def step (folder : Folder) (place : Place) (name : String) : Except AccessFailure Place :=
  match folder.entry place with
  | .missing => .error .notFound
  | .file _ => .error .notDirectory
  | .folder =>
    if name = "" ∨ name = "." then .ok place
    else if name = ".." then
      match place with
      | .outside | .inside [] => .ok .outside
      | .inside path => .ok (.inside path.dropLast)
    else if name.utf8ByteSize > nameLimit then .error .invalidFilename
    else
      match place with
      | .outside => .error .notFound
      | .inside path =>
        match folder.entry (.inside (path ++ [name])) with
        | .missing => .error .notFound
        | _ => .ok (.inside (path ++ [name]))

def read (folder : Folder) (path : String) : Except AccessFailure ByteArray := do
  if path.toList.contains '\x00' then throw .invalidInput
  if path.isEmpty then throw .notFound
  if path.utf8ByteSize > pathLimit then throw .invalidFilename
  let start := if path.toList.head? = some '/' then .outside else .inside []
  let place ← (path.splitOn "/").foldlM folder.step start
  match folder.entry place with
  | .file content => return content
  | .folder => throw .isDirectory
  | .missing => throw .notFound

end Folder

end MessagePattern.Source
