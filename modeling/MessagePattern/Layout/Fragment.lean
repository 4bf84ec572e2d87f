/-!
Fragments: the written form of a message cut into parts that each have one role.
-/

namespace MessagePattern.Layout

/-- What a part of the written form is for. -/
inductive Role where
  | neutral
  | indent
  | newline
  | text
  | quote
  | bracket
  | argument
  | kind
  | style
  | offset
  | selector
  | marker
  deriving DecidableEq, Repr

/-- A part of the written form. -/
structure Fragment where
  role : Role
  content : String
  deriving DecidableEq, Repr

/-- The fragment with the given content, or none if there is no content. -/
def Fragment.ifAny (role : Role) (content : String) : List Fragment :=
  if content.isEmpty then [] else [⟨role, content⟩]

/-- The written form that the fragments make up. -/
def joinFragments (fragments : List Fragment) : String :=
  String.join (fragments.map Fragment.content)

end MessagePattern.Layout
