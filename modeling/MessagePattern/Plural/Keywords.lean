import MessagePattern.Message.Basic

/-!
The keywords of a message: the selectors by which its plurals choose, at every depth.
-/

namespace MessagePattern.Plural

/-- The keywords found for each kind of plural, without repetition, in the order of their first
occurrence. -/
structure Keywords where
  cardinal : List String
  ordinal : List String
  deriving DecidableEq, Repr

namespace Keywords

def empty : Keywords := ⟨[], []⟩

def ofKind (keywords : Keywords) : PluralKind → List String
  | .cardinal => keywords.cardinal
  | .ordinal => keywords.ordinal

def isEmpty (keywords : Keywords) : Bool :=
  keywords.cardinal.isEmpty && keywords.ordinal.isEmpty

def insertNew (value : String) (values : List String) : List String :=
  if values.contains value then values else values ++ [value]

def add (keywords : Keywords) (kind : PluralKind) (keyword : String) : Keywords :=
  match kind with
  | .cardinal => { keywords with cardinal := insertNew keyword keywords.cardinal }
  | .ordinal => { keywords with ordinal := insertNew keyword keywords.ordinal }

end Keywords

/-! ## Collecting -/

mutual

def nodeKeywords (keywords : Keywords) : Node → Keywords
  | .choice _ _ cases => caseKeywords keywords cases
  | .plural _ kind _ branches => branchKeywords keywords kind branches
  | _ => keywords

def messageKeywords (keywords : Keywords) : Message → Keywords
  | [] => keywords
  | node :: nodes => messageKeywords (nodeKeywords keywords node) nodes

/-- Adds the keywords in the cases of a choice, whose own selectors are not keywords. -/
def caseKeywords (keywords : Keywords) : Branches → Keywords
  | [] => keywords
  | ⟨_, message⟩ :: branches => caseKeywords (messageKeywords keywords message) branches

/-- Adds each selector of a plural, followed by the keywords in its message. -/
def branchKeywords (keywords : Keywords) (kind : PluralKind) : Branches → Keywords
  | [] => keywords
  | ⟨selector, message⟩ :: branches =>
    branchKeywords (messageKeywords (keywords.add kind selector) message) kind branches

end

def keywords (message : Message) : Keywords :=
  messageKeywords .empty message

end MessagePattern.Plural
