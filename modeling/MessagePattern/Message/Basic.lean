/-!
Messages: the content of a pattern, as literal text and placeholders in the order of output.
-/

namespace MessagePattern

/-- The two kinds of number a plural placeholder can select by: a count or a rank. -/
inductive PluralKind where
  | cardinal
  | ordinal
  deriving DecidableEq, Repr

namespace PluralKind

/-- The placeholder type that pattern text uses for the kind. -/
def typeName : PluralKind → String
  | cardinal => "plural"
  | ordinal => "selectordinal"

/-- The kind that a placeholder type stands for, if it is a plural type at all. -/
def ofType? (type : String) : Option PluralKind :=
  if type = "plural" then some cardinal
  else if type = "selectordinal" then some ordinal
  else none

@[simp] theorem ofType?_typeName (kind : PluralKind) : ofType? kind.typeName = some kind := by
  cases kind <;> decide

theorem typeName_of_ofType? {type : String} {kind : PluralKind}
    (isPlural : ofType? type = some kind) :
    kind.typeName = type := by
  unfold ofType? at isPlural
  split at isPlural
  · next isCardinal =>
      cases isPlural
      exact isCardinal.symm
  · split at isPlural
    · next isOrdinal =>
        cases isPlural
        exact isOrdinal.symm
    · cases isPlural

end PluralKind

/-! ## Branches and nodes -/

/-- One branch of a placeholder: a selector and what is put out when it is chosen. -/
structure Branch (α : Type) where
  selector : String
  message : α
  deriving DecidableEq, Repr

/-- One part of a message. A placeholder is any node but `text`. -/
inductive Node where
  /-- Text that is put out as it stands. -/
  | text (content : String)
  /-- The value of an argument. -/
  | argument (key : String)
  /-- The number sign, which stands for the number of the enclosing plural. -/
  | number
  /-- The value of an argument, formatted by a type and an optional style. -/
  | styled (key type : String) (style : Option String)
  /-- One of several messages, chosen by the value of an argument. -/
  | choice (key type : String) (cases : List (Branch (List Node)))
  /-- One of several messages, chosen by the plural category of a number less the offset. -/
  | plural (key : String) (kind : PluralKind) (offset : UInt32)
      (branches : List (Branch (List Node)))
  deriving Repr

/-- A message is its nodes in the order of output. -/
abbrev Message := List Node

/-- The branches of one placeholder, in the order in which they are written. -/
abbrev Branches := List (Branch Message)

/-- The argument that a placeholder is about. -/
def Node.key? : Node → Option String
  | text _ | number => none
  | argument key | styled key _ _ | choice key _ _ | plural key _ _ _ => some key

/-- Whether the node is a placeholder. -/
def Node.isPlaceholder : Node → Bool
  | text _ => false
  | _ => true

/-- The arguments of the placeholders of the message itself, not of its branches, with `none`
for a number sign. -/
def Message.keys (message : Message) : List (Option String) :=
  (message.filter Node.isPlaceholder).map Node.key?

mutual

/-- The number of placeholders in a node, its branches included. -/
def Node.placeholderCount : Node → Nat
  | .text _ => 0
  | .choice _ _ cases => 1 + branchesPlaceholderCount cases
  | .plural _ _ _ branches => 1 + branchesPlaceholderCount branches
  | _ => 1

/-- The number of placeholders in a message, at every depth. -/
def Message.placeholderCount : Message → Nat
  | [] => 0
  | node :: nodes => node.placeholderCount + Message.placeholderCount nodes

/-- The number of placeholders in all the branches of a placeholder. -/
def branchesPlaceholderCount : Branches → Nat
  | [] => 0
  | ⟨_, message⟩ :: branches =>
    Message.placeholderCount message + branchesPlaceholderCount branches

end

/-- Sets the value of a selector: in its place if it is there, else at the end. -/
def Branch.insert {α : Type} (selector : String) (message : α) :
    List (Branch α) → List (Branch α)
  | [] => [⟨selector, message⟩]
  | branch :: branches =>
    if branch.selector = selector then ⟨selector, message⟩ :: branches
    else branch :: Branch.insert selector message branches

/-- The branches that result from setting each given selector in turn. -/
def Branch.ofList {α : Type} (entries : List (Branch α)) : List (Branch α) :=
  entries.foldl (fun branches entry => Branch.insert entry.selector entry.message branches) []

/-! ## Agreement -/

mutual

/-- Whether two nodes are alike but for the order of branches. -/
def Node.agrees : Node → Node → Bool
  | .text left, .text right => left == right
  | .argument left, .argument right => left == right
  | .number, .number => true
  | .styled key type style, .styled key' type' style' =>
    key == key' && type == type' && style == style'
  | .choice key type cases, .choice key' type' cases' =>
    key == key' && type == type' && cases.length == cases'.length &&
      branchesAgree cases cases'
  | .plural key kind offset branches, .plural key' kind' offset' branches' =>
    key == key' && kind == kind' && offset == offset' &&
      branches.length == branches'.length && branchesAgree branches branches'
  | _, _ => false

/-- Whether two messages are alike but for the order of branches. -/
def Message.agrees : Message → Message → Bool
  | [], [] => true
  | node :: nodes, node' :: nodes' => node.agrees node' && Message.agrees nodes nodes'
  | _, _ => false

/-- Whether each of the branches on the left stands on the right with a message alike. -/
def branchesAgree : Branches → Branches → Bool
  | [], _ => true
  | ⟨selector, message⟩ :: branches, others =>
    (match others.find? fun other => other.selector == selector with
      | some other => Message.agrees message other.message
      | none => false) &&
      branchesAgree branches others

end

/-- Where a text stands: directly in a branch of a plural the number sign is syntax, anywhere
else it is text. -/
inductive Context where
  | plain
  | counted
  deriving DecidableEq, Repr

namespace Context

/-- The context inside the branches of a placeholder of the given type. -/
def ofType (type : String) : Context :=
  if (PluralKind.ofType? type).isSome then counted else plain

/-- The characters that text cannot hold unquoted. -/
def isSyntax (context : Context) (c : Char) : Bool :=
  c == '{' || c == '}' || (context == counted && c == '#')

end Context

end MessagePattern
