import MessagePattern.Json.Value
import MessagePattern.Message.Basic

/-!
Messages as JSON.

A message is the array of its nodes. A node, a placeholder with a type and a style are objects with
one member, whose key says what they are.
-/

namespace MessagePattern

/-! ## Writing -/

def PluralKind.name : PluralKind → String
  | cardinal => "Cardinal"
  | ordinal => "Ordinal"

def PluralKind.ofName? (name : String) : Option PluralKind :=
  if name = "Cardinal" then some cardinal
  else if name = "Ordinal" then some ordinal
  else none

def styledToJson (key type : String) (style : Json) : Json :=
  .tagged "Placeholder" <| .tagged "Styled" <|
    .record [("key", .text key), ("kind", .text type), ("style", style)]

mutual

/-- The object for a node. -/
def Node.toJson : Node → Json
  | .text content => .tagged "Text" (.text content)
  | .argument key => .tagged "Placeholder" <| .tagged "Argument" <| .record [("key", .text key)]
  | .number => .tagged "Placeholder" (.text "ArgNumRef")
  | .styled key type none => styledToJson key type .null
  | .styled key type (some style) => styledToJson key type (.tagged "Text" (.text style))
  | .choice key type cases =>
    styledToJson key type (.tagged "Cases" (.object (branchesToJson cases)))
  | .plural key kind offset branches =>
    .tagged "Placeholder" <| .tagged "Plural" <|
      .record [("key", .text key), ("kind", .text kind.name), ("offset", .natural offset.toNat),
        ("children", .object (branchesToJson branches))]

def nodesToJson : Message → List Json
  | [] => []
  | node :: nodes => node.toJson :: nodesToJson nodes

def branchesToJson : Branches → List (Json.Member Json)
  | [] => []
  | ⟨selector, message⟩ :: branches =>
    ⟨Json.escape selector, .array (nodesToJson message)⟩ :: branchesToJson branches

end

def Message.toJson (message : Message) : Json :=
  .array (nodesToJson message)

/-! ## Reading

Each array and object that is looked into takes one level of the room for nested values. -/

/-- An offset is a whole number of 32 bits. -/
def offsetOfJson? (value : Json) : Option UInt32 := do
  let offset ← value.natural?
  if offset < UInt32.size then some (.ofNat offset) else none

mutual

def Message.ofJson? : Nat → Json → Option Message
  | room + 1, .array items => items.mapM fun item => Node.ofJson? room item
  | _, _ => none

def Node.ofJson? : Nat → Json → Option Node
  | room + 1, value => do
    match ← value.tagged? with
    | ("Text", content) => return .text (← content.text?)
    | ("Placeholder", placeholder) => placeholderOfJson? room placeholder
    | _ => none
  | _, _ => none

def placeholderOfJson? : Nat → Json → Option Node
  | room, value =>
    if value.name? room = some "ArgNumRef" then some .number
    else
      match room with
      | 0 => none
      | room + 1 => do
        match ← value.tagged? with
        | ("Argument", fields) => argumentOfJson? room fields
        | ("Styled", fields) => styledOfJson? room fields
        | ("Plural", fields) => pluralOfJson? room fields
        | _ => none

def argumentOfJson? : Nat → Json → Option Node
  | 0, _ => none
  | _ + 1, value => do
    match ← value.fields? ["key"] 1 with
    | [some key] => return .argument (← key.text?)
    | _ => none

def styledOfJson? : Nat → Json → Option Node
  | 0, _ => none
  | room + 1, value => do
    match ← value.fields? ["key", "kind", "style"] 3 with
    | [some key, some type, none] => return .styled (← key.text?) (← type.text?) none
    | [some key, some type, some .null] => return .styled (← key.text?) (← type.text?) none
    | [some key, some type, some style] =>
      detailOfJson? room (← key.text?) (← type.text?) style
    | _ => none

/-- The placeholder with a style or cases. -/
def detailOfJson? : Nat → String → String → Json → Option Node
  | 0, _, _, _ => none
  | room + 1, key, type, value => do
    match ← value.tagged? with
    | ("Text", style) => return .styled key type (some (← style.text?))
    | ("Cases", cases) => return .choice key type (← branchesOfJson? room cases)
    | _ => none

def pluralOfJson? : Nat → Json → Option Node
  | 0, _ => none
  | room + 1, value => do
    match ← value.fields? ["key", "kind", "offset", "children"] 4 with
    | [some key, some kind, some offset, some branches] =>
      return .plural (← key.text?) (← PluralKind.ofName? (← kind.name? room))
        (← offsetOfJson? offset) (← branchesOfJson? room branches)
    | _ => none

/-- The branches that an object stands for; a selector given again replaces its message. -/
def branchesOfJson? : Nat → Json → Option Branches
  | room + 1, .object members => do
    let branches ← members.mapM fun member => do
      return ⟨← Json.unescape? member.key, ← Message.ofJson? room member.value⟩
    return Branch.ofList branches
  | _, _ => none

end

/-- How deep values may be nested in text that is read. -/
def nestingLimit : Nat := 127

/-- The message that JSON text stands for, if its values fit into the given room. -/
def Message.ofJsonTextWithin? (room : Nat) (content : String) : Option Message := do
  Message.ofJson? room (← Json.ofText? content)

def Message.ofJsonText? (content : String) : Option Message :=
  Message.ofJsonTextWithin? nestingLimit content

end MessagePattern
