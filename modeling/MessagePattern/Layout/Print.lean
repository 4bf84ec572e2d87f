import MessagePattern.Layout.Quoting

/-!
The canonical written form of a message.

Placeholders have one blank inside each brace. Branches stand on lines of their own, their selectors
aligned on the right.
-/

namespace MessagePattern.Layout

/-! ## Parts of a placeholder -/

/-- The number of characters of the longest selector. -/
def selectorWidth {α : Type} (branches : List (Branch α)) : Nat :=
  branches.foldl (fun width branch => max width branch.selector.length) 0

/-- The beginning of a placeholder with a type. -/
def headFragments (key type : String) : List Fragment :=
  ⟨.bracket, "\x7b "⟩ :: Fragment.ifAny .argument key ++
    ⟨.bracket, ", "⟩ :: Fragment.ifAny .kind type

/-- The style of a placeholder and its closing brace. -/
def styleFragments (style : List Char) : List Fragment :=
  if style.isEmpty then [⟨.bracket, " \x7d"⟩]
  else [⟨.bracket, ", "⟩, ⟨.style, .ofList (quoteStyle style)⟩, ⟨.bracket, " \x7d"⟩]

/-- The offset of a plural, which is left out when it is zero. -/
def offsetFragments (offset : UInt32) : List Fragment :=
  if offset = 0 then []
  else [⟨.neutral, " "⟩, ⟨.offset, "offset:" ++ toString offset.toNat⟩]

/-- The beginning of a branch: a new line, and the selector ending in the given column. -/
def selectorFragments (width : Nat) (selector : String) : List Fragment :=
  [⟨.newline, "\n"⟩,
    ⟨.indent, .ofList (List.replicate (2 + (width - selector.length)) ' ')⟩] ++
    Fragment.ifAny .selector selector ++ [⟨.bracket, " \x7b"⟩]

def closingFragments : List Fragment :=
  [⟨.newline, "\n"⟩, ⟨.bracket, "\x7d"⟩]

/-! ## Messages -/

mutual

def nodeFragments (context : Context) : Node → List Fragment
  | .text content => textFragments context content
  | .argument key =>
    ⟨.bracket, "\x7b "⟩ :: Fragment.ifAny .argument key ++ [⟨.bracket, " \x7d"⟩]
  | .number => [⟨.marker, "#"⟩]
  | .styled key type style =>
    headFragments key type ++ styleFragments (style.getD "").toList
  | .choice key type cases =>
    headFragments key type ++ ⟨.bracket, ","⟩ ::
      branchesFragments (.ofType type) (selectorWidth cases) cases ++ closingFragments
  | .plural key kind offset branches =>
    headFragments key kind.typeName ++ ⟨.bracket, ","⟩ :: offsetFragments offset ++
      branchesFragments .counted (selectorWidth branches) branches ++ closingFragments

def messageFragments (context : Context) : Message → List Fragment
  | [] => []
  | node :: nodes => nodeFragments context node ++ messageFragments context nodes

/-- The fragments of branches whose selectors are aligned to the given width. -/
def branchesFragments (context : Context) (width : Nat) : Branches → List Fragment
  | [] => []
  | ⟨selector, message⟩ :: branches =>
    selectorFragments width selector ++ messageFragments context message ++
      ⟨.bracket, "\x7d"⟩ :: branchesFragments context width branches

end

def fragments (message : Message) : List Fragment :=
  messageFragments .plain message

/-- The canonical pattern of a message. -/
def print (message : Message) : String :=
  joinFragments (fragments message)

example : print [.text "it's ", .argument "n"] = "it''s \x7b n \x7d" := by
  cbv

end MessagePattern.Layout
