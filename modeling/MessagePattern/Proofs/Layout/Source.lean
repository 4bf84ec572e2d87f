import MessagePattern.Layout.Print
import MessagePattern.Pattern.Opening

/-!
# The source of a message

The characters that the layout writes, without the fragments that they are cut into.
-/

namespace MessagePattern.Layout

/-- The characters that the fragments are made of. -/
def charsOf (fragments : List Fragment) : List Char :=
  fragments.flatMap fun fragment => fragment.content.toList

@[simp] theorem charsOf_nil : charsOf [] = [] := rfl

@[simp] theorem charsOf_cons (fragment : Fragment) (fragments : List Fragment) :
    charsOf (fragment :: fragments) = fragment.content.toList ++ charsOf fragments := rfl

@[simp] theorem charsOf_append (left right : List Fragment) :
    charsOf (left ++ right) = charsOf left ++ charsOf right :=
  List.flatMap_append

@[simp] theorem charsOf_ifAny (role : Role) (content : String) :
    charsOf (Fragment.ifAny role content) = content.toList := by
  unfold Fragment.ifAny
  split
  · next isEmpty =>
      simp [String.isEmpty_iff.mp isEmpty]
  · simp

theorem toList_joinFragments (fragments : List Fragment) :
    (joinFragments fragments).toList = charsOf fragments := by
  rw [joinFragments, String.toList_join, List.flatMap_map]
  rfl

namespace Piece

/-- The part of the text that the piece stands for. -/
def chars : Piece → List Char
  | plain chars => chars
  | quoted run => run

def source : Piece → List Char
  | plain chars => doubleApostrophes chars
  | quoted run => '\'' :: doubleApostrophes run ++ ['\'']

theorem toList_fragment (piece : Piece) :
    piece.fragment.content.toList = piece.source := by
  cases piece <;> exact String.toList_ofList

end Piece

/-- What is written in front of a selector: it stands on a line of its own. -/
def leadSource (width : Nat) (selector : String) : List Char :=
  '\n' :: List.replicate (2 + (width - selector.length)) ' '

/-- What is written for an offset. -/
def offsetSource (offset : UInt32) : List Char :=
  if offset = 0 then [] else ' ' :: Pattern.offsetMark ++ offset.toNat.repr.toList

/-- What is written in front of the style or the branches of a placeholder. -/
def headSource (key type : String) : List Char :=
  '{' :: (' ' :: key.toList) ++ ',' :: (' ' :: type.toList)

def nodeSource (context : Context) (node : Node) : List Char :=
  charsOf (nodeFragments context node)

def messageSource (context : Context) (message : Message) : List Char :=
  charsOf (messageFragments context message)

def branchesSource (context : Context) (width : Nat) (branches : Branches) : List Char :=
  charsOf (branchesFragments context width branches)

theorem toList_print (message : Message) :
    (print message).toList = messageSource .plain message :=
  toList_joinFragments _

section Equations

variable {context : Context} {width : Nat} {key type selector : String}

theorem charsOf_headFragments (key type : String) :
    charsOf (headFragments key type) = headSource key type := by
  simp [headFragments, headSource]

theorem charsOf_offsetFragments (offset : UInt32) :
    charsOf (offsetFragments offset) = offsetSource offset := by
  unfold offsetFragments offsetSource
  split
  · rfl
  · rw [charsOf_cons, charsOf_cons, charsOf_nil, String.toList_append, List.append_nil]
    rfl

theorem charsOf_selectorFragments (width : Nat) (selector : String) :
    charsOf (selectorFragments width selector) =
      leadSource width selector ++ (selector.toList ++ [' ', '{']) := by
  simp [selectorFragments, leadSource]

@[simp] theorem nodeSource_text (content : String) :
    nodeSource context (.text content) =
      (pieces context content.toList).flatMap Piece.source := by
  rw [nodeSource, nodeFragments, textFragments, charsOf, List.flatMap_map]
  simp only [Piece.toList_fragment]

@[simp] theorem nodeSource_argument (key : String) :
    nodeSource context (.argument key) = '{' :: (' ' :: key.toList ++ [' ']) ++ ['}'] := by
  simp [nodeSource, nodeFragments]

@[simp] theorem nodeSource_number :
    nodeSource context .number = ['#'] := by
  simp [nodeSource, nodeFragments]

@[simp] theorem nodeSource_unstyled (key type : String) :
    nodeSource context (.styled key type none) = headSource key type ++ [' ', '}'] := by
  simp [nodeSource, nodeFragments, charsOf_headFragments, styleFragments]

theorem nodeSource_styled
    {style : String}
    (nonempty : style ≠ "") :
    nodeSource context (.styled key type (some style)) =
      headSource key type ++ ',' :: (' ' :: quoteStyle style.toList ++ [' ']) ++ ['}'] := by
  simp [nodeSource, nodeFragments, charsOf_headFragments, styleFragments, nonempty]

@[simp] theorem nodeSource_choice (key type : String) (cases : Branches) :
    nodeSource context (.choice key type cases) =
      headSource key type ++ ',' ::
        (branchesSource (.ofType type) (selectorWidth cases) cases ++ ['\n']) ++ ['}'] := by
  simp [nodeSource, nodeFragments, charsOf_headFragments, branchesSource, closingFragments]

@[simp] theorem nodeSource_plural
    (key : String) (kind : PluralKind) (offset : UInt32) (branches : Branches) :
    nodeSource context (.plural key kind offset branches) =
      headSource key kind.typeName ++ ',' ::
        (offsetSource offset ++
          (branchesSource .counted (selectorWidth branches) branches ++ ['\n'])) ++ ['}'] := by
  simp [nodeSource, nodeFragments, charsOf_headFragments, charsOf_offsetFragments,
    branchesSource, closingFragments]

@[simp] theorem messageSource_nil :
    messageSource context [] = [] := by
  simp [messageSource, messageFragments]

@[simp] theorem messageSource_cons (node : Node) (nodes : Message) :
    messageSource context (node :: nodes) =
      nodeSource context node ++ messageSource context nodes := by
  simp [messageSource, messageFragments, nodeSource]

@[simp] theorem branchesSource_nil :
    branchesSource context width [] = [] := by
  simp [branchesSource, branchesFragments]

@[simp] theorem branchesSource_cons (message : Message) (branches : Branches) :
    branchesSource context width (⟨selector, message⟩ :: branches) =
      leadSource width selector ++
        (selector.toList ++
          ' ' :: '{' :: (messageSource context message ++
            '}' :: branchesSource context width branches)) := by
  simp [branchesSource, branchesFragments, charsOf_selectorFragments, messageSource]

end Equations

end MessagePattern.Layout
