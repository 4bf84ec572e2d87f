import Mathlib.Data.List.Forall2
import MessagePattern.Layout.Print

/-!
# Aligned selectors

Wherever branches stand in a message, they are written as one block, in which each of them begins on
a line of its own and all selectors end in the same column. What is written around the block is the
same for all branches that can stand there.
-/

namespace MessagePattern

/-- A placeholder that chooses between branches, without its branches. -/
inductive Chooser where
  | choice (key type : String)
  | plural (key : String) (kind : PluralKind) (offset : UInt32)
  deriving DecidableEq, Repr

namespace Chooser

def node : Chooser → Branches → Node
  | choice key type, cases => .choice key type cases
  | plural key kind offset, branches => .plural key kind offset branches

/-- Where the messages of the branches stand. -/
def context : Chooser → Context
  | choice _ type => .ofType type
  | plural _ _ _ => .counted

end Chooser

/-- A place for branches in a message: between the nodes of the message itself, or in the message of
a branch of one of its placeholders. -/
inductive Place where
  | here (left : Message) (chooser : Chooser) (right : Message)
  | inBranch (left : Message) (chooser : Chooser) (before : Branches) (selector : String)
      (inner : Place) (after : Branches) (right : Message)

namespace Place

/-- The message that has the given branches in the place. -/
def fill : Place → Branches → Message
  | here left chooser right, branches => left ++ chooser.node branches :: right
  | inBranch left chooser before selector inner after right, branches =>
    left ++ chooser.node (before ++ ⟨selector, inner.fill branches⟩ :: after) :: right

/-- Where the messages of branches in the place stand. -/
def context : Place → Context
  | here _ chooser _ => chooser.context
  | inBranch _ _ _ _ inner _ _ => inner.context

end Place

namespace Layout

/-! ## Written branches -/

/-- What is written for a branch: the blanks in front of its selector, the selector, and the
fragments of its message. -/
structure WrittenBranch where
  indent : String
  selector : String
  body : List Fragment

namespace WrittenBranch

def fragments (written : WrittenBranch) : List Fragment :=
  [⟨.newline, "\n"⟩, ⟨.indent, written.indent⟩, ⟨.selector, written.selector⟩,
    ⟨.bracket, " \x7b"⟩] ++ written.body ++ [⟨.bracket, "\x7d"⟩]

/-- Whether a branch is written with its selector ending two columns behind the given width. -/
structure IsAligned (context : Context) (width : Nat) (written : WrittenBranch)
    (branch : Branch Message) : Prop where
  selector_eq : written.selector = branch.selector
  body_eq : written.body = messageFragments context branch.message
  blank : ∀ c ∈ written.indent.toList, c = ' '
  two_le : 2 ≤ written.indent.length
  fits : branch.selector.length ≤ width
  aligned : written.indent.length + branch.selector.length = 2 + width

end WrittenBranch

section Width

variable {branches : Branches}

/-- The width of selectors depends on the selectors alone. -/
theorem selectorWidth_eq_foldl :
    selectorWidth branches = (branches.map fun branch => branch.selector.length).foldl max 0 := by
  rw [selectorWidth, List.foldl_map]

theorem selectorWidth_append_cons
    (before after : Branches) (selector : String) (left right : Message) :
    selectorWidth (before ++ ⟨selector, left⟩ :: after) =
      selectorWidth (before ++ ⟨selector, right⟩ :: after) := by
  simp [selectorWidth_eq_foldl]

theorem max?_eq_selectorWidth
    (nonempty : branches ≠ []) :
    (branches.map fun branch => branch.selector.length).max? = some (selectorWidth branches) := by
  obtain ⟨branch, others, rfl⟩ := List.exists_cons_of_ne_nil nonempty
  rw [selectorWidth_eq_foldl, List.map_cons, List.max?_cons', List.foldl_cons, Nat.zero_max]

theorem length_le_selectorWidth
    {branch : Branch Message}
    (isBranch : branch ∈ branches) :
    branch.selector.length ≤ selectorWidth branches := by
  have isMax := max?_eq_selectorWidth (List.ne_nil_of_mem isBranch)
  have isLength := List.mem_map_of_mem (f := fun branch => branch.selector.length) isBranch
  exact (List.max?_eq_some_iff.mp isMax).2 _ isLength

end Width

/-- Branches whose selectors fit into a width are written aligned to it, in their order. -/
theorem exists_aligned_branchesFragments
    (context : Context) {width : Nat} {branches : Branches}
    (nonempty : ∀ branch ∈ branches, branch.selector ≠ "")
    (fits : ∀ branch ∈ branches, branch.selector.length ≤ width) :
    ∃ written : List WrittenBranch,
      branchesFragments context width branches = written.flatMap WrittenBranch.fragments ∧
        List.Forall₂ (WrittenBranch.IsAligned context width) written branches := by
  induction branches with
  | nil =>
      exact ⟨[], by simp [branchesFragments], .nil⟩
  | cons branch branches inductionHypothesis =>
      obtain ⟨selector, message⟩ := branch
      obtain ⟨selectorNonempty, othersNonempty⟩ := List.forall_mem_cons.mp nonempty
      obtain ⟨selectorFits, othersFit⟩ := List.forall_mem_cons.mp fits
      obtain ⟨written, writtenEq, areAligned⟩ := inductionHypothesis othersNonempty othersFit
      let indent := String.ofList (List.replicate (2 + (width - selector.length)) ' ')
      have indentLength : indent.length = 2 + (width - selector.length) := by
        simp [indent]
      have isAligned :
          WrittenBranch.IsAligned context width
            ⟨indent, selector, messageFragments context message⟩ ⟨selector, message⟩ :=
        { selector_eq := rfl
          body_eq := rfl
          blank := by simp [indent]
          two_le := by simp [indentLength]
          fits := selectorFits
          aligned := by
            dsimp only at selectorFits ⊢
            omega }
      refine ⟨⟨indent, selector, messageFragments context message⟩ :: written, ?_,
        .cons isAligned areAligned⟩
      simp [branchesFragments, selectorFragments, Fragment.ifAny, selectorNonempty, writtenEq,
        WrittenBranch.fragments, indent]

theorem messageFragments_append (context : Context) (left right : Message) :
    messageFragments context (left ++ right) =
      messageFragments context left ++ messageFragments context right := by
  induction left with
  | nil =>
      simp [messageFragments]
  | cons node left inductionHypothesis =>
      simp [messageFragments, inductionHypothesis]

theorem branchesFragments_append
    (context : Context) (width : Nat) (left right : Branches) :
    branchesFragments context width (left ++ right) =
      branchesFragments context width left ++ branchesFragments context width right := by
  induction left with
  | nil =>
      simp [branchesFragments]
  | cons branch left inductionHypothesis =>
      simp [branchesFragments, inductionHypothesis]

/-- What is written for a placeholder in front of its branches. -/
def chooserFragments : Chooser → List Fragment
  | .choice key type => headFragments key type ++ [⟨.bracket, ","⟩]
  | .plural key kind offset =>
    headFragments key kind.typeName ++ ⟨.bracket, ","⟩ :: offsetFragments offset

theorem nodeFragments_node
    (context : Context) (chooser : Chooser) (branches : Branches) :
    nodeFragments context (chooser.node branches) =
      chooserFragments chooser ++
        branchesFragments chooser.context (selectorWidth branches) branches ++
          closingFragments := by
  cases chooser <;> simp [nodeFragments, Chooser.node, Chooser.context, chooserFragments]

/-- Branches are written on their own, in front of and behind what is written around them. -/
theorem exists_messageFragments_fill (place : Place) (context : Context) :
    ∃ left right, ∀ branches,
      messageFragments context (place.fill branches) =
        left ++ branchesFragments place.context (selectorWidth branches) branches ++ right := by
  induction place generalizing context with
  | here left chooser right =>
      refine ⟨messageFragments context left ++ chooserFragments chooser,
        closingFragments ++ messageFragments context right, fun branches => ?_⟩
      simp [Place.fill, Place.context, messageFragments_append, messageFragments,
        nodeFragments_node]
  | inBranch left chooser before selector inner after right inductionHypothesis =>
      obtain ⟨innerLeft, innerRight, innerEq⟩ := inductionHypothesis chooser.context
      -- The width of the branches around does not depend on the message in one of them.
      let width := selectorWidth (before ++ ⟨selector, []⟩ :: after)
      refine ⟨messageFragments context left ++ chooserFragments chooser ++
          branchesFragments chooser.context width before ++ selectorFragments width selector ++
            innerLeft,
        innerRight ++ ⟨.bracket, "\x7d"⟩ :: branchesFragments chooser.context width after ++
          closingFragments ++ messageFragments context right, fun branches => ?_⟩
      simp [Place.fill, Place.context, messageFragments_append, messageFragments,
        nodeFragments_node, selectorWidth_append_cons before after selector _ [],
        branchesFragments_append, branchesFragments, innerEq, width]

/-- Wherever branches stand in a message, each of them begins on a new line with at least two blanks
and its selector, and all of their selectors end in the column of the longest one. -/
theorem exists_aligned_fragments_fill (place : Place) :
    ∃ left right : List Fragment, ∀ branches : Branches,
      branches ≠ [] →
      (∀ branch ∈ branches, branch.selector ≠ "") →
      ∃ written : List WrittenBranch,
        fragments (place.fill branches) =
            left ++ written.flatMap WrittenBranch.fragments ++ right ∧
          List.Forall₂ (WrittenBranch.IsAligned place.context (selectorWidth branches)) written
            branches ∧
          (branches.map fun branch => branch.selector.length).max? =
            some (selectorWidth branches) := by
  obtain ⟨left, right, fillEq⟩ := exists_messageFragments_fill place .plain
  refine ⟨left, right, fun branches nonempty selectorsNonempty => ?_⟩
  obtain ⟨written, writtenEq, areAligned⟩ :=
    exists_aligned_branchesFragments place.context selectorsNonempty
      fun _ => length_le_selectorWidth
  refine ⟨written, ?_, areAligned, max?_eq_selectorWidth nonempty⟩
  rw [fragments, fillEq, writtenEq]

/-- Selectors of different widths. -/
def unevenBranches : Branches :=
  [⟨"ü", [.text "x"]⟩, ⟨"=10", [.number]⟩]

/-- In a branch that has a selector of its own to align. -/
def innerPlace : Place :=
  .inBranch [] (.choice "g" "select") [⟨"other", []⟩] "a"
    (.here [.text "#"] (.plural "n" .cardinal 1) []) [] []

theorem exists_aligned_fragments_nested :
    unevenBranches ≠ [] ∧
      (∀ branch ∈ unevenBranches, branch.selector ≠ "") ∧
      ∃ left right : List Fragment, ∃ written : List WrittenBranch,
        fragments (innerPlace.fill unevenBranches) =
            left ++ written.flatMap WrittenBranch.fragments ++ right ∧
          List.Forall₂ (WrittenBranch.IsAligned .counted 3) written unevenBranches ∧
          [1, 3].max? = some 3 := by
  have nonempty : unevenBranches ≠ [] := nofun
  have selectorsNonempty : ∀ branch ∈ unevenBranches, branch.selector ≠ "" := by
    simp [unevenBranches]
  obtain ⟨left, right, isWritten⟩ := exists_aligned_fragments_fill innerPlace
  exact ⟨nonempty, selectorsNonempty, left, right, isWritten _ nonempty selectorsNonempty⟩

end Layout

end MessagePattern
