import MessagePattern.Message.Basic
import MessagePattern.Pattern.Opening
import MessagePattern.Proofs.Text.Runs

/-!
# Well-formed messages

The shape that every message read from a pattern has, and the one ambiguity of written patterns.
-/

namespace MessagePattern

open Pattern

/-- The types that take a style instead of branches. -/
def TakesStyle (type : String) : Prop :=
  type ≠ "plural" ∧ type ≠ "selectordinal" ∧ type ≠ "select"

instance (type : String) : Decidable (TakesStyle type) :=
  inferInstanceAs (Decidable (_ ∧ _ ∧ _))

theorem takesStyle_iff {type : String} :
    TakesStyle type ↔ PluralKind.ofType? type = none ∧ type ≠ "select" := by
  unfold TakesStyle PluralKind.ofType?
  split
  · simp_all
  · split <;> simp_all

mutual

/-- Whether a node may stand in the given context, and its branches are well formed. -/
def Node.IsWellFormed (context : Context) : Node → Prop
  | .text content => content ≠ ""
  | .argument key => IsWord isTokenChar key
  | .number => context = .counted
  | .styled key type style =>
    IsWord isTokenChar key ∧ IsWord isTokenChar type ∧ TakesStyle type ∧ style ≠ some ""
  | .choice key type cases =>
    IsWord isTokenChar key ∧ type = "select" ∧ cases ≠ [] ∧
      (cases.map Branch.selector).Nodup ∧ branchesWellFormed .plain cases
  | .plural key _ _ branches =>
    IsWord isTokenChar key ∧ branches ≠ [] ∧
      (branches.map Branch.selector).Nodup ∧ branchesWellFormed .counted branches

/-- Whether the nodes are well formed and no two texts are neighbours. -/
def Message.IsWellFormed (context : Context) : Message → Prop
  | [] => True
  | node :: nodes =>
    node.IsWellFormed context ∧
      (node.isPlaceholder = true ∨ ∀ neighbour ∈ nodes.head?, neighbour.isPlaceholder = true) ∧
      Message.IsWellFormed context nodes

/-- Whether the selectors are words and the messages are well formed. -/
def branchesWellFormed (context : Context) : Branches → Prop
  | [] => True
  | ⟨selector, message⟩ :: branches =>
    IsWord isSelectorChar selector ∧ Message.IsWellFormed context message ∧
      branchesWellFormed context branches

end

mutual

def Node.decideWellFormed (context : Context) :
    (node : Node) → Decidable (node.IsWellFormed context)
  | .text content => inferInstanceAs (Decidable (content ≠ ""))
  | .argument key => inferInstanceAs (Decidable (IsWord isTokenChar key))
  | .number => inferInstanceAs (Decidable (context = .counted))
  | .styled _ _ style => inferInstanceAs (Decidable (_ ∧ _ ∧ _ ∧ style ≠ some ""))
  | .choice _ type cases =>
    have := decideBranchesWellFormed .plain cases
    inferInstanceAs
      (Decidable (_ ∧ type = "select" ∧ cases ≠ [] ∧ _ ∧ branchesWellFormed .plain cases))
  | .plural _ _ _ branches =>
    have := decideBranchesWellFormed .counted branches
    inferInstanceAs (Decidable (_ ∧ branches ≠ [] ∧ _ ∧ branchesWellFormed .counted branches))

def Message.decideWellFormed (context : Context) :
    (message : Message) → Decidable (Message.IsWellFormed context message)
  | [] => .isTrue trivial
  | node :: nodes =>
    have := node.decideWellFormed context
    have := Message.decideWellFormed context nodes
    inferInstanceAs
      (Decidable (node.IsWellFormed context ∧
        (_ ∨ ∀ neighbour ∈ nodes.head?, neighbour.isPlaceholder = true) ∧
          Message.IsWellFormed context nodes))

def decideBranchesWellFormed (context : Context) :
    (branches : Branches) → Decidable (branchesWellFormed context branches)
  | [] => .isTrue trivial
  | ⟨_, message⟩ :: branches =>
    have := Message.decideWellFormed context message
    have := decideBranchesWellFormed context branches
    inferInstanceAs
      (Decidable (_ ∧ Message.IsWellFormed context message ∧ branchesWellFormed context branches))

end

instance (context : Context) (message : Message) :
    Decidable (Message.IsWellFormed context message) :=
  message.decideWellFormed context

/-- Whether a selector begins as an offset clause does. -/
def ReadsAsOffset (selector : String) : Prop :=
  ∃ digit rest, digit.isDigit = true ∧ selector.toList = offsetMark ++ digit :: rest

instance (selector : String) : Decidable (ReadsAsOffset selector) :=
  decidable_of_iff
    (offsetMark.isPrefixOf selector.toList = true ∧
      (selector.toList.drop offsetMark.length).head?.any Char.isDigit = true)
    (by
      rw [List.isPrefixOf_iff_prefix, Option.any_eq_true]
      constructor
      · rintro ⟨⟨tail, equality⟩, digit, first, isDigit⟩
        rw [← equality, List.drop_left] at first
        obtain ⟨rest, rfl⟩ := List.head?_eq_some_iff.mp first
        exact ⟨digit, rest, isDigit, equality.symm⟩
      · rintro ⟨digit, rest, isDigit, equality⟩
        rw [equality, List.drop_left]
        exact ⟨List.prefix_append _ _, digit, rfl, isDigit⟩)

mutual

/-- Whether no plural in the node that has no offset has a first selector which reads as one. -/
def Node.IsUnambiguous : Node → Prop
  | .choice _ _ cases => branchesUnambiguous cases
  | .plural _ _ offset branches =>
    (offset = 0 → ∀ branch ∈ branches.head?, ¬ ReadsAsOffset branch.selector) ∧
      branchesUnambiguous branches
  | _ => True

/-- Whether all nodes of the message are unambiguous. -/
def Message.IsUnambiguous : Message → Prop
  | [] => True
  | node :: nodes => node.IsUnambiguous ∧ Message.IsUnambiguous nodes

/-- Whether all messages of the branches are unambiguous. -/
def branchesUnambiguous : Branches → Prop
  | [] => True
  | ⟨_, message⟩ :: branches => Message.IsUnambiguous message ∧ branchesUnambiguous branches

end

mutual

def Node.decideUnambiguous :
    (node : Node) → Decidable node.IsUnambiguous
  | .choice _ _ cases => decideBranchesUnambiguous cases
  | .plural _ _ offset branches =>
    have := decideBranchesUnambiguous branches
    inferInstanceAs
      (Decidable ((offset = 0 → ∀ branch ∈ branches.head?, ¬ ReadsAsOffset branch.selector) ∧
        branchesUnambiguous branches))
  | .text _ | .argument _ | .number | .styled _ _ _ => .isTrue trivial

def Message.decideUnambiguous :
    (message : Message) → Decidable (Message.IsUnambiguous message)
  | [] => .isTrue trivial
  | node :: nodes =>
    have := node.decideUnambiguous
    have := Message.decideUnambiguous nodes
    inferInstanceAs (Decidable (node.IsUnambiguous ∧ Message.IsUnambiguous nodes))

def decideBranchesUnambiguous :
    (branches : Branches) → Decidable (branchesUnambiguous branches)
  | [] => .isTrue trivial
  | ⟨_, message⟩ :: branches =>
    have := Message.decideUnambiguous message
    have := decideBranchesUnambiguous branches
    inferInstanceAs (Decidable (Message.IsUnambiguous message ∧ branchesUnambiguous branches))

end

instance (message : Message) : Decidable (Message.IsUnambiguous message) :=
  message.decideUnambiguous

end MessagePattern
