import Mathlib.Data.List.Basic
import MessagePattern.Plural.Keywords

/-!
# The keywords of a message

Which selectors the plurals of a message have, the order in which a walk through the message meets
them, and that they are collected as they are met.
-/

namespace MessagePattern.Plural

/-- Whether some plural of a kind, at any depth of the message, has a keyword as a selector. -/
inductive Selects (kind : PluralKind) (keyword : String) : Message → Prop
  | here {message : Message} {key offset branches} {branch : Branch Message} :
      .plural key kind offset branches ∈ message → branch ∈ branches →
        branch.selector = keyword → Selects kind keyword message
  | inBranch {message : Message} {key other offset branches} {branch : Branch Message} :
      .plural key other offset branches ∈ message → branch ∈ branches →
        Selects kind keyword branch.message → Selects kind keyword message
  | inCase {message : Message} {key type cases} {branch : Branch Message} :
      .choice key type cases ∈ message → branch ∈ cases →
        Selects kind keyword branch.message → Selects kind keyword message

mutual

/-- The selectors of the plurals in a node, each with its kind, as a walk meets them: those of a
branch after its own selector, and branch by branch. -/
def nodeWalk : Node → List (PluralKind × String)
  | .choice _ _ cases => caseWalk cases
  | .plural _ kind _ branches => branchWalk kind branches
  | _ => []

def messageWalk : Message → List (PluralKind × String)
  | [] => []
  | node :: nodes => nodeWalk node ++ messageWalk nodes

def caseWalk : Branches → List (PluralKind × String)
  | [] => []
  | ⟨_, message⟩ :: branches => messageWalk message ++ caseWalk branches

def branchWalk (kind : PluralKind) : Branches → List (PluralKind × String)
  | [] => []
  | ⟨selector, message⟩ :: branches =>
    (kind, selector) :: messageWalk message ++ branchWalk kind branches

end

section Walk

variable {kind : PluralKind} {keyword : String}

theorem mem_messageWalk_iff_exists {message : Message} :
    (kind, keyword) ∈ messageWalk message ↔ ∃ node ∈ message, (kind, keyword) ∈ nodeWalk node := by
  induction message with
  | nil =>
      simp [messageWalk]
  | cons node nodes inductionHypothesis =>
      simp [messageWalk, inductionHypothesis]

theorem mem_caseWalk_iff_exists {cases : Branches} :
    (kind, keyword) ∈ caseWalk cases ↔
      ∃ branch ∈ cases, (kind, keyword) ∈ messageWalk branch.message := by
  induction cases with
  | nil =>
      simp [caseWalk]
  | cons branch cases inductionHypothesis =>
      simp [caseWalk, inductionHypothesis]

theorem mem_branchWalk_iff_exists {other : PluralKind} {branches : Branches} :
    (kind, keyword) ∈ branchWalk other branches ↔
      ∃ branch ∈ branches,
        (kind = other ∧ branch.selector = keyword) ∨
          (kind, keyword) ∈ messageWalk branch.message := by
  induction branches with
  | nil =>
      simp [branchWalk]
  | cons branch branches inductionHypothesis =>
      simp [branchWalk, inductionHypothesis, or_assoc, eq_comm]

theorem mem_messageWalk_of_selects
    {message : Message}
    (selects : Selects kind keyword message) :
    (kind, keyword) ∈ messageWalk message := by
  rw [mem_messageWalk_iff_exists]
  induction selects with
  | here isNode isBranch isKeyword =>
      exact ⟨_, isNode, mem_branchWalk_iff_exists.mpr ⟨_, isBranch, Or.inl ⟨rfl, isKeyword⟩⟩⟩
  | inBranch isNode isBranch _ inductionHypothesis =>
      have met := mem_messageWalk_iff_exists.mpr inductionHypothesis
      exact ⟨_, isNode, mem_branchWalk_iff_exists.mpr ⟨_, isBranch, Or.inr met⟩⟩
  | inCase isNode isBranch _ inductionHypothesis =>
      have met := mem_messageWalk_iff_exists.mpr inductionHypothesis
      exact ⟨_, isNode, mem_caseWalk_iff_exists.mpr ⟨_, isBranch, met⟩⟩

mutual

theorem selects_of_mem_nodeWalk
    (node : Node)
    (met : (kind, keyword) ∈ nodeWalk node)
    {message : Message}
    (isNode : node ∈ message) :
    Selects kind keyword message := by
  match node with
  | .choice key type cases =>
      obtain ⟨branch, isBranch, selects⟩ := exists_selects_of_mem_caseWalk cases met
      exact .inCase isNode isBranch selects
  | .plural key other offset branches =>
      obtain ⟨branch, isBranch, ⟨rfl, isKeyword⟩ | selects⟩ :=
        exists_selects_of_mem_branchWalk other branches met
      · exact .here isNode isBranch isKeyword
      · exact .inBranch isNode isBranch selects
  | .text _ | .argument _ | .number | .styled _ _ _ =>
      exact absurd met List.not_mem_nil

theorem selects_of_mem_messageWalk
    (nodes : Message)
    (met : (kind, keyword) ∈ messageWalk nodes)
    {message : Message}
    (areNodes : nodes ⊆ message) :
    Selects kind keyword message := by
  match nodes with
  | [] =>
      exact absurd met List.not_mem_nil
  | node :: nodes =>
      obtain ⟨isNode, areNodes⟩ := List.cons_subset.mp areNodes
      rcases List.mem_append.mp met with metInNode | metLater
      · exact selects_of_mem_nodeWalk node metInNode isNode
      · exact selects_of_mem_messageWalk nodes metLater areNodes

theorem exists_selects_of_mem_caseWalk
    (cases : Branches)
    (met : (kind, keyword) ∈ caseWalk cases) :
    ∃ branch ∈ cases, Selects kind keyword branch.message := by
  match cases with
  | [] =>
      exact absurd met List.not_mem_nil
  | ⟨selector, message⟩ :: cases =>
      rcases List.mem_append.mp met with metInBranch | metLater
      · have selects := selects_of_mem_messageWalk message metInBranch (List.Subset.refl _)
        exact ⟨_, List.mem_cons_self, selects⟩
      · obtain ⟨branch, isBranch, selects⟩ := exists_selects_of_mem_caseWalk cases metLater
        exact ⟨branch, List.mem_cons_of_mem _ isBranch, selects⟩

theorem exists_selects_of_mem_branchWalk
    (other : PluralKind) (branches : Branches)
    (met : (kind, keyword) ∈ branchWalk other branches) :
    ∃ branch ∈ branches,
      (kind = other ∧ branch.selector = keyword) ∨ Selects kind keyword branch.message := by
  match branches with
  | [] =>
      exact absurd met List.not_mem_nil
  | ⟨selector, message⟩ :: branches =>
      rcases List.mem_append.mp met with metInBranch | metLater
      · rcases List.mem_cons.mp metInBranch with isSelector | metBelow
        · obtain ⟨rfl, rfl⟩ := Prod.mk.inj isSelector
          exact ⟨_, List.mem_cons_self, Or.inl ⟨rfl, rfl⟩⟩
        · have selects := selects_of_mem_messageWalk message metBelow (List.Subset.refl _)
          exact ⟨_, List.mem_cons_self, Or.inr selects⟩
      · obtain ⟨branch, isBranch, found⟩ := exists_selects_of_mem_branchWalk other branches metLater
        exact ⟨branch, List.mem_cons_of_mem _ isBranch, found⟩

end

/-- The walk meets the selectors of all plurals and nothing else. -/
theorem mem_messageWalk_iff_selects {message : Message} :
    (kind, keyword) ∈ messageWalk message ↔ Selects kind keyword message :=
  ⟨fun met => selects_of_mem_messageWalk message met (List.Subset.refl _), mem_messageWalk_of_selects⟩

end Walk

/-! ## Collecting -/

/-- Whether keywords are what a walk has met: all of it, by kinds, in the order in which it was met
first. -/
structure Collects (walk : List (PluralKind × String)) (keywords : Keywords) : Prop where
  mem_iff : ∀ kind keyword, keyword ∈ keywords.ofKind kind ↔ (kind, keyword) ∈ walk
  inOrder : ∀ kind,
    (keywords.ofKind kind).Pairwise fun earlier later =>
      walk.idxOf (kind, earlier) < walk.idxOf (kind, later)

theorem collects_empty :
    Collects [] .empty where
  mem_iff := by
    rintro (_ | _) _ <;> simp [Keywords.empty, Keywords.ofKind]
  inOrder := by
    rintro (_ | _) <;> exact .nil

theorem Keywords.ofKind_add (keywords : Keywords) (kind other : PluralKind) (keyword : String) :
    (keywords.add kind keyword).ofKind other =
      if kind = other then Keywords.insertNew keyword (keywords.ofKind other)
      else keywords.ofKind other := by
  cases kind <;> cases other <;> rfl

theorem Keywords.mem_insertNew {value other : String} {values : List String} :
    other ∈ Keywords.insertNew value values ↔ other ∈ values ∨ other = value := by
  unfold Keywords.insertNew
  split
  · next known =>
      have member := List.contains_iff_mem.mp known
      exact (or_iff_left_of_imp fun same => same ▸ member).symm
  · rw [List.mem_append, List.mem_singleton]

namespace Collects

variable {walk : List (PluralKind × String)} {keywords : Keywords}

/-- What comes first in a walk comes first in it however it goes on. -/
theorem pairwise_append
    (collects : Collects walk keywords)
    (kind : PluralKind) (further : List (PluralKind × String)) :
    (keywords.ofKind kind).Pairwise fun earlier later =>
      (walk ++ further).idxOf (kind, earlier) < (walk ++ further).idxOf (kind, later) := by
  refine (collects.inOrder kind).imp_of_mem ?_
  intro earlier later earlierMember laterMember inOrder
  rw [List.idxOf_append_of_mem ((collects.mem_iff kind earlier).mp earlierMember),
    List.idxOf_append_of_mem ((collects.mem_iff kind later).mp laterMember)]
  exact inOrder

/-- A new keyword comes after all that were met before. -/
theorem pairwise_concat
    (collects : Collects walk keywords)
    {kind : PluralKind} {keyword : String}
    (isNew : keyword ∉ keywords.ofKind kind) :
    (keywords.ofKind kind ++ [keyword]).Pairwise fun earlier later =>
      (walk ++ [(kind, keyword)]).idxOf (kind, earlier) <
        (walk ++ [(kind, keyword)]).idxOf (kind, later) := by
  rw [List.pairwise_append]
  refine ⟨collects.pairwise_append kind _, List.pairwise_singleton _ _, ?_⟩
  intro earlier earlierMember later laterMember
  obtain rfl := List.mem_singleton.mp laterMember
  have earlierMet := (collects.mem_iff kind earlier).mp earlierMember
  have laterNotMet := (collects.mem_iff kind later).not.mp isNew
  rw [List.idxOf_append_of_mem earlierMet, List.idxOf_append_of_notMem laterNotMet]
  exact Nat.lt_add_right _ (List.idxOf_lt_length_iff.mpr earlierMet)

/-- Adding a keyword keeps up with a walk that meets it. -/
theorem add
    (collects : Collects walk keywords)
    (kind : PluralKind) (keyword : String) :
    Collects (walk ++ [(kind, keyword)]) (keywords.add kind keyword) where
  mem_iff := by
    intro other value
    rw [Keywords.ofKind_add, List.mem_append, List.mem_singleton, Prod.mk.injEq,
      ← collects.mem_iff]
    by_cases sameKind : kind = other
    · rw [if_pos sameKind, Keywords.mem_insertNew, and_iff_right sameKind.symm]
    · rw [if_neg sameKind, or_iff_left fun same => sameKind same.1.symm]
  inOrder := by
    intro other
    rw [Keywords.ofKind_add]
    split
    · next sameKind =>
        subst sameKind
        rw [Keywords.insertNew]
        split
        · exact collects.pairwise_append kind _
        · next isNew =>
            exact collects.pairwise_concat fun member => isNew (List.contains_iff_mem.mpr member)
    · exact collects.pairwise_append other _

end Collects

mutual

theorem collects_nodeKeywords
    (node : Node)
    {walk : List (PluralKind × String)} {keywords : Keywords}
    (collects : Collects walk keywords) :
    Collects (walk ++ nodeWalk node) (nodeKeywords keywords node) := by
  match node with
  | .choice key type cases =>
      exact collects_caseKeywords cases collects
  | .plural key kind offset branches =>
      exact collects_branchKeywords kind branches collects
  | .text _ | .argument _ | .number | .styled _ _ _ =>
      simpa only [nodeWalk, nodeKeywords, List.append_nil] using collects

theorem collects_messageKeywords
    (message : Message)
    {walk : List (PluralKind × String)} {keywords : Keywords}
    (collects : Collects walk keywords) :
    Collects (walk ++ messageWalk message) (messageKeywords keywords message) := by
  match message with
  | [] =>
      simpa only [messageWalk, messageKeywords, List.append_nil] using collects
  | node :: nodes =>
      rw [messageWalk, ← List.append_assoc]
      exact collects_messageKeywords nodes (collects_nodeKeywords node collects)

theorem collects_caseKeywords
    (cases : Branches)
    {walk : List (PluralKind × String)} {keywords : Keywords}
    (collects : Collects walk keywords) :
    Collects (walk ++ caseWalk cases) (caseKeywords keywords cases) := by
  match cases with
  | [] =>
      simpa only [caseWalk, caseKeywords, List.append_nil] using collects
  | ⟨selector, message⟩ :: cases =>
      rw [caseWalk, ← List.append_assoc]
      exact collects_caseKeywords cases (collects_messageKeywords message collects)

theorem collects_branchKeywords
    (kind : PluralKind) (branches : Branches)
    {walk : List (PluralKind × String)} {keywords : Keywords}
    (collects : Collects walk keywords) :
    Collects (walk ++ branchWalk kind branches) (branchKeywords keywords kind branches) := by
  match branches with
  | [] =>
      simpa only [branchWalk, branchKeywords, List.append_nil] using collects
  | ⟨selector, message⟩ :: branches =>
      have selectorAdded := collects.add kind selector
      have messageAdded := collects_messageKeywords message selectorAdded
      have allAdded := collects_branchKeywords kind branches messageAdded
      simpa only [branchWalk, branchKeywords, List.append_assoc, List.nil_append,
        List.cons_append] using allAdded

end

/-- The keywords of a message are the selectors that the walk through it meets. -/
theorem collects_keywords (message : Message) :
    Collects (messageWalk message) (keywords message) :=
  collects_messageKeywords message collects_empty

end MessagePattern.Plural
