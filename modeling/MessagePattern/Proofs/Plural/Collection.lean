import MessagePattern.Proofs.Plural.Keywords

/-!
# Collected keywords

The keywords of a message are what the walk through it meets, without what it meets again; and which
plurals a message must contain to have any.
-/

namespace MessagePattern.Plural

/-- Whether a node is one of the message or of a branch at any depth of it. -/
inductive Contains (node : Node) : Message → Prop
  | here {message : Message} :
      node ∈ message → Contains node message
  | inBranch {message : Message} {key kind offset branches} {branch : Branch Message} :
      .plural key kind offset branches ∈ message → branch ∈ branches →
        Contains node branch.message → Contains node message
  | inCase {message : Message} {key type cases} {branch : Branch Message} :
      .choice key type cases ∈ message → branch ∈ cases →
        Contains node branch.message → Contains node message

section Contains

variable {kind : PluralKind} {keyword : String} {message : Message}

theorem selects_of_contains
    {key : String} {offset : UInt32} {branches : Branches} {branch : Branch Message}
    (contains : Contains (.plural key kind offset branches) message)
    (isBranch : branch ∈ branches) :
    Selects kind branch.selector message := by
  induction contains with
  | here isNode =>
      exact .here isNode isBranch rfl
  | inBranch isNode isOuter _ inductionHypothesis =>
      exact .inBranch isNode isOuter inductionHypothesis
  | inCase isNode isOuter _ inductionHypothesis =>
      exact .inCase isNode isOuter inductionHypothesis

/-- A keyword is the selector of some branch of a plural of its kind. -/
theorem selects_iff_exists_contains :
    Selects kind keyword message ↔
      ∃ key offset branches,
        Contains (.plural key kind offset branches) message ∧
          ∃ branch ∈ branches, branch.selector = keyword := by
  constructor
  · intro selects
    induction selects with
    | here isNode isBranch isKeyword =>
        exact ⟨_, _, _, .here isNode, _, isBranch, isKeyword⟩
    | inBranch isNode isBranch _ inductionHypothesis =>
        obtain ⟨key, offset, branches, contains, found⟩ := inductionHypothesis
        exact ⟨key, offset, branches, .inBranch isNode isBranch contains, found⟩
    | inCase isNode isBranch _ inductionHypothesis =>
        obtain ⟨key, offset, branches, contains, found⟩ := inductionHypothesis
        exact ⟨key, offset, branches, .inCase isNode isBranch contains, found⟩
  · rintro ⟨key, offset, branches, contains, branch, isBranch, rfl⟩
    exact selects_of_contains contains isBranch

end Contains

/-- Adds what a walk meets, one after another. -/
def Keywords.addAll (keywords : Keywords) (walk : List (PluralKind × String)) : Keywords :=
  walk.foldl (fun keywords met => keywords.add met.1 met.2) keywords

@[simp] theorem Keywords.addAll_nil (keywords : Keywords) :
    keywords.addAll [] = keywords := rfl

theorem Keywords.addAll_cons
    (keywords : Keywords) (kind : PluralKind) (keyword : String)
    (walk : List (PluralKind × String)) :
    keywords.addAll ((kind, keyword) :: walk) = (keywords.add kind keyword).addAll walk := rfl

theorem Keywords.addAll_append
    (keywords : Keywords) (walk further : List (PluralKind × String)) :
    keywords.addAll (walk ++ further) = (keywords.addAll walk).addAll further :=
  List.foldl_append

mutual

theorem nodeKeywords_eq_addAll (keywords : Keywords) (node : Node) :
    nodeKeywords keywords node = keywords.addAll (nodeWalk node) := by
  match node with
  | .choice key type cases =>
      rw [nodeKeywords, nodeWalk, caseKeywords_eq_addAll]
  | .plural key kind offset branches =>
      rw [nodeKeywords, nodeWalk, branchKeywords_eq_addAll]
  | .text _ | .argument _ | .number | .styled _ _ _ =>
      rfl

theorem messageKeywords_eq_addAll (keywords : Keywords) (message : Message) :
    messageKeywords keywords message = keywords.addAll (messageWalk message) := by
  match message with
  | [] =>
      rfl
  | node :: nodes =>
      rw [messageKeywords, messageWalk, Keywords.addAll_append, ← nodeKeywords_eq_addAll,
        messageKeywords_eq_addAll]

theorem caseKeywords_eq_addAll (keywords : Keywords) (cases : Branches) :
    caseKeywords keywords cases = keywords.addAll (caseWalk cases) := by
  match cases with
  | [] =>
      rfl
  | ⟨selector, message⟩ :: cases =>
      rw [caseKeywords, caseWalk, Keywords.addAll_append, ← messageKeywords_eq_addAll,
        caseKeywords_eq_addAll]

theorem branchKeywords_eq_addAll
    (keywords : Keywords) (kind : PluralKind) (branches : Branches) :
    branchKeywords keywords kind branches = keywords.addAll (branchWalk kind branches) := by
  match branches with
  | [] =>
      rfl
  | ⟨selector, message⟩ :: branches =>
      rw [branchKeywords, branchWalk, List.cons_append, Keywords.addAll_cons,
        Keywords.addAll_append, ← messageKeywords_eq_addAll, branchKeywords_eq_addAll]

end

/-- What a walk meets of one kind. -/
def metOfKind (kind : PluralKind) (walk : List (PluralKind × String)) : List String :=
  (walk.filter fun met => met.1 = kind).map Prod.snd

/-- Inserting into the first occurrences of some values gives those of the values and the one behind
them. -/
theorem Keywords.insertNew_eraseDups (value : String) (values : List String) :
    Keywords.insertNew value values.eraseDups = (values ++ [value]).eraseDups := by
  rw [List.eraseDups_append, Keywords.insertNew]
  by_cases known : value ∈ values
  · have knownOnce : value ∈ values.eraseDups := List.mem_eraseDups.mpr known
    simp [known, knownOnce, List.removeAll]
  · have notYet : value ∉ values.eraseDups := fun member => known (List.mem_eraseDups.mp member)
    simp [known, notYet, List.removeAll, List.eraseDups_cons]

/-- After first occurrences, a walk adds those that are first in what was met before it as well. -/
theorem Keywords.ofKind_addAll
    {keywords : Keywords} {kind : PluralKind} {before : List String}
    (walk : List (PluralKind × String))
    (areFirst : keywords.ofKind kind = before.eraseDups) :
    (keywords.addAll walk).ofKind kind = (before ++ metOfKind kind walk).eraseDups := by
  induction walk generalizing keywords before with
  | nil =>
      rw [Keywords.addAll_nil, areFirst, metOfKind, List.filter_nil, List.map_nil, List.append_nil]
  | cons met walk inductionHypothesis =>
      obtain ⟨other, keyword⟩ := met
      rw [Keywords.addAll_cons]
      by_cases sameKind : other = kind
      · have added :
            (keywords.add other keyword).ofKind kind = (before ++ [keyword]).eraseDups := by
          rw [Keywords.ofKind_add, if_pos sameKind, areFirst, Keywords.insertNew_eraseDups]
        rw [inductionHypothesis added]
        simp [metOfKind, sameKind]
      · have kept : (keywords.add other keyword).ofKind kind = before.eraseDups := by
          rw [Keywords.ofKind_add, if_neg sameKind, areFirst]
        rw [inductionHypothesis kept]
        simp [metOfKind, sameKind]

theorem ofKind_keywords (kind : PluralKind) (message : Message) :
    (keywords message).ofKind kind = (metOfKind kind (messageWalk message)).eraseDups := by
  have none : Keywords.empty.ofKind kind = ([] : List String).eraseDups := by
    cases kind <;> rfl
  rw [keywords, messageKeywords_eq_addAll, Keywords.ofKind_addAll _ none, List.nil_append]

theorem mem_ofKind_keywords_iff {kind : PluralKind} {keyword : String} {message : Message} :
    keyword ∈ (keywords message).ofKind kind ↔ Selects kind keyword message :=
  ((collects_keywords message).mem_iff kind keyword).trans mem_messageWalk_iff_selects

theorem Keywords.isEmpty_iff {keywords : Keywords} :
    keywords.isEmpty = true ↔ ∀ kind keyword, keyword ∉ keywords.ofKind kind := by
  rw [Keywords.isEmpty, Bool.and_eq_true, List.isEmpty_iff, List.isEmpty_iff]
  constructor
  · rintro ⟨noCardinal, noOrdinal⟩ (_ | _) keyword member
    · rw [Keywords.ofKind, noCardinal] at member
      exact List.not_mem_nil member
    · rw [Keywords.ofKind, noOrdinal] at member
      exact List.not_mem_nil member
  · intro none
    exact ⟨List.eq_nil_iff_forall_not_mem.mpr (none .cardinal),
      List.eq_nil_iff_forall_not_mem.mpr (none .ordinal)⟩

/-- The keywords of each kind are the selectors that the walk through the message meets, without
repetitions. Each is one of a plural of the kind, and only a message in which no plural has a branch
has none. -/
theorem keywords_eq_walk (message : Message) :
    (∀ kind, (keywords message).ofKind kind = (metOfKind kind (messageWalk message)).eraseDups) ∧
      (∀ kind keyword,
        keyword ∈ (keywords message).ofKind kind ↔
          ∃ key offset branches,
            Contains (.plural key kind offset branches) message ∧
              ∃ branch ∈ branches, branch.selector = keyword) ∧
      ((keywords message).isEmpty = true ↔
        ¬ ∃ key kind offset branches,
          Contains (.plural key kind offset branches) message ∧ branches ≠ []) := by
  refine ⟨fun kind => ofKind_keywords kind message, ?_, ?_⟩
  · intro kind keyword
    rw [mem_ofKind_keywords_iff, selects_iff_exists_contains]
  · rw [Keywords.isEmpty_iff]
    constructor
    · rintro none ⟨key, kind, offset, branches, contains, nonempty⟩
      obtain ⟨branch, isBranch⟩ := List.exists_mem_of_ne_nil branches nonempty
      exact none kind branch.selector
        (mem_ofKind_keywords_iff.mpr (selects_of_contains contains isBranch))
    · intro noBranch kind keyword member
      obtain ⟨key, offset, branches, contains, branch, isBranch, _⟩ :=
        selects_iff_exists_contains.mp (mem_ofKind_keywords_iff.mp member)
      exact noBranch ⟨key, kind, offset, branches, contains, List.ne_nil_of_mem isBranch⟩

-- The case selector `one` is no keyword, and the second `few` is met again.
example :
    keywords
        [.choice "g" "select"
            [⟨"one", [.plural "n" .ordinal 0 [⟨"few", [.plural "k" .cardinal 0 [⟨"few", []⟩]]⟩]]⟩],
          .plural "n" .cardinal 1 [⟨"two", []⟩, ⟨"few", []⟩]] =
      ⟨["few", "two"], ["few"]⟩ := by
  decide

end MessagePattern.Plural
