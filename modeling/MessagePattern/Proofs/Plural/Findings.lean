import MessagePattern.Plural.Check
import MessagePattern.Proofs.Plural.Keywords
import MessagePattern.Proofs.Plural.Locales

/-!
# What a check finds

Which selectors of a message a check reports against the rules of a locale, and in which order.
-/

namespace MessagePattern.Plural

/-- Whether the rules of a locale never choose a keyword for a kind of plural. -/
def IsUndefined (rules : LocaleRules) (kind : PluralKind) (keyword : String) : Prop :=
  keyword ≠ "other" ∧ keyword.toList.head? ≠ some '=' ∧ keyword ∉ rules.ofKind kind

theorem isUndefined_iff {rules : LocaleRules} {kind : PluralKind} {keyword : String} :
    IsUndefined rules kind keyword ↔
      (!(isAlwaysValid keyword || rules.defines kind keyword)) = true := by
  simp [IsUndefined, isAlwaysValid, LocaleRules.defines, and_assoc]

/-- Where the walk through a message first meets what a finding is about. -/
def Finding.place (message : Message) (finding : Finding) : Nat :=
  (messageWalk message).idxOf (finding.kind, finding.keyword)

section OfKind

variable (rules : LocaleRules) (locale : String) (kind : PluralKind) (message : Message)

theorem mem_findingsOfKind_iff {finding : Finding} :
    finding ∈ findingsOfKind rules locale kind ((keywords message).ofKind kind) ↔
      finding.kind = kind ∧ finding.locale = locale ∧
        Selects finding.kind finding.keyword message ∧
          IsUndefined rules finding.kind finding.keyword := by
  have met : ∀ keyword,
      keyword ∈ (keywords message).ofKind kind ↔ Selects kind keyword message := fun keyword =>
    ((collects_keywords message).mem_iff kind keyword).trans mem_messageWalk_iff_selects
  rw [findingsOfKind, List.mem_map]
  constructor
  · rintro ⟨keyword, member, rfl⟩
    obtain ⟨collected, undefined⟩ := List.mem_filter.mp member
    exact ⟨rfl, rfl, (met keyword).mp collected, isUndefined_iff.mpr undefined⟩
  · rintro ⟨rfl, rfl, selects, undefined⟩
    exact ⟨finding.keyword,
      List.mem_filter.mpr ⟨(met finding.keyword).mpr selects, isUndefined_iff.mp undefined⟩, rfl⟩

theorem findingsOfKind_inOrder :
    (findingsOfKind rules locale kind ((keywords message).ofKind kind)).Pairwise
      fun earlier later => earlier.place message < later.place message := by
  rw [findingsOfKind, List.pairwise_map]
  exact ((collects_keywords message).inOrder kind).filter _

end OfKind

/-- Whether findings are all there is to report on a message against the rules of a locale. -/
structure Reports (rules : LocaleRules) (locale : String) (message : Message)
    (findings : List Finding) : Prop where
  mem_iff : ∀ finding,
    finding ∈ findings ↔
      finding.locale = locale ∧ Selects finding.kind finding.keyword message ∧
        IsUndefined rules finding.kind finding.keyword
  once : (findings.map fun finding => (finding.kind, finding.keyword)).Nodup
  cardinalFirst :
    findings.Pairwise fun earlier later => earlier.kind = .ordinal → later.kind = .ordinal
  inOrder :
    findings.Pairwise fun earlier later =>
      earlier.kind = later.kind → earlier.place message < later.place message

section Check

variable {message : Message} {locale : String} {table : RuleTable} {rules : LocaleRules}

theorem check_eq_append
    (known : table.rules? locale = some rules) :
    check message locale table =
      findingsOfKind rules locale .cardinal ((keywords message).ofKind .cardinal) ++
        findingsOfKind rules locale .ordinal ((keywords message).ofKind .ordinal) := by
  rw [check, known]
  rfl

theorem check_eq_nil
    (unknown : table.rules? locale = none) :
    check message locale table = [] := by
  rw [check, unknown]

theorem mem_check_iff
    (known : table.rules? locale = some rules) (finding : Finding) :
    finding ∈ check message locale table ↔
      finding.locale = locale ∧ Selects finding.kind finding.keyword message ∧
        IsUndefined rules finding.kind finding.keyword := by
  rw [check_eq_append known, List.mem_append, mem_findingsOfKind_iff, mem_findingsOfKind_iff,
    ← or_and_right]
  refine and_iff_right ?_
  cases finding.kind <;> simp

theorem check_cardinalFirst
    (known : table.rules? locale = some rules) :
    (check message locale table).Pairwise fun earlier later =>
      earlier.kind = .ordinal → later.kind = .ordinal := by
  rw [check_eq_append known, List.pairwise_append]
  refine ⟨List.pairwise_of_forall_mem_list ?_, List.pairwise_of_forall_mem_list ?_, ?_⟩
  · intro earlier member _ _ isOrdinal
    have isCardinal := ((mem_findingsOfKind_iff _ _ _ _).mp member).1
    rw [isCardinal] at isOrdinal
    cases isOrdinal
  · intro _ _ later member _
    exact ((mem_findingsOfKind_iff _ _ _ _).mp member).1
  · intro _ _ later member _
    exact ((mem_findingsOfKind_iff _ _ _ _).mp member).1

theorem check_inOrder
    (known : table.rules? locale = some rules) :
    (check message locale table).Pairwise fun earlier later =>
      earlier.kind = later.kind → earlier.place message < later.place message := by
  rw [check_eq_append known, List.pairwise_append]
  refine ⟨(findingsOfKind_inOrder rules locale .cardinal message).imp ?_,
    (findingsOfKind_inOrder rules locale .ordinal message).imp ?_, ?_⟩
  · intro _ _ before _
    exact before
  · intro _ _ before _
    exact before
  · intro earlier earlierMember later laterMember sameKind
    have isCardinal := ((mem_findingsOfKind_iff _ _ _ _).mp earlierMember).1
    have isOrdinal := ((mem_findingsOfKind_iff _ _ _ _).mp laterMember).1
    rw [isCardinal, isOrdinal] at sameKind
    cases sameKind

theorem reports_check
    (known : table.rules? locale = some rules) :
    Reports rules locale message (check message locale table) where
  mem_iff := mem_check_iff known
  once := by
    rw [List.Nodup, List.pairwise_map]
    refine (check_inOrder known).imp ?_
    intro earlier later inOrder same
    have before := inOrder (congrArg Prod.fst same)
    rw [Finding.place, Finding.place, same] at before
    exact Nat.lt_irrefl _ before
  cardinalFirst := check_cardinalFirst known
  inOrder := check_inOrder known

end Check

/-- A check reports nothing if the table has no locale that covers the given one. Otherwise there is
a closest such locale, and what its rules leave undefined is reported. -/
theorem check_eq_nil_and_reports (message : Message) (locale : String) (table : RuleTable) :
    ((∀ name, table.Knows name → ¬ Covers name.toList (normalizeLocale locale.toList)) →
        check message locale table = []) ∧
      ((∃ name, table.Knows name ∧ Covers name.toList (normalizeLocale locale.toList)) →
        ∃ name rules,
          IsClosest table.Knows (normalizeLocale locale.toList) name ∧
            table.get? name = some rules ∧
              Reports rules locale message (check message locale table)) := by
  have isAnswer := RuleTable.isAnswer_search table (normalizeLocale locale.toList)
  constructor
  · intro noneCovers
    have closest : table.closest? locale = none := isAnswer.eq_none_iff.mpr noneCovers
    refine check_eq_nil ?_
    rw [RuleTable.rules?, closest]
    rfl
  · rintro ⟨other, known, covers⟩
    cases closest : table.search (normalizeLocale locale.toList) with
    | none =>
        exact absurd covers (isAnswer.eq_none_iff.mp closest other known)
    | some name =>
        have isClosest := (isAnswer.eq_some_iff name).mp closest
        obtain ⟨rules, hasRules⟩ := Option.isSome_iff_exists.mp isClosest.isKnown
        refine ⟨name, rules, isClosest, hasRules, reports_check ?_⟩
        rw [RuleTable.rules?, RuleTable.closest?, closest]
        exact hasRules

/-- A cardinal inside an ordinal inside a choice, and a cardinal that repeats a selector. -/
def nestedPlurals : Message :=
  [.choice "g" "number"
      [⟨"zero",
        [.plural "n" .ordinal 0
          [⟨"few", [.plural "k" .cardinal 0 [⟨"two", []⟩, ⟨"=x", []⟩, ⟨"one", []⟩]]⟩,
            ⟨"two", []⟩]]⟩],
    .plural "n" .cardinal 1 [⟨"few", []⟩, ⟨"two", []⟩, ⟨"other", []⟩]]

def englishTable : RuleTable :=
  .ofList [("EN", ⟨["one"], ["two"]⟩), ("en_GB_x", ⟨[], []⟩)]

theorem isClosest_englishTable :
    IsClosest englishTable.Knows (normalizeLocale " en_GB".toList) "en" := by
  apply ((RuleTable.isAnswer_search _ _).eq_some_iff "en").mp
  decide +kernel

theorem get?_englishTable : englishTable.get? "en" = some ⟨["one"], ["two"]⟩ := by
  decide +kernel

/-- A locale whose rules are those of a more general one, and a selector that is defined for one kind
of plural only. -/
theorem check_nestedPlurals :
    IsClosest englishTable.Knows (normalizeLocale " en_GB".toList) "en" ∧
      englishTable.get? "en" = some ⟨["one"], ["two"]⟩ ∧
      Reports ⟨["one"], ["two"]⟩ " en_GB" nestedPlurals
        [⟨" en_GB", "two", .cardinal⟩, ⟨" en_GB", "few", .cardinal⟩,
          ⟨" en_GB", "few", .ordinal⟩] := by
  have found :
      check nestedPlurals " en_GB" englishTable =
        [⟨" en_GB", "two", .cardinal⟩, ⟨" en_GB", "few", .cardinal⟩,
          ⟨" en_GB", "few", .ordinal⟩] := by
    decide +kernel
  obtain ⟨name, rules, nameIsClosest, nameHasRules, reports⟩ :=
    (check_eq_nil_and_reports nestedPlurals " en_GB" englishTable).2
      ⟨"en", isClosest_englishTable.isKnown, isClosest_englishTable.covers⟩
  obtain rfl := isClosest_englishTable.unique nameIsClosest
  obtain rfl := Option.some.inj (get?_englishTable.symm.trans nameHasRules)
  rw [found] at reports
  exact ⟨isClosest_englishTable, get?_englishTable, reports⟩

end MessagePattern.Plural
