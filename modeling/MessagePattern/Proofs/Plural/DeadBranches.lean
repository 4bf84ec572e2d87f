import MessagePattern.Pattern.Cursor
import MessagePattern.Plural.Builtin
import MessagePattern.Proofs.Plural.Findings
import MessagePattern.Proofs.Text.Runs

/-!
# Dead branches

What is known of the branches of a message once a check finds nothing in it: each of them can be
chosen, but for those whose selector begins as an exact number does and is none.
-/

namespace MessagePattern.Plural

/-- Whether a selector begins with an equals sign, as exact numbers do. -/
def BeginsWithEquals (selector : String) : Prop :=
  selector.toList.head? = some '='

/-- Whether a selector is an exact number: an equals sign and decimal digits. -/
def IsExactNumber (selector : String) : Prop :=
  ∃ digits, selector = "=" ++ digits ∧ IsWord Char.isDigit digits

/-- Whether a selector of a plural is the general case, an exact number or a category of the rules:
no number chooses any other. -/
def CanBeChosen (rules : LocaleRules) (kind : PluralKind) (selector : String) : Prop :=
  selector = "other" ∨ IsExactNumber selector ∨ selector ∈ rules.ofKind kind

instance (selector : String) : Decidable (BeginsWithEquals selector) :=
  inferInstanceAs (Decidable (_ = _))

theorem isExactNumber_iff {selector : String} :
    IsExactNumber selector ↔
      BeginsWithEquals selector ∧ IsWord Char.isDigit (.ofList selector.toList.tail) := by
  constructor
  · rintro ⟨digits, rfl, isWord⟩
    rw [BeginsWithEquals, String.toList_append]
    exact ⟨rfl, by simpa using isWord⟩
  · rintro ⟨beginsWithEquals, isWord⟩
    refine ⟨_, ?_, isWord⟩
    obtain ⟨digits, equality⟩ := List.head?_eq_some_iff.mp beginsWithEquals
    rw [← String.toList_inj, String.toList_append, equality]
    simp

instance (selector : String) : Decidable (IsExactNumber selector) :=
  decidable_of_iff _ isExactNumber_iff.symm

instance (rules : LocaleRules) (kind : PluralKind) (selector : String) :
    Decidable (CanBeChosen rules kind selector) :=
  inferInstanceAs (Decidable (_ ∨ _))

section Chosen

variable {rules : LocaleRules} {kind : PluralKind} {selector : String}

theorem not_isUndefined_iff :
    ¬ IsUndefined rules kind selector ↔
      selector = "other" ∨ BeginsWithEquals selector ∨ selector ∈ rules.ofKind kind := by
  rw [IsUndefined, not_and_or, not_and_or, not_ne_iff, not_ne_iff, not_not, BeginsWithEquals]

/-- What can be chosen is what a check takes for defined, but for what only begins as an exact
number does. -/
theorem canBeChosen_iff :
    CanBeChosen rules kind selector ↔
      ¬ IsUndefined rules kind selector ∧
        (BeginsWithEquals selector → IsExactNumber selector ∨ selector ∈ rules.ofKind kind) := by
  rw [not_isUndefined_iff]
  constructor
  · rintro (isGeneral | isNumber | isCategory)
    · refine ⟨Or.inl isGeneral, fun beginsWithEquals => ?_⟩
      rw [isGeneral] at beginsWithEquals
      cases beginsWithEquals
    · exact ⟨Or.inr (Or.inl (isExactNumber_iff.mp isNumber).1), fun _ => Or.inl isNumber⟩
    · exact ⟨Or.inr (Or.inr isCategory), fun _ => Or.inr isCategory⟩
  · rintro ⟨isGeneral | beginsWithEquals | isCategory, isNumberOrCategory⟩
    · exact Or.inl isGeneral
    · exact Or.inr (isNumberOrCategory beginsWithEquals)
    · exact Or.inr (Or.inr isCategory)

end Chosen

section Check

variable {message : Message} {locale name : String} {table : RuleTable} {rules : LocaleRules}

theorem rules?_of_isClosest
    (isClosest : IsClosest table.Knows (normalizeLocale locale.toList) name)
    (hasRules : table.get? name = some rules) :
    table.rules? locale = some rules := by
  have closest : table.closest? locale = some name :=
    ((RuleTable.isAnswer_search table _).eq_some_iff name).mpr isClosest
  rw [RuleTable.rules?, closest]
  exact hasRules

theorem check_eq_nil_iff
    (known : table.rules? locale = some rules) :
    check message locale table = [] ↔
      ∀ kind selector, Selects kind selector message → ¬ IsUndefined rules kind selector := by
  rw [List.eq_nil_iff_forall_not_mem]
  constructor
  · intro nothingFound kind selector selects undefined
    apply nothingFound ⟨locale, selector, kind⟩
    exact (mem_check_iff known _).mpr ⟨rfl, selects, undefined⟩
  · intro allDefined finding found
    obtain ⟨_, selects, undefined⟩ := (mem_check_iff known finding).mp found
    exact allDefined finding.kind finding.keyword selects undefined

/-- Every branch of every plural in a message can be chosen by the rules of the closest locale
exactly if a check finds nothing and no selector only begins as an exact number does. -/
theorem forall_canBeChosen_iff
    (isClosest : IsClosest table.Knows (normalizeLocale locale.toList) name)
    (hasRules : table.get? name = some rules) :
    (∀ kind selector, Selects kind selector message → CanBeChosen rules kind selector) ↔
      check message locale table = [] ∧
        ∀ kind selector,
          Selects kind selector message →
          BeginsWithEquals selector →
          IsExactNumber selector ∨ selector ∈ rules.ofKind kind := by
  rw [check_eq_nil_iff (rules?_of_isClosest isClosest hasRules), ← forall_and]
  refine forall_congr' fun kind => ?_
  rw [← forall_and]
  refine forall_congr' fun selector => ?_
  rw [← imp_and, canBeChosen_iff]

end Check

/-- An exact number and a category of cardinals inside an ordinal inside a choice. -/
def livePlurals : Message :=
  [.choice "g" "select"
      [⟨"few", [.plural "n" .ordinal 0
        [⟨"two", [.plural "k" .cardinal 0 [⟨"=10", []⟩, ⟨"one", []⟩]]⟩]]⟩],
    .plural "n" .cardinal 1 [⟨"other", []⟩]]

/-- Rules of a more general locale, by which no branch is dead. -/
theorem forall_canBeChosen_livePlurals :
    IsClosest englishTable.Knows (normalizeLocale " en_GB".toList) "en" ∧
      englishTable.get? "en" = some ⟨["one"], ["two"]⟩ ∧
      check livePlurals " en_GB" englishTable = [] ∧
      ∀ kind selector,
        Selects kind selector livePlurals → CanBeChosen ⟨["one"], ["two"]⟩ kind selector := by
  have nothingFound : check livePlurals " en_GB" englishTable = [] := by
    decide +kernel
  refine ⟨isClosest_englishTable, get?_englishTable, nothingFound, ?_⟩
  apply (forall_canBeChosen_iff isClosest_englishTable get?_englishTable).mpr
  refine ⟨nothingFound, fun kind selector selects => ?_⟩
  have met : (kind, selector) ∈ messageWalk livePlurals := mem_messageWalk_iff_selects.mpr selects
  have numbers :
      ∀ found ∈ messageWalk livePlurals,
        BeginsWithEquals found.2 →
          IsExactNumber found.2 ∨ found.2 ∈ LocaleRules.ofKind ⟨["one"], ["two"]⟩ found.1 := by
    decide
  exact numbers _ met

/-- A selector that begins as an exact number does and is none. -/
def malformedNumber : Message :=
  [.plural "n" .cardinal 0 [⟨"=x", [.text "a"]⟩, ⟨"other", [.text "b"]⟩]]

/-- A check takes all that begins with an equals sign for an exact number. -/
theorem check_keeps_malformed_number :
    Pattern.parse "\x7bn, plural, =x \x7ba\x7d other \x7bb\x7d\x7d" = .ok malformedNumber ∧
      RuleTable.builtin.rules? "en" =
        some ⟨["one", "other"], ["one", "two", "few", "other"]⟩ ∧
      check malformedNumber "en" .builtin = [] ∧
      Selects .cardinal "=x" malformedNumber ∧
      ¬ CanBeChosen ⟨["one", "other"], ["one", "two", "few", "other"]⟩ .cardinal "=x" := by
  refine ⟨?_, ?_, ?_, ?_, ?_⟩
  · with_unfolding_all rfl
  · decide +kernel
  · decide +kernel
  · exact .here List.mem_cons_self List.mem_cons_self rfl
  · decide

end MessagePattern.Plural
