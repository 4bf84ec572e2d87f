import MessagePattern.Plural.Rules

/-!
# The closest locale

Which of the known locales is the closest to a given one, how the search finds it, and what a table
knows after any row of insertions.
-/

namespace MessagePattern.Plural

/-- Whether a name is another one or stands at its beginning, in front of a hyphen. -/
def Covers (general name : List Char) : Prop :=
  general = name ∨ general ++ ['-'] <+: name

theorem Covers.isPrefix
    {general name : List Char}
    (covers : Covers general name) :
    general <+: name := by
  rcases covers with rfl | isPrefix
  · exact List.prefix_rfl
  · exact (List.prefix_append _ _).trans isPrefix

theorem hyphen_not_mem_of_beforeLastHyphen?
    {name : List Char}
    (noShorter : beforeLastHyphen? name = none) :
    '-' ∉ name := by
  induction name with
  | nil =>
      exact List.not_mem_nil
  | cons c name inductionHypothesis =>
      rw [beforeLastHyphen?] at noShorter
      split at noShorter
      · cases noShorter
      · next restWithout =>
          split at noShorter
          · cases noShorter
          · next different =>
              exact List.not_mem_cons_of_ne_of_not_mem (Ne.symm different)
                (inductionHypothesis restWithout)

theorem eq_append_of_beforeLastHyphen?
    {name shorter : List Char}
    (isShorter : beforeLastHyphen? name = some shorter) :
    ∃ subtag, name = shorter ++ '-' :: subtag ∧ '-' ∉ subtag := by
  induction name generalizing shorter with
  | nil =>
      cases isShorter
  | cons c name inductionHypothesis =>
      rw [beforeLastHyphen?] at isShorter
      cases found : beforeLastHyphen? name with
      | some shorterRest =>
          rw [found] at isShorter
          obtain ⟨subtag, rfl, unhyphenated⟩ := inductionHypothesis found
          cases isShorter
          exact ⟨subtag, rfl, unhyphenated⟩
      | none =>
          rw [found] at isShorter
          dsimp only at isShorter
          split at isShorter
          · next isHyphen =>
              cases isShorter
              rw [isHyphen]
              exact ⟨name, rfl, hyphen_not_mem_of_beforeLastHyphen? found⟩
          · cases isShorter

/-- A name without a hyphen is covered by itself alone. -/
theorem covers_iff_of_not_mem
    {general name : List Char}
    (unhyphenated : '-' ∉ name) :
    Covers general name ↔ general = name := by
  constructor
  · rintro (same | isPrefix)
    · exact same
    · exact absurd (isPrefix.subset (List.mem_append_right _ List.mem_cons_self)) unhyphenated
  · exact Or.inl

/-- What covers a name and is not the name itself covers the next more general name. -/
theorem covers_append_iff
    {general shorter subtag : List Char}
    (unhyphenated : '-' ∉ subtag) :
    Covers general (shorter ++ '-' :: subtag) ↔
      general = shorter ++ '-' :: subtag ∨ Covers general shorter := by
  refine or_congr_right ⟨?_, ?_⟩
  · rintro ⟨rest, equality⟩
    rw [List.append_assoc, List.singleton_append, List.append_eq_append_iff] at equality
    rcases equality with ⟨between, rfl, hyphens⟩ | ⟨between, rfl, hyphens⟩
    · cases between with
      | nil =>
          exact Or.inl (List.append_nil _).symm
      | cons c between =>
          obtain ⟨rfl, _⟩ := List.cons.inj hyphens
          exact Or.inr ⟨between, by simp⟩
    · cases between with
      | nil =>
          exact Or.inl (List.append_nil _)
      | cons c between =>
          obtain ⟨rfl, rfl⟩ := List.cons.inj hyphens
          exact absurd (List.mem_append_right _ List.mem_cons_self) unhyphenated
  · rintro (rfl | isPrefix)
    · exact ⟨subtag, by simp⟩
    · exact isPrefix.trans (List.prefix_append _ _)

/-- Whether a name is the longest of those known that cover a candidate. -/
structure IsClosest (Known : String → Prop) (candidate : List Char) (name : String) : Prop where
  isKnown : Known name
  covers : Covers name.toList candidate
  longest : ∀ other, Known other → Covers other.toList candidate → other.length ≤ name.length

theorem IsClosest.unique
    {Known : String → Prop} {candidate : List Char} {name other : String}
    (isClosest : IsClosest Known candidate name)
    (otherIsClosest : IsClosest Known candidate other) :
    name = other := by
  have lengthEq : name.length = other.length :=
    Nat.le_antisymm
      (otherIsClosest.longest name isClosest.isKnown isClosest.covers)
      (isClosest.longest other otherIsClosest.isKnown otherIsClosest.covers)
  rw [← String.length_toList, ← String.length_toList] at lengthEq
  have isPrefix : name.toList <+: other.toList :=
    List.prefix_of_prefix_length_le isClosest.covers.isPrefix otherIsClosest.covers.isPrefix
      (Nat.le_of_eq lengthEq)
  exact String.toList_inj.mp (isPrefix.eq_of_length lengthEq)

/-- Whether an answer is right for a candidate: the closest known name, or none where no known name
covers the candidate. -/
def IsAnswer (Known : String → Prop) (candidate : List Char) : Option String → Prop
  | some name => IsClosest Known candidate name
  | none => ∀ name, Known name → ¬ Covers name.toList candidate

theorem IsAnswer.eq_some_iff
    {Known : String → Prop} {candidate : List Char} {answer : Option String}
    (isAnswer : IsAnswer Known candidate answer) (name : String) :
    answer = some name ↔ IsClosest Known candidate name := by
  constructor
  · rintro rfl
    exact isAnswer
  · intro isClosest
    cases answer with
    | some found =>
        exact congrArg some (IsClosest.unique isAnswer isClosest)
    | none =>
        exact absurd isClosest.covers (isAnswer name isClosest.isKnown)

theorem IsAnswer.eq_none_iff
    {Known : String → Prop} {candidate : List Char} {answer : Option String}
    (isAnswer : IsAnswer Known candidate answer) :
    answer = none ↔ ∀ name, Known name → ¬ Covers name.toList candidate := by
  constructor
  · rintro rfl
    exact isAnswer
  · intro noneCovers
    cases answer with
    | some found =>
        exact absurd isAnswer.covers (noneCovers found isAnswer.isKnown)
    | none =>
        rfl

/-- Candidates that the same known names cover have the same answers. -/
theorem isAnswer_congr
    {Known : String → Prop} {candidate other : List Char}
    (alike : ∀ name, Known name → (Covers name.toList candidate ↔ Covers name.toList other))
    {answer : Option String}
    (isAnswer : IsAnswer Known other answer) :
    IsAnswer Known candidate answer := by
  cases answer with
  | some name =>
      exact
        { isKnown := isAnswer.isKnown
          covers := (alike name isAnswer.isKnown).mpr isAnswer.covers
          longest := fun longer known covers =>
            isAnswer.longest longer known ((alike longer known).mp covers) }
  | none =>
      exact fun name known covers => isAnswer name known ((alike name known).mp covers)

/-! ## The search -/

namespace RuleTable

variable {table : RuleTable} {candidate shorter : List Char}

/-- Whether the table has rules under a name. -/
def Knows (table : RuleTable) (name : String) : Prop :=
  (table.get? name).isSome = true

/-- A candidate with rules of its own is its closest name. -/
theorem isClosest_self
    (known : table.Knows (.ofList candidate)) :
    IsClosest table.Knows candidate (.ofList candidate) where
  isKnown := known
  covers := Or.inl String.toList_ofList
  longest := by
    intro other _ covers
    rw [← String.length_toList, ← String.length_toList, String.toList_ofList]
    exact covers.isPrefix.length_le

theorem ne_of_not_knows
    (unknown : ¬ table.Knows (.ofList candidate))
    {name : String}
    (known : table.Knows name) :
    name.toList ≠ candidate := by
  rintro rfl
  rw [String.ofList_toList] at unknown
  exact unknown known

/-- The round that ends the search ends it with the right answer. -/
theorem isAnswer_of_round_ended
    {closest : Option String}
    (ended : table.round candidate = .ended closest) :
    IsAnswer table.Knows candidate closest := by
  unfold round at ended
  split at ended
  · next known =>
      cases ended
      exact isClosest_self known
  · next unknown =>
      split at ended
      · cases ended
      · next noShorter =>
          cases ended
          intro name known covers
          have unhyphenated := hyphen_not_mem_of_beforeLastHyphen? noShorter
          exact ne_of_not_knows unknown known ((covers_iff_of_not_mem unhyphenated).mp covers)

/-- A round that goes on drops a hyphen and loses no known name that covers the candidate. -/
theorem eq_append_of_round_goesOn
    (goesOn : table.round candidate = .goesOn shorter) :
    ∃ subtag,
      candidate = shorter ++ '-' :: subtag ∧
        ∀ name, table.Knows name →
          (Covers name.toList candidate ↔ Covers name.toList shorter) := by
  unfold round at goesOn
  split at goesOn
  · cases goesOn
  · next unknown =>
      split at goesOn
      · next isShorter =>
          cases goesOn
          obtain ⟨subtag, rfl, unhyphenated⟩ := eq_append_of_beforeLastHyphen? isShorter
          refine ⟨subtag, rfl, ?_⟩
          intro name known
          rw [covers_append_iff unhyphenated]
          exact or_iff_right (ne_of_not_knows unknown known)
      · cases goesOn

/-- The search comes to the right answer. -/
theorem isAnswer_search (table : RuleTable) (candidate : List Char) :
    IsAnswer table.Knows candidate (table.search candidate) := by
  fun_induction table.search candidate with
  | case1 candidate closest ended =>
      exact isAnswer_of_round_ended ended
  | case2 candidate shorter goesOn inductionHypothesis =>
      obtain ⟨_, _, alike⟩ := eq_append_of_round_goesOn goesOn
      exact isAnswer_congr alike inductionHypothesis

end RuleTable

/-! ## Insertions -/

theorem lookup_cons_eq_ite
    (entry : String × LocaleRules) (entries : List (String × LocaleRules)) (name : String) :
    (entry :: entries).lookup name =
      if entry.1 = name then some entry.2 else entries.lookup name := by
  rw [List.lookup_cons]
  by_cases same : entry.1 = name
  · simp [same]
  · simp [same, beq_false_of_ne (Ne.symm same)]

theorem lookup_setEntry
    (key name : String) (rules : LocaleRules) (entries : List (String × LocaleRules)) :
    (RuleTable.setEntry key rules entries).lookup name =
      if key = name then some rules else entries.lookup name := by
  induction entries with
  | nil =>
      exact lookup_cons_eq_ite _ _ _
  | cons entry entries inductionHypothesis =>
      rw [RuleTable.setEntry]
      by_cases replaced : entry.1 = key
      · rw [if_pos replaced, lookup_cons_eq_ite, lookup_cons_eq_ite, replaced]
        split <;> rfl
      · rw [if_neg replaced, lookup_cons_eq_ite, lookup_cons_eq_ite, inductionHypothesis]
        by_cases same : entry.1 = name
        · rw [if_pos same, if_pos same, if_neg fun keySame => replaced (same.trans keySame.symm)]
        · rw [if_neg same, if_neg same]

/-- Insertion sets the rules under the name of the locale and leaves all others. -/
theorem RuleTable.get?_insert
    (table : RuleTable) (locale name : String) (rules : LocaleRules) :
    (table.insert locale rules).get? name =
      if localeName locale = name then some rules else table.get? name :=
  lookup_setEntry _ _ _ _

/-- Whether rules were given for a locale of the name. -/
def IsGiven (inserts : List (String × LocaleRules)) (name : String) : Prop :=
  ∃ entry ∈ inserts, localeName entry.1 = name

/-- Whether rules are those that were given last for a locale of the name. -/
def IsLastGiven (inserts : List (String × LocaleRules)) (name : String) (rules : LocaleRules) :
    Prop :=
  ∃ earlier locale later,
    inserts = earlier ++ (locale, rules) :: later ∧ localeName locale = name ∧
      ∀ entry ∈ later, localeName entry.1 ≠ name

section Inserts

variable {entry : String × LocaleRules} {inserts : List (String × LocaleRules)} {name : String}
  {rules : LocaleRules}

theorem isGiven_cons_iff :
    IsGiven (entry :: inserts) name ↔ localeName entry.1 = name ∨ IsGiven inserts name := by
  simp [IsGiven]

theorem isLastGiven_cons_iff :
    IsLastGiven (entry :: inserts) name rules ↔
      IsLastGiven inserts name rules ∨
        ¬ IsGiven inserts name ∧ localeName entry.1 = name ∧ entry.2 = rules := by
  constructor
  · rintro ⟨earlier, locale, later, equality, same, laterDiffers⟩
    cases earlier with
    | nil =>
        cases equality
        exact Or.inr ⟨fun ⟨other, member, given⟩ => laterDiffers other member given, same, rfl⟩
    | cons first earlier =>
        cases equality
        exact Or.inl ⟨earlier, locale, later, rfl, same, laterDiffers⟩
  · rintro (⟨earlier, locale, later, rfl, same, laterDiffers⟩ | ⟨notGiven, same, rfl⟩)
    · exact ⟨entry :: earlier, locale, later, rfl, same, laterDiffers⟩
    · exact ⟨[], entry.1, inserts, rfl, same, fun other member given =>
        notGiven ⟨other, member, given⟩⟩

/-- Insertions in a row set what was given last and leave what was not given. -/
theorem get?_foldl_insert (table : RuleTable) :
    (inserts.foldl (fun table entry => table.insert entry.1 entry.2) table).get? name =
        some rules ↔
      IsLastGiven inserts name rules ∨
        ¬ IsGiven inserts name ∧ table.get? name = some rules := by
  induction inserts generalizing table with
  | nil =>
      simp [IsLastGiven, IsGiven]
  | cons entry inserts inductionHypothesis =>
      rw [List.foldl_cons, inductionHypothesis, RuleTable.get?_insert, isLastGiven_cons_iff,
        isGiven_cons_iff]
      by_cases same : localeName entry.1 = name
      · simp [same]
      · simp [same]

theorem get?_ofList_eq_some_iff :
    (RuleTable.ofList inserts).get? name = some rules ↔ IsLastGiven inserts name rules := by
  rw [RuleTable.ofList, get?_foldl_insert]
  exact or_iff_left fun ⟨_, found⟩ => nomatch found

theorem IsGiven.exists_isLastGiven
    (isGiven : IsGiven inserts name) :
    ∃ rules, IsLastGiven inserts name rules := by
  induction inserts with
  | nil =>
      obtain ⟨_, member, _⟩ := isGiven
      exact absurd member List.not_mem_nil
  | cons entry inserts inductionHypothesis =>
      by_cases givenAgain : IsGiven inserts name
      · obtain ⟨rules, isLastGiven⟩ := inductionHypothesis givenAgain
        exact ⟨rules, isLastGiven_cons_iff.mpr (Or.inl isLastGiven)⟩
      · have same := (isGiven_cons_iff.mp isGiven).resolve_right givenAgain
        exact ⟨entry.2, isLastGiven_cons_iff.mpr (Or.inr ⟨givenAgain, same, rfl⟩)⟩

/-- A table knows the names that were given. -/
theorem knows_ofList_iff :
    (RuleTable.ofList inserts).Knows name ↔ IsGiven inserts name := by
  constructor
  · intro knows
    obtain ⟨rules, found⟩ := Option.isSome_iff_exists.mp knows
    obtain ⟨earlier, locale, later, rfl, same, _⟩ := get?_ofList_eq_some_iff.mp found
    exact ⟨(locale, rules), List.mem_append_right _ List.mem_cons_self, same⟩
  · intro isGiven
    obtain ⟨rules, isLastGiven⟩ := isGiven.exists_isLastGiven
    exact Option.isSome_iff_exists.mpr ⟨rules, get?_ofList_eq_some_iff.mpr isLastGiven⟩

/-- The names that a table knows are normalized, however their locales were spelled. -/
theorem isNormalized_of_knows
    (knows : (RuleTable.ofList inserts).Knows name) :
    IsNormalized name.toList := by
  obtain ⟨entry, _, rfl⟩ := knows_ofList_iff.mp knows
  rw [localeName, String.toList_ofList]
  exact isNormalized_normalizeLocale _

end Inserts

example :
    (RuleTable.ofList [("en", ⟨["one"], []⟩), ("pt_PT", ⟨["many"], []⟩)]).rules? " PT-pt-x-y " =
      some ⟨["many"], []⟩ := by
  cbv

end MessagePattern.Plural
