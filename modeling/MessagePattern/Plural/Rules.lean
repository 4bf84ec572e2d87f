import MessagePattern.Message.Basic
import MessagePattern.Text.Blank

/-!
Plural rules by locale. A locale without rules of its own has those of the closest more general
locale: `en-GB` those of `en`.
-/

namespace MessagePattern.Plural

/-- The plural categories that a locale distinguishes. -/
structure LocaleRules where
  cardinal : List String
  ordinal : List String
  deriving DecidableEq, Repr

namespace LocaleRules

def ofKind (rules : LocaleRules) : PluralKind → List String
  | .cardinal => rules.cardinal
  | .ordinal => rules.ordinal

def defines (rules : LocaleRules) (kind : PluralKind) (keyword : String) : Bool :=
  (rules.ofKind kind).contains keyword

end LocaleRules

/-! ## Names of locales -/

/-- A capital letter of the basic alphabet becomes small. -/
def lowerAscii (c : Char) : Char :=
  if 'A' ≤ c ∧ c ≤ 'Z' then Char.ofNat (c.toNat + 0x20) else c

/-- The form in which names of locales are compared: without blanks around it, with hyphens for
low lines, in small letters. -/
def normalizeLocale (name : List Char) : List Char :=
  (trimBlanks name).map fun c => lowerAscii (if c = '_' then '-' else c)

/-- A capital letter of the basic alphabet becomes a small one, and nothing else changes. -/
theorem lowerAscii_cases (c : Char) :
    ('a' ≤ lowerAscii c ∧ lowerAscii c ≤ 'z') ∨
      (lowerAscii c = c ∧ ¬ ('A' ≤ c ∧ c ≤ 'Z')) := by
  by_cases isCapital : 'A' ≤ c ∧ c ≤ 'Z'
  · left
    have low : 65 ≤ c.toNat := isCapital.1
    have high : c.toNat ≤ 90 := isCapital.2
    have isValid : (c.toNat + 0x20).isValidChar := Or.inl (by omega)
    have code : (lowerAscii c).toNat = c.toNat + 0x20 := by
      rw [lowerAscii, if_pos isCapital, Char.ofNat, dif_pos isValid]
      rfl
    constructor
    · change 97 ≤ (lowerAscii c).toNat
      omega
    · change (lowerAscii c).toNat ≤ 122
      omega
  · right
    exact ⟨if_neg isCapital, isCapital⟩

theorem not_blank_of_small
    {c : Char}
    (isSmall : 'a' ≤ c ∧ c ≤ 'z') :
    isBlank c = false := by
  have low : 97 ≤ c.toNat := isSmall.1
  have high : c.toNat ≤ 122 := isSmall.2
  simp [isBlank, blankRanges]
  omega

theorem not_capital_lowerAscii (c : Char) :
    ¬ ('A' ≤ lowerAscii c ∧ lowerAscii c ≤ 'Z') := by
  rcases lowerAscii_cases c with isSmall | ⟨same, notCapital⟩
  · intro isCapital
    have tooSmall : 'a' ≤ 'Z' := Char.le_trans isSmall.1 isCapital.2
    exact absurd tooSmall (by decide)
  · rw [same]
    exact notCapital

theorem lowerAscii_hyphenated_ne (c : Char) :
    lowerAscii (if c = '_' then '-' else c) ≠ '_' := by
  rcases lowerAscii_cases (if c = '_' then '-' else c) with isSmall | ⟨same, _⟩
  · intro isLowLine
    rw [isLowLine] at isSmall
    exact absurd isSmall (by decide)
  · rw [same]
    split
    · decide
    · next notLowLine =>
        exact notLowLine

theorem not_blank_lowerAscii_hyphenated
    {c : Char}
    (notBlank : isBlank c = false) :
    isBlank (lowerAscii (if c = '_' then '-' else c)) = false := by
  rcases lowerAscii_cases (if c = '_' then '-' else c) with isSmall | ⟨same, _⟩
  · exact not_blank_of_small isSmall
  · rw [same]
    split
    · decide
    · exact notBlank

/-- A name in the form in which names of locales are compared. -/
structure IsNormalized (name : List Char) : Prop where
  trimmed : Trimmed name
  noLowLine : '_' ∉ name
  noCapital : ∀ c ∈ name, ¬ ('A' ≤ c ∧ c ≤ 'Z')

theorem isNormalized_normalizeLocale (name : List Char) :
    IsNormalized (normalizeLocale name) := by
  have trimmed := trimmed_trimBlanks name
  constructor
  · constructor
    · intro c isFirst
      rw [normalizeLocale, List.head?_map] at isFirst
      obtain ⟨first, found, rfl⟩ := Option.map_eq_some_iff.mp isFirst
      exact not_blank_lowerAscii_hyphenated (trimmed.first first found)
    · intro c isLast
      rw [normalizeLocale, List.getLast?_map] at isLast
      obtain ⟨last, found, rfl⟩ := Option.map_eq_some_iff.mp isLast
      exact not_blank_lowerAscii_hyphenated (trimmed.last last found)
  · intro member
    obtain ⟨c, _, isLowLine⟩ := List.mem_map.mp member
    exact lowerAscii_hyphenated_ne c isLowLine
  · intro c member
    obtain ⟨before, _, rfl⟩ := List.mem_map.mp member
    exact not_capital_lowerAscii _

/-- Normalized names stay as they are, and no others do. -/
theorem normalizeLocale_eq_self_iff {name : List Char} :
    normalizeLocale name = name ↔ IsNormalized name := by
  constructor
  · intro same
    rw [← same]
    exact isNormalized_normalizeLocale name
  · intro isNormalized
    have unchanged : ∀ c ∈ name, lowerAscii (if c = '_' then '-' else c) = c := by
      intro c member
      have notLowLine : c ≠ '_' := by
        rintro rfl
        exact isNormalized.noLowLine member
      rw [if_neg notLowLine, lowerAscii, if_neg (isNormalized.noCapital c member)]
    rw [normalizeLocale, isNormalized.trimmed.trimBlanks_eq, List.map_congr_left unchanged,
      List.map_id']

@[simp] theorem normalizeLocale_normalizeLocale (name : List Char) :
    normalizeLocale (normalizeLocale name) = normalizeLocale name :=
  normalizeLocale_eq_self_iff.mpr (isNormalized_normalizeLocale name)

/-- The name by which a table keeps the rules of a locale. -/
def localeName (locale : String) : String :=
  .ofList (normalizeLocale locale.toList)

/-- The name of the next more general locale, which ends before the last hyphen. -/
def beforeLastHyphen? : List Char → Option (List Char)
  | [] => none
  | c :: name =>
    match beforeLastHyphen? name with
    | some shorter => some (c :: shorter)
    | none => if c = '-' then some [] else none

theorem length_lt_of_beforeLastHyphen?
    {name shorter : List Char}
    (isShorter : beforeLastHyphen? name = some shorter) :
    shorter.length < name.length := by
  induction name generalizing shorter with
  | nil =>
      cases isShorter
  | cons c name inductionHypothesis =>
      rw [beforeLastHyphen?] at isShorter
      split at isShorter
      · next found =>
          cases isShorter
          exact Nat.succ_lt_succ (inductionHypothesis found)
      · split at isShorter
        · cases isShorter
          exact Nat.zero_lt_succ _
        · cases isShorter

/-! ## Tables -/

/-- Rules for some locales, by normalized name. -/
structure RuleTable where
  entries : List (String × LocaleRules)
  deriving DecidableEq, Repr

namespace RuleTable

def empty : RuleTable := ⟨[]⟩

def size (table : RuleTable) : Nat := table.entries.length

def setEntry (key : String) (rules : LocaleRules) :
    List (String × LocaleRules) → List (String × LocaleRules)
  | [] => [(key, rules)]
  | entry :: entries =>
    if entry.1 = key then (key, rules) :: entries else entry :: setEntry key rules entries

def insert (table : RuleTable) (locale : String) (rules : LocaleRules) : RuleTable :=
  ⟨setEntry (localeName locale) rules table.entries⟩

def get? (table : RuleTable) (name : String) : Option LocaleRules :=
  table.entries.lookup name

/-- What a round of the search for the closest locale comes to. -/
inductive Round where
  | ended (closest : Option String)
  | goesOn (candidate : List Char)
  deriving DecidableEq, Repr

/-- A round of the search: the candidate is looked up, and without rules of its own it gives way to
the next more general one. -/
def round (table : RuleTable) (candidate : List Char) : Round :=
  if (table.get? (.ofList candidate)).isSome then .ended (some (.ofList candidate))
  else
    match beforeLastHyphen? candidate with
    | some shorter => .goesOn shorter
    | none => .ended none

theorem length_lt_of_round
    {table : RuleTable} {candidate shorter : List Char}
    (goesOn : table.round candidate = .goesOn shorter) :
    shorter.length < candidate.length := by
  unfold round at goesOn
  split at goesOn
  · cases goesOn
  · split at goesOn
    · next isShorter =>
        cases goesOn
        exact length_lt_of_beforeLastHyphen? isShorter
    · cases goesOn

def search (table : RuleTable) (candidate : List Char) : Option String :=
  match _goesOn : table.round candidate with
  | .ended closest => closest
  | .goesOn shorter => table.search shorter
termination_by candidate.length
decreasing_by exact length_lt_of_round _goesOn

/-- The closest locale that has rules. -/
def closest? (table : RuleTable) (locale : String) : Option String :=
  table.search (normalizeLocale locale.toList)

/-- Spellings of one name have the same closest locale. -/
theorem closest?_localeName (table : RuleTable) (locale : String) :
    table.closest? (localeName locale) = table.closest? locale := by
  rw [closest?, localeName, String.toList_ofList, normalizeLocale_normalizeLocale, closest?]

def rules? (table : RuleTable) (locale : String) : Option LocaleRules := do
  table.get? (← table.closest? locale)

/-- The table with the given rules, where the last of those for one locale counts. -/
def ofList (entries : List (String × LocaleRules)) : RuleTable :=
  entries.foldl (fun table entry => table.insert entry.1 entry.2) empty

end RuleTable

end MessagePattern.Plural
