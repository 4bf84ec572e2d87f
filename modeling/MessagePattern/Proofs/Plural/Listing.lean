import Mathlib.Data.List.Dedup
import MessagePattern.Plural.RuleText
import MessagePattern.Proofs.Plural.Locales
import MessagePattern.Proofs.Text.ByteOrder

/-!
# Tables of listed rules

Which table listed rules make: the order in which they are listed is of no effect, and of the locales
with one name the greatest in byte order counts.
-/

namespace MessagePattern.Plural

section Names

variable {entries : List (String × LocaleRules)} {key name : String} {rules : LocaleRules}

theorem mem_names_setEntry_iff :
    name ∈ (RuleTable.setEntry key rules entries).map Prod.fst ↔
      key = name ∨ name ∈ entries.map Prod.fst := by
  induction entries with
  | nil =>
      simp [RuleTable.setEntry, eq_comm]
  | cons entry entries inductionHypothesis =>
      rw [RuleTable.setEntry]
      split
      · next replaced =>
          simp [replaced, eq_comm]
      · rw [List.map_cons, List.mem_cons, inductionHypothesis, List.map_cons, List.mem_cons]
        exact or_left_comm

theorem nodup_names_setEntry
    (distinct : (entries.map Prod.fst).Nodup) :
    ((RuleTable.setEntry key rules entries).map Prod.fst).Nodup := by
  induction entries with
  | nil =>
      exact List.nodup_singleton key
  | cons entry entries inductionHypothesis =>
      obtain ⟨notAgain, distinctAfter⟩ := List.nodup_cons.mp distinct
      rw [RuleTable.setEntry]
      split
      · next replaced =>
          rw [List.map_cons, ← replaced]
          exact distinct
      · next kept =>
          refine List.nodup_cons.mpr ⟨?_, inductionHypothesis distinctAfter⟩
          rw [mem_names_setEntry_iff]
          exact not_or_intro (Ne.symm kept) notAgain

/-- An entry with a new name comes last. -/
theorem setEntry_eq_append
    (isNew : key ∉ entries.map Prod.fst) :
    RuleTable.setEntry key rules entries = entries ++ [(key, rules)] := by
  induction entries with
  | nil =>
      rfl
  | cons entry entries inductionHypothesis =>
      obtain ⟨differs, newAfter⟩ := List.ne_and_not_mem_of_not_mem_cons isNew
      rw [RuleTable.setEntry, if_neg (Ne.symm differs), inductionHypothesis newAfter,
        List.cons_append]

/-- Under distinct names, the rules found under a name are those that stand with it. -/
theorem lookup_eq_some_iff_mem
    (distinct : (entries.map Prod.fst).Nodup) :
    entries.lookup name = some rules ↔ (name, rules) ∈ entries := by
  induction entries with
  | nil =>
      simp
  | cons entry entries inductionHypothesis =>
      obtain ⟨notAgain, distinctAfter⟩ := List.nodup_cons.mp distinct
      rw [lookup_cons_eq_ite, List.mem_cons]
      split
      · next same =>
          subst same
          have notAfter : (entry.1, rules) ∉ entries := fun member =>
            notAgain (List.mem_map.mpr ⟨_, member, rfl⟩)
          rw [or_iff_left notAfter, Option.some_inj, Prod.ext_iff]
          exact ⟨fun same => ⟨rfl, same.symm⟩, fun same => same.2.symm⟩
      · next different =>
          have notFirst : (name, rules) ≠ entry := fun same =>
            different (congrArg Prod.fst same).symm
          rw [or_iff_right notFirst]
          exact inductionHypothesis distinctAfter

end Names

theorem RuleTable.nodup_names_foldl_insert
    (inserts : List (String × LocaleRules)) (table : RuleTable)
    (distinct : (table.entries.map Prod.fst).Nodup) :
    ((inserts.foldl (fun table entry => table.insert entry.1 entry.2) table).entries.map
      Prod.fst).Nodup := by
  induction inserts generalizing table with
  | nil =>
      exact distinct
  | cons entry inserts inductionHypothesis =>
      exact inductionHypothesis _ (nodup_names_setEntry distinct)

theorem RuleTable.nodup_names_ofList (inserts : List (String × LocaleRules)) :
    ((RuleTable.ofList inserts).entries.map Prod.fst).Nodup :=
  nodup_names_foldl_insert inserts .empty List.nodup_nil

theorem RuleTable.mem_entries_ofList_iff
    {inserts : List (String × LocaleRules)} {name : String} {rules : LocaleRules} :
    (name, rules) ∈ (RuleTable.ofList inserts).entries ↔ IsLastGiven inserts name rules := by
  rw [← lookup_eq_some_iff_mem (RuleTable.nodup_names_ofList inserts)]
  exact get?_ofList_eq_some_iff

theorem RuleTable.mem_names_ofList_iff
    {inserts : List (String × LocaleRules)} {name : String} :
    name ∈ (RuleTable.ofList inserts).entries.map Prod.fst ↔ IsGiven inserts name := by
  rw [← knows_ofList_iff, RuleTable.Knows, Option.isSome_iff_exists]
  simp only [RuleTable.get?, lookup_eq_some_iff_mem (RuleTable.nodup_names_ofList inserts),
    List.mem_map, Prod.exists, exists_and_right, exists_eq_right]

theorem entryLe_iff {left right : String × LocaleRules} :
    entryLe left right = true ↔ left.1 ≤ right.1 :=
  decide_eq_true_iff

section Order

variable {entries listed : List (String × LocaleRules)}

/-- Distinct locales stand in strict order when they are sorted. -/
theorem pairwise_mergeSort_entryLe
    (distinct : (entries.map Prod.fst).Nodup) :
    (entries.mergeSort entryLe).Pairwise fun left right => left.1 < right.1 := by
  have inOrder : (entries.mergeSort entryLe).Pairwise fun left right => left.1 ≤ right.1 := by
    refine (List.pairwise_mergeSort ?_ ?_ entries).imp entryLe_iff.mp
    · intro first second third firstLe secondLe
      exact entryLe_iff.mpr ((entryLe_iff.mp firstLe).trans (entryLe_iff.mp secondLe))
    · intro left right
      rw [Bool.or_eq_true, entryLe_iff, entryLe_iff]
      exact le_total _ _
  have sortedDistinct : ((entries.mergeSort entryLe).map Prod.fst).Nodup :=
    ((List.mergeSort_perm entries entryLe).map Prod.fst).nodup_iff.mpr distinct
  exact inOrder.imp₂ (fun _ _ => lt_of_le_of_ne) (List.pairwise_map.mp sortedDistinct)

/-- Rules of distinct locales come into the same order, however they are listed. -/
theorem mergeSort_entryLe_eq_of_perm
    (distinct : (entries.map Prod.fst).Nodup)
    (isPermutation : listed.Perm entries) :
    listed.mergeSort entryLe = entries.mergeSort entryLe := by
  have listedDistinct := (isPermutation.map Prod.fst).nodup_iff.mpr distinct
  refine List.Perm.eq_of_pairwise ?_ (pairwise_mergeSort_entryLe listedDistinct)
    (pairwise_mergeSort_entryLe distinct)
    (((List.mergeSort_perm _ _).trans isPermutation).trans (List.mergeSort_perm _ _).symm)
  -- A strict order leaves no two entries that could stand either way round.
  intro left right _ _ leftLess rightLess
  exact absurd rightLess leftLess.asymm

theorem RuleTable.ofEntries_eq_of_perm
    (distinct : (entries.map Prod.fst).Nodup)
    (isPermutation : listed.Perm entries) :
    RuleTable.ofEntries listed = RuleTable.ofEntries entries :=
  congrArg RuleTable.ofList (mergeSort_entryLe_eq_of_perm distinct isPermutation)

end Order

/-! ## The locale that counts -/

/-- Whether rules are those given for the greatest locale of the name, in byte order. -/
def IsGreatestGiven (entries : List (String × LocaleRules)) (name : String) (rules : LocaleRules) :
    Prop :=
  ∃ locale,
    (locale, rules) ∈ entries ∧ localeName locale = name ∧
      ∀ other ∈ entries, localeName other.1 = name → utf8Bytes other.1 ≤ utf8Bytes locale

section Greatest

variable {entries listed : List (String × LocaleRules)} {name : String} {rules : LocaleRules}

theorem isGreatestGiven_congr
    (isPermutation : listed.Perm entries) :
    IsGreatestGiven listed name rules ↔ IsGreatestGiven entries name rules := by
  simp only [IsGreatestGiven, isPermutation.mem_iff]

/-- Of locales in strict order, the last of a name is the greatest. -/
theorem isLastGiven_iff_isGreatestGiven
    (inOrder : entries.Pairwise fun left right => left.1 < right.1) :
    IsLastGiven entries name rules ↔ IsGreatestGiven entries name rules := by
  constructor
  · rintro ⟨earlier, locale, later, rfl, isNamed, laterDiffers⟩
    refine ⟨locale, List.mem_append_right _ List.mem_cons_self, isNamed, ?_⟩
    intro other isOther otherNamed
    rw [utf8Bytes_le_iff]
    rcases List.mem_append.mp isOther with isEarlier | notEarlier
    · exact le_of_lt ((List.pairwise_append.mp inOrder).2.2 _ isEarlier _ List.mem_cons_self)
    · rcases List.mem_cons.mp notEarlier with rfl | isLater
      · exact le_refl _
      · exact absurd otherNamed (laterDiffers other isLater)
  · rintro ⟨locale, isEntry, isNamed, greatest⟩
    obtain ⟨earlier, later, rfl⟩ := List.append_of_mem isEntry
    refine ⟨earlier, locale, later, rfl, isNamed, ?_⟩
    intro other isLater otherNamed
    have less : locale < other.1 :=
      (List.pairwise_cons.mp (List.pairwise_append.mp inOrder).2.1).1 other isLater
    have isOther := List.mem_append_right earlier (List.mem_cons_of_mem (locale, rules) isLater)
    exact not_le_of_gt less (utf8Bytes_le_iff.mp (greatest other isOther otherNamed))

theorem RuleTable.mem_entries_ofEntries_iff
    (distinct : (entries.map Prod.fst).Nodup) :
    (name, rules) ∈ (RuleTable.ofEntries entries).entries ↔
      IsGreatestGiven entries name rules := by
  rw [RuleTable.ofEntries, RuleTable.mem_entries_ofList_iff,
    isLastGiven_iff_isGreatestGiven (pairwise_mergeSort_entryLe distinct),
    isGreatestGiven_congr (List.mergeSort_perm entries entryLe)]

/-- The names of a table are those of the listed locales, each once. -/
theorem RuleTable.names_ofEntries_perm (entries : List (String × LocaleRules)) :
    ((RuleTable.ofEntries entries).entries.map Prod.fst).Perm
      (entries.map fun entry => localeName entry.1).dedup := by
  rw [RuleTable.ofEntries,
    List.perm_ext_iff_of_nodup (RuleTable.nodup_names_ofList _) (List.nodup_dedup _)]
  intro name
  rw [RuleTable.mem_names_ofList_iff, List.mem_dedup, List.mem_map, IsGiven]
  exact exists_congr fun entry => and_congr_left' (List.mergeSort_perm _ _).mem_iff

end Greatest

/-- Whether a member of an object gives rules to a locale. -/
def GivesEntry (member : String × Json) (entry : String × LocaleRules) : Prop :=
  member.1 = entry.1 ∧ LocaleRules.ofJson? member.2 = some entry.2

/-- Whether a value is an object of rules by locale, in the order in which they are listed. -/
def GivesRules (value : Json) (listed : List (String × LocaleRules)) : Prop :=
  ∃ members, value.members? = some members ∧ List.Forall₂ GivesEntry members listed

section Text

variable {value : Json} {entries listed : List (String × LocaleRules)}

theorem mapM_rules_eq_some
    {members : List (String × Json)}
    (giveEntries : List.Forall₂ GivesEntry members listed) :
    (members.mapM fun (name, rules) => return (name, ← LocaleRules.ofJson? rules)) =
      some listed := by
  induction giveEntries with
  | nil =>
      rfl
  | cons givesEntry _ inductionHypothesis =>
      obtain ⟨sameName, areRules⟩ := givesEntry
      rw [List.mapM_cons, inductionHypothesis]
      dsimp only
      rw [areRules, sameName]
      rfl

/-- Entries with distinct names are all kept, in their order. -/
theorem foldl_setEntry_eq_append
    (distinct : ((entries ++ listed).map Prod.fst).Nodup) :
    listed.foldl (fun entries entry => RuleTable.setEntry entry.1 entry.2 entries) entries =
      entries ++ listed := by
  induction listed generalizing entries with
  | nil =>
      exact (List.append_nil entries).symm
  | cons entry listed inductionHypothesis =>
      have isNew : entry.1 ∉ entries.map Prod.fst := by
        rw [List.map_append] at distinct
        exact fun known =>
          (List.nodup_append.mp distinct).2.2 _ known _ List.mem_cons_self rfl
      rw [List.append_cons] at distinct
      rw [List.foldl_cons, setEntry_eq_append isNew, inductionHypothesis distinct,
        ← List.append_cons]

theorem RuleTable.ofJson?_of_givesRules
    (distinct : (listed.map Prod.fst).Nodup)
    (givesRules : GivesRules value listed) :
    RuleTable.ofJson? value = some (RuleTable.ofEntries listed) := by
  obtain ⟨members, areMembers, giveEntries⟩ := givesRules
  have kept := @foldl_setEntry_eq_append [] listed distinct
  rw [List.nil_append] at kept
  rw [RuleTable.ofJson?, areMembers, Option.bind_eq_bind, Option.bind_some,
    mapM_rules_eq_some giveEntries, Option.bind_eq_bind, Option.bind_some, kept]
  rfl

end Text

/-- A table of distinct locales depends neither on the order in which they are listed nor on that of
the members of the object they are read from. It has each of their names once, with the rules of the
greatest locale of the name in byte order. -/
theorem table_of_distinct_locales
    {entries : List (String × LocaleRules)}
    (distinct : (entries.map Prod.fst).Nodup) :
    (∀ listed, listed.Perm entries →
        RuleTable.ofEntries listed = RuleTable.ofEntries entries ∧
          ∀ content value,
            Json.ofText? content = some value → GivesRules value listed →
              RuleTable.ofText? content = some (RuleTable.ofEntries entries)) ∧
      ((RuleTable.ofEntries entries).entries.map Prod.fst).Perm
        (entries.map fun entry => localeName entry.1).dedup ∧
      (∀ name rules,
        (name, rules) ∈ (RuleTable.ofEntries entries).entries ↔
          IsGreatestGiven entries name rules) ∧
      (RuleTable.ofEntries entries).size =
        (entries.map fun entry => localeName entry.1).dedup.length := by
  have names := RuleTable.names_ofEntries_perm entries
  refine ⟨?_, names, fun _ _ => RuleTable.mem_entries_ofEntries_iff distinct, ?_⟩
  · intro listed isPermutation
    have sameTable := RuleTable.ofEntries_eq_of_perm distinct isPermutation
    refine ⟨sameTable, ?_⟩
    intro content value isValue givesRules
    have listedDistinct := (isPermutation.map Prod.fst).nodup_iff.mpr distinct
    rw [RuleTable.ofText?, isValue, ← sameTable]
    exact RuleTable.ofJson?_of_givesRules listedDistinct givesRules
  · rw [RuleTable.size, ← names.length_eq, List.length_map]

/-- Rules for three locales, two of which have one name. -/
def spellings : List (String × LocaleRules) :=
  [("EN", ⟨["few"], []⟩), ("\u00a0en", ⟨["one"], []⟩), ("de_AT", ⟨[], []⟩)]

/-- The rules as they are read from text, listed from the last to the first. -/
def spellingsJson : Json :=
  .object
    [⟨"de_AT".toList, .object []⟩,
      ⟨"\\u00a0en".toList, .object [⟨"cardinal".toList, .array [.string "one".toList]⟩]⟩,
      ⟨"EN".toList, .object [⟨"cardinal".toList, .array [.string "few".toList]⟩]⟩]

/-- The blank before the second locale is greater than a letter and no part of its name, which is
that of the first. -/
theorem table_of_spellings :
    (spellings.map Prod.fst).Nodup ∧
      RuleTable.ofText?
          ("\x7b\"de_AT\": \x7b\x7d, \"\\u00a0en\": \x7b\"cardinal\": [\"one\"]\x7d, " ++
            "\"EN\": \x7b\"cardinal\": [\"few\"]\x7d\x7d") =
        some (RuleTable.ofEntries spellings) ∧
      ("en", ⟨["one"], []⟩) ∈ (RuleTable.ofEntries spellings).entries ∧
      (RuleTable.ofEntries spellings).size = 2 := by
  have distinct : (spellings.map Prod.fst).Nodup := by decide
  obtain ⟨sameTable, _, hasRules, hasSize⟩ := table_of_distinct_locales distinct
  have givesRules : GivesRules spellingsJson spellings.reverse :=
    ⟨_, by with_unfolding_all rfl,
      .cons ⟨rfl, by with_unfolding_all rfl⟩ <|
        .cons ⟨rfl, by with_unfolding_all rfl⟩ <|
          .cons ⟨rfl, by with_unfolding_all rfl⟩ .nil⟩
  refine ⟨distinct, ?_, ?_, ?_⟩
  · refine (sameTable _ (List.reverse_perm spellings)).2 _ _ ?_ givesRules
    with_unfolding_all rfl
  · exact (hasRules _ _).mpr ⟨"\u00a0en", by decide, by decide, by decide⟩
  · rw [hasSize]
    decide

end MessagePattern.Plural
