import Mathlib.Data.List.Basic
import MessagePattern.Proofs.Json.RoundTrip

/-!
# Values built from texts, numbers and records

Their literals are literals, and looking inside finds what they were built from.
-/

namespace MessagePattern.Json

theorem hasLiterals_text (content : String) :
    (text content).HasLiterals :=
  readLiteral?_escape content

@[simp] theorem text?_text (content : String) :
    (text content).text? = some content :=
  unescape?_escape content

@[simp] theorem name?_text (room : Nat) (content : String) :
    (text content).name? room = some content :=
  unescape?_escape content

theorem isDigit_of_mem_repr (n : Nat) :
    ∀ c ∈ n.repr.toList, c.isDigit = true := by
  intro c member
  rw [Nat.toList_repr] at member
  exact Nat.isDigit_of_mem_toDigits (by decide) (by decide) member

theorem isDigits_repr (n : Nat) :
    isDigits n.repr.toList = true := by
  rw [isDigits, Bool.and_eq_true, List.all_eq_true]
  exact ⟨by simp, isDigit_of_mem_repr n⟩

theorem digitChar_ne_zero :
    ∀ n < 10, 0 < n → Nat.digitChar n ≠ '0' := by
  decide

/-- A positive number does not begin with a zero. -/
theorem head?_toDigits_ne
    {n : Nat}
    (positive : 0 < n) :
    (Nat.toDigits 10 n).head? ≠ some '0' := by
  induction n using Nat.strongRecOn with
  | _ n inductionHypothesis =>
      by_cases small : n < 10
      · rw [Nat.toDigits_of_lt_base small, List.head?_cons]
        exact fun same => digitChar_ne_zero n small positive (Option.some.inj same)
      · rw [Nat.toDigits_of_base_le (by decide) (Nat.le_of_not_lt small),
          List.head?_append_of_ne_nil _ Nat.toDigits_ne_nil]
        exact inductionHypothesis (n / 10) (by omega) (by omega)

theorem isInteger_repr (n : Nat) :
    isInteger n.repr.toList = true := by
  rw [isInteger, isDigits_repr, Bool.true_and, Bool.or_eq_true]
  rcases Nat.eq_zero_or_pos n with rfl | positive
  · exact Or.inr rfl
  · rw [Nat.toList_repr]
    exact Or.inl (bne_iff_ne.mpr (head?_toDigits_ne positive))

theorem isMagnitude_repr (n : Nat) :
    isMagnitude n.repr.toList = true := by
  have isDigit := isDigit_of_mem_repr n
  rw [isMagnitude, List.takeWhile_eq_self_iff.mpr isDigit, List.dropWhile_eq_nil_iff.mpr isDigit,
    isInteger_repr]
  rfl

theorem hasLiterals_natural (n : Nat) :
    (natural n).HasLiterals := by
  constructor
  · change isNumber n.repr.toList = true
    unfold isNumber
    split
    · next signed =>
        have isDigit := isDigit_of_mem_repr n '-' (signed ▸ List.mem_cons_self)
        cases isDigit
    · exact isMagnitude_repr n
  · intro c member
    rw [isNumberChar, isDigit_of_mem_repr n c member]
    rfl

@[simp] theorem natural?_natural (n : Nat) :
    (natural n).natural? = some n := by
  change (if isDigits n.repr.toList then some (digitsValue n.repr.toList) else none) = some n
  rw [if_pos (isDigits_repr n), digitsValue_repr]

theorem hasLiterals_tagged
    {value : Json}
    (tag : String) (hasLiterals : value.HasLiterals) :
    (tagged tag value).HasLiterals :=
  ⟨readLiteral?_escape tag, hasLiterals, trivial⟩

@[simp] theorem tagged?_tagged (tag : String) (value : Json) :
    (tagged tag value).tagged? = some (tag, value) := by
  simp [tagged, tagged?, unescape?_escape]

theorem hasLiterals_record
    {members : List (String × Json)}
    (haveLiterals : ∀ member ∈ members, member.2.HasLiterals) :
    (record members).HasLiterals := by
  change membersHaveLiterals (members.map fun member => ⟨escape member.1, member.2⟩)
  induction members with
  | nil =>
      trivial
  | cons member members inductionHypothesis =>
      obtain ⟨hasLiterals, othersHaveLiterals⟩ := List.forall_mem_cons.mp haveLiterals
      exact ⟨readLiteral?_escape member.1, hasLiterals, inductionHypothesis othersHaveLiterals⟩

/-- Reading each of several items succeeds if reading any of them does. -/
theorem mapM_eq_some_map
    {α β : Type} {read : α → Option β} {f : α → β} {items : List α}
    (reads : ∀ item ∈ items, read item = some (f item)) :
    items.mapM read = some (items.map f) := by
  induction items with
  | nil =>
      rfl
  | cons item items inductionHypothesis =>
      obtain ⟨readsItem, readsOthers⟩ := List.forall_mem_cons.mp reads
      rw [List.mapM_cons, readsItem, inductionHypothesis readsOthers]
      rfl

@[simp] theorem members?_record (members : List (String × Json)) :
    (record members).members? = some members := by
  induction members with
  | nil =>
      rfl
  | cons member members inductionHypothesis =>
      change List.mapM _ (List.map _ members) = some members at inductionHypothesis
      change List.mapM _ (_ :: List.map _ members) = some (member :: members)
      rw [List.mapM_cons, inductionHypothesis, unescape?_escape]
      rfl

/-- Of members with different names, the ones that bear one of the names are just that one. -/
theorem filter_name_eq_singleton
    {members : List (String × Json)} {member : String × Json}
    (distinct : (members.map Prod.fst).Nodup)
    (given : member ∈ members) :
    members.filter (fun other => other.1 == member.1) = [member] := by
  induction members with
  | nil =>
      cases given
  | cons first members inductionHypothesis =>
      obtain ⟨notAgain, othersDistinct⟩ := List.nodup_cons.mp distinct
      rcases List.mem_cons.mp given with rfl | given
      · rw [List.filter_cons, if_pos (beq_self_eq_true member.1), List.filter_eq_nil_iff.mpr]
        intro other isOther same
        exact notAgain (eq_of_beq same ▸ List.mem_map_of_mem isOther)
      · have different : ¬ (first.1 == member.1) = true :=
          fun same => notAgain (eq_of_beq same ▸ List.mem_map_of_mem given)
        rw [List.filter_cons, if_neg different]
        exact inductionHypothesis othersDistinct given

/-- A record whose names are all different has the fields it was built from. -/
theorem fields?_record
    (members : List (String × Json)) (least : Nat)
    (distinct : (members.map Prod.fst).Nodup) :
    (record members).fields? (members.map Prod.fst) least =
      some (members.map fun member => some member.2) := by
  change ((record members).members?.bind fun members' => _) = _
  rw [members?_record, Option.bind_some]
  rw [List.mapM_map]
  refine mapM_eq_some_map fun member given => ?_
  simp only [Function.comp]
  rw [filter_name_eq_singleton distinct given]

end MessagePattern.Json
