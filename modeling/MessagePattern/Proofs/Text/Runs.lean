import Mathlib.Data.List.TakeWhile
import MessagePattern.Text.Blank

/-!
Runs of characters of one class at the front of a text, runs of blanks in particular, and words;
runs of apostrophes anywhere in a text.
-/

namespace MessagePattern

section Runs

variable {isInside : Char → Bool} {run rest : List Char}

/-- A run ends where the class does. -/
theorem takeWhile_run_append
    (inside : ∀ c ∈ run, isInside c = true)
    (stops : ∀ c ∈ rest.head?, isInside c = false) :
    (run ++ rest).takeWhile isInside = run := by
  rw [List.takeWhile_append_of_pos inside]
  cases rest with
  | nil => simp
  | cons c tail =>
      have headStops : isInside c = false := stops c rfl
      simp [headStops]

theorem dropWhile_run_append
    (inside : ∀ c ∈ run, isInside c = true)
    (stops : ∀ c ∈ rest.head?, isInside c = false) :
    (run ++ rest).dropWhile isInside = rest := by
  rw [List.dropWhile_append_of_pos inside]
  cases rest with
  | nil => simp
  | cons c tail =>
      have headStops : isInside c = false := stops c rfl
      simp [headStops]

end Runs

section First

variable {Holds : Char → Prop} {text : List Char}

theorem first_append
    (first : ∃ c ∈ text.head?, Holds c) (rest : List Char) :
    ∃ c ∈ (text ++ rest).head?, Holds c := by
  obtain ⟨c, isFirst, holds⟩ := first
  obtain ⟨tail, rfl⟩ := List.head?_eq_some_iff.mp isFirst
  exact ⟨c, rfl, holds⟩

theorem forall_first
    (first : ∃ c ∈ text.head?, Holds c) :
    ∀ c ∈ text.head?, Holds c := by
  obtain ⟨c, isFirst, holds⟩ := first
  intro other otherIsFirst
  obtain rfl : c = other := Option.some.inj (isFirst.symm.trans otherIsFirst)
  exact holds

theorem head?_ne_of_ne_cons
    {c : Char}
    (notFirst : ∀ tail, text = c :: tail → False) :
    text.head? ≠ some c := by
  intro first
  obtain ⟨tail, textEq⟩ := List.head?_eq_some_iff.mp first
  exact notFirst tail textEq

end First

/-- What follows a part of a text is shorter than the text. -/
theorem length_lt_append
    {part : List Char}
    (nonempty : part ≠ []) (tail : List Char) :
    tail.length < (part ++ tail).length := by
  rw [List.length_append]
  exact Nat.lt_add_of_pos_left (List.length_pos_iff.mpr nonempty)

/-- Nothing but blanks. -/
def AllBlank (text : List Char) : Prop :=
  ∀ c ∈ text, isBlank c = true

instance (text : List Char) : Decidable (AllBlank text) :=
  decidable_of_iff (text.all isBlank = true) List.all_eq_true

theorem allBlank_nil : AllBlank [] := by
  intro c member
  exact absurd member List.not_mem_nil

theorem allBlank_cons
    {c : Char} {text : List Char}
    (headBlank : isBlank c = true)
    (tailBlank : AllBlank text) :
    AllBlank (c :: text) := by
  intro d member
  rcases List.mem_cons.mp member with rfl | inTail
  · exact headBlank
  · exact tailBlank d inTail

theorem skipBlanks_append
    {blanks : List Char} (text : List Char)
    (allBlank : AllBlank blanks) :
    skipBlanks (blanks ++ text) = skipBlanks text :=
  List.dropWhile_append_of_pos allBlank

/-- What skipping takes off the front is blank. -/
theorem exists_blanks_append_skipBlanks (text : List Char) :
    ∃ blanks, AllBlank blanks ∧ text = blanks ++ skipBlanks text := by
  refine ⟨text.takeWhile isBlank, ?_, ?_⟩
  · intro c member
    exact List.mem_takeWhile_imp member
  · exact List.takeWhile_append_dropWhile.symm

/-! ## Runs of apostrophes -/

/-- A text begins with some apostrophes and goes on with another character. -/
theorem exists_apostrophes_append (text : List Char) :
    ∃ marks others,
      text = marks ++ others ∧
        (∀ c ∈ marks, c = '\'') ∧
        ∀ c ∈ others.head?, c ≠ '\'' := by
  refine ⟨text.takeWhile (· == '\''), text.dropWhile (· == '\''),
    List.takeWhile_append_dropWhile.symm, ?_, ?_⟩
  · intro c member
    simpa using List.mem_takeWhile_imp member
  · intro c first
    simpa using eq_false_of_mem_head?_dropWhile first

/-- Apostrophes come in pairs: every run of them that no apostrophe is next to has even length. -/
def ApostrophesPaired (text : List Char) : Prop :=
  ∀ before run after,
    text = before ++ run ++ after →
    (∀ c ∈ run, c = '\'') →
    before.getLast? ≠ some '\'' →
    after.head? ≠ some '\'' →
    2 ∣ run.length

theorem apostrophesPaired_nil : ApostrophesPaired [] := by
  intro before run after equality _ _ _
  have runEmpty : run = [] := by simp_all
  simp [runEmpty]

theorem ApostrophesPaired.cons
    {c : Char} {text : List Char}
    (notApostrophe : c ≠ '\'')
    (paired : ApostrophesPaired text) :
    ApostrophesPaired (c :: text) := by
  intro before run after equality allApostrophes starts ends
  cases before with
  | cons d before =>
      obtain ⟨rfl, rfl⟩ : c = d ∧ text = before ++ run ++ after := by simpa using equality
      refine paired before run after rfl allApostrophes ?_ ends
      intro isLast
      rw [List.getLast?_cons, isLast] at starts
      exact starts rfl
  | nil =>
      cases run with
      | nil =>
          simp
      | cons d run =>
          obtain ⟨rfl, _⟩ : c = d ∧ text = run ++ after := by simpa using equality
          exact absurd (allApostrophes c (by simp)) notApostrophe

theorem ApostrophesPaired.doubled
    {text : List Char}
    (paired : ApostrophesPaired text) :
    ApostrophesPaired ('\'' :: '\'' :: text) := by
  intro before run after equality allApostrophes starts ends
  match before with
  | [] =>
      -- The run takes both of the apostrophes, since none may follow it.
      match run with
      | [] =>
          simp
      | [c] =>
          obtain ⟨_, rfl⟩ : '\'' = c ∧ '\'' :: text = after := by simpa using equality
          exact absurd rfl ends
      | c :: d :: run =>
          obtain ⟨_, _, rfl⟩ : '\'' = c ∧ '\'' = d ∧ text = run ++ after := by
            simpa using equality
          have even := paired [] run after rfl
            (fun e member => allApostrophes e (by simp [member])) (by simp) ends
          simpa [Nat.add_assoc] using (Nat.dvd_add_right (Nat.dvd_refl 2)).mpr even
  | [c] =>
      obtain ⟨rfl, _⟩ : '\'' = c ∧ '\'' :: text = run ++ after := by simpa using equality
      exact absurd rfl starts
  | c :: d :: before =>
      obtain ⟨rfl, rfl, rfl⟩ : '\'' = c ∧ '\'' = d ∧ text = before ++ run ++ after := by
        simpa using equality
      refine paired before run after rfl allApostrophes ?_ ends
      intro isLast
      rw [List.getLast?_cons, List.getLast?_cons, isLast] at starts
      exact starts rfl

theorem ApostrophesPaired.of_cons
    {c : Char} {text : List Char}
    (paired : ApostrophesPaired (c :: text))
    (notApostrophe : c ≠ '\'') :
    ApostrophesPaired text := by
  rintro before run after rfl allApostrophes starts ends
  refine paired (c :: before) run after rfl allApostrophes ?_ ends
  rw [List.getLast?_cons]
  cases last : before.getLast? with
  | none =>
      simpa using notApostrophe
  | some d =>
      rw [last] at starts
      exact starts

/-- The first apostrophe is followed by another one. -/
theorem ApostrophesPaired.exists_cons
    {text : List Char}
    (paired : ApostrophesPaired ('\'' :: text)) :
    ∃ rest, text = '\'' :: rest := by
  apply List.head?_eq_some_iff.mp
  by_contra isLone
  have even := paired [] ['\''] text rfl (by simp) (by simp) isLone
  exact absurd (Nat.le_of_dvd Nat.one_pos even) (by decide)

theorem ApostrophesPaired.of_doubled
    {text : List Char}
    (paired : ApostrophesPaired ('\'' :: '\'' :: text)) :
    ApostrophesPaired text := by
  rintro before run after rfl allApostrophes starts ends
  cases before with
  | nil =>
      have even :=
        paired [] ('\'' :: '\'' :: run) after rfl (by simpa using allApostrophes) (by simp) ends
      exact (Nat.dvd_add_left (Nat.dvd_refl 2)).mp even
  | cons d before =>
      refine paired ('\'' :: '\'' :: d :: before) run after rfl allApostrophes ?_ ends
      simpa [List.getLast?_cons] using starts

/-- A word of a class: at least one character, and all of them of the class. -/
structure IsWord (isWordChar : Char → Bool) (word : String) : Prop where
  nonempty : word.toList ≠ []
  inside : ∀ c ∈ word.toList, isWordChar c = true

instance (isWordChar : Char → Bool) (word : String) : Decidable (IsWord isWordChar word) :=
  decidable_of_iff (word.toList ≠ [] ∧ word.toList.all isWordChar = true)
    ⟨fun ⟨nonempty, inside⟩ => ⟨nonempty, List.all_eq_true.mp inside⟩,
      fun isWord => ⟨isWord.nonempty, List.all_eq_true.mpr isWord.inside⟩⟩

theorem IsWord.exists_first
    {isWordChar : Char → Bool} {word : String}
    (isWord : IsWord isWordChar word) (rest : List Char) :
    ∃ c ∈ (word.toList ++ rest).head?, isWordChar c = true := by
  obtain ⟨c, tail, equality⟩ := List.exists_cons_of_ne_nil isWord.nonempty
  exact ⟨c, by simp [equality], isWord.inside c (by simp [equality])⟩

end MessagePattern
