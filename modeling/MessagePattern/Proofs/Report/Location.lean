import MessagePattern.Proofs.Text.Bytes
import MessagePattern.Proofs.Text.Runs
import MessagePattern.Report.Excerpt

/-!
# Places in a source

The line and the column of a place in a text, and the line of the text that a report shows for them.
-/

namespace MessagePattern.Report

/-- A text that is cut at a byte position: the lines before the one that the position is in, what
stands in that line before the position, and what follows. -/
structure IsCutAt (text : List Char) (offset : Nat) (earlier current place : List Char) : Prop where
  text_eq : text = earlier ++ current ++ place
  offset_eq : byteLength (earlier ++ current) = offset
  earlier_ends : earlier = [] ∨ ∃ lines, earlier = lines ++ ['\n']
  current_unbroken : '\n' ∉ current

theorem exists_isCutAt (before place : List Char) :
    ∃ earlier current, IsCutAt (before ++ place) (byteLength before) earlier current place := by
  have exists_lines :
      ∃ earlier current,
        before = earlier ++ current ∧
          (earlier = [] ∨ ∃ lines, earlier = lines ++ ['\n']) ∧
          '\n' ∉ current := by
    induction before with
    | nil =>
        exact ⟨[], [], rfl, Or.inl rfl, by simp⟩
    | cons c before inductionHypothesis =>
        obtain ⟨earlier, current, rfl, ends, unbroken⟩ := inductionHypothesis
        rcases ends with rfl | ⟨lines, rfl⟩
        · by_cases isBreak : c = '\n'
          · exact ⟨[c], current, rfl, Or.inr ⟨[], by simp [isBreak]⟩, unbroken⟩
          · exact ⟨[], c :: current, rfl, Or.inl rfl, by simp [unbroken, Ne.symm isBreak]⟩
        · exact ⟨c :: (lines ++ ['\n']), current, rfl, Or.inr ⟨c :: lines, rfl⟩, unbroken⟩
  obtain ⟨earlier, current, rfl, ends, unbroken⟩ := exists_lines
  exact ⟨earlier, current, rfl, rfl, ends, unbroken⟩

/-- The byte position of the last line feed. -/
def lastLineFeed? : List Char → Option Nat
  | [] => none
  | c :: text =>
    match lastLineFeed? text with
    | some position => some (c.utf8Size + position)
    | none => if c = '\n' then some 0 else none

/-- The location of a byte position, found by cutting the text at byte positions. There is none if
the text cannot be cut there. -/
def locateBytes? (text : List Char) (offset : Nat) : Option Location := do
  let (before, _) ← splitBytes? (min offset (byteLength text)) text
  match lastLineFeed? before with
  | none => return ⟨before.count '\n', before.length⟩
  | some position =>
    let (_, current) ← splitBytes? (position + 1) before
    return ⟨before.count '\n', current.length⟩

theorem lastLineFeed?_eq_none
    {text : List Char}
    (unbroken : '\n' ∉ text) :
    lastLineFeed? text = none := by
  induction text with
  | nil =>
      rfl
  | cons c text inductionHypothesis =>
      rw [List.mem_cons, not_or] at unbroken
      rw [lastLineFeed?, inductionHypothesis unbroken.2]
      exact if_neg (Ne.symm unbroken.1)

theorem lastLineFeed?_append
    {current : List Char} (lines : List Char)
    (unbroken : '\n' ∉ current) :
    lastLineFeed? (lines ++ '\n' :: current) = some (byteLength lines) := by
  induction lines with
  | nil =>
      rw [List.nil_append, lastLineFeed?, lastLineFeed?_eq_none unbroken]
      rfl
  | cons c lines inductionHypothesis =>
      rw [List.cons_append, lastLineFeed?, inductionHypothesis]
      rfl

namespace IsCutAt

variable {text earlier current place : List Char} {offset : Nat}

theorem count_eq
    (isCut : IsCutAt text offset earlier current place) :
    (earlier ++ current).count '\n' = earlier.count '\n' := by
  rw [List.count_append, List.count_eq_zero.mpr isCut.current_unbroken, Nat.add_zero]

theorem locateBytes?_eq
    (isCut : IsCutAt text offset earlier current place) :
    locateBytes? text offset = some ⟨earlier.count '\n', current.length⟩ := by
  have count := isCut.count_eq
  obtain ⟨rfl, rfl, ends, unbroken⟩ := isCut
  have notBeyond :
      min (byteLength (earlier ++ current)) (byteLength (earlier ++ current ++ place)) =
        byteLength (earlier ++ current) :=
    Nat.min_eq_left (by simp)
  rw [locateBytes?, notBeyond, splitBytes?_append]
  dsimp only [Option.bind_eq_bind, Option.bind_some]
  rw [count]
  rcases ends with rfl | ⟨lines, rfl⟩
  · rw [List.nil_append, lastLineFeed?_eq_none unbroken]
    rfl
  · rw [List.append_assoc, List.singleton_append, lastLineFeed?_append lines unbroken]
    have afterBreak : byteLength lines + 1 = byteLength (lines ++ ['\n']) := by
      rw [byteLength_append]
      rfl
    have cut := splitBytes?_append (lines ++ ['\n']) current
    rw [List.append_assoc, List.singleton_append] at cut
    dsimp only
    rw [afterBreak, cut]
    rfl

theorem locate_eq
    {source : String}
    (isCut : IsCutAt source.toList offset earlier current place) :
    locate source offset = ⟨earlier.count '\n', current.length⟩ := by
  have count := isCut.count_eq
  obtain ⟨sourceEq, rfl, ends, unbroken⟩ := isCut
  have column :
      (earlier ++ current).reverse.takeWhile (· ≠ '\n') = current.reverse := by
    rw [List.reverse_append]
    refine takeWhile_run_append ?_ ?_
    · intro c member
      have different : c ≠ '\n' := by
        rintro rfl
        exact unbroken (List.mem_reverse.mp member)
      simpa using different
    · rcases ends with rfl | ⟨lines, rfl⟩ <;> simp
  rw [locate, sourceEq, takeBytes_append, Location.after, count, column, List.length_reverse]

end IsCutAt

/-! ## Excerpts -/

/-- The line of a text with the given number, as line feeds separate them, without the carriage
return that stands before a line feed. -/
def separatedLine (number : Nat) (text : List Char) : List Char :=
  let lines := text.splitOn '\n'
  let line := lines.getD number []
  if number + 1 < lines.length ∧ line.getLast? = some '\r' then line.dropLast else line

/-- The first line is the text up to a line feed, and the lines after it are those of the rest. -/
theorem splitOn_lineFeed (text : List Char) :
    text.splitOn '\n' =
      text.takeWhile (· ≠ '\n') ::
        match text.dropWhile (· ≠ '\n') with
        | [] => []
        | _ :: rest => rest.splitOn '\n' := by
  have parts := List.takeWhile_append_dropWhile (p := (· ≠ '\n')) (l := text)
  have unbroken : '\n' ∉ text.takeWhile (· ≠ '\n') := by
    intro member
    simpa using List.mem_takeWhile_imp member
  cases restEq : text.dropWhile (· ≠ '\n') with
  | nil =>
      rw [restEq, List.append_nil] at parts
      rw [parts] at unbroken ⊢
      exact List.splitOn_eq_singleton unbroken
  | cons c rest =>
      have isBreak : c = '\n' := by
        have first : c ∈ (text.dropWhile (· ≠ '\n')).head? := by
          rw [restEq]
          rfl
        simpa using eq_false_of_mem_head?_dropWhile first
      rw [restEq, isBreak] at parts
      have separated := List.splitOn_append_cons_self_of_not_mem unbroken rest
      rwa [parts] at separated

theorem lineAt_eq_separatedLine (number : Nat) (text : List Char) :
    lineAt number text = separatedLine number text := by
  induction number generalizing text with
  | zero =>
      have parts := congrArg List.length
        (List.takeWhile_append_dropWhile (p := (· ≠ '\n')) (l := text))
      rw [List.length_append] at parts
      have hasNext :
          0 + 1 < (text.splitOn '\n').length ↔
            (text.takeWhile (· ≠ '\n')).length < text.length := by
        rw [splitOn_lineFeed, ← parts]
        cases text.dropWhile (· ≠ '\n') with
        | nil =>
            simp
        | cons c rest =>
            simp [List.length_pos_iff, List.splitOn_ne_nil]
      have first : (text.splitOn '\n').getD 0 [] = text.takeWhile (· ≠ '\n') := by
        rw [splitOn_lineFeed]
        rfl
      simp only [lineAt, firstLine, separatedLine, hasNext, first]
  | succ number inductionHypothesis =>
      rw [lineAt, inductionHypothesis, separatedLine, separatedLine, splitOn_lineFeed text]
      cases text.dropWhile (· ≠ '\n') with
      | nil =>
          cases number <;> simp
      | cons c rest =>
          simp

theorem lineAt_append
    {earlier : List Char} (rest : List Char)
    (earlierEnds : earlier = [] ∨ ∃ lines, earlier = lines ++ ['\n']) :
    lineAt (earlier.count '\n') (earlier ++ rest) = firstLine rest := by
  rcases earlierEnds with rfl | ⟨lines, rfl⟩
  · rfl
  · induction lines with
    | nil =>
        simp [lineAt]
    | cons c lines inductionHypothesis =>
        by_cases isBreak : c = '\n'
        · subst isBreak
          rw [List.cons_append, List.count_cons_self, List.cons_append, lineAt]
          simpa using inductionHypothesis
        · have oneMore : (lines ++ ['\n']).count '\n' = lines.count '\n' + 1 := by
            simp
          rw [oneMore, lineAt] at inductionHypothesis
          rw [List.cons_append, List.count_cons_of_ne isBreak, oneMore, List.cons_append, lineAt]
          simpa [isBreak] using inductionHypothesis

/-- The line that a place is in goes on up to the place, and beyond if the place is not the end of
the text. -/
theorem firstLine_append
    {current place : List Char}
    (unbroken : '\n' ∉ current)
    (notBlank : ∀ c ∈ place.head?, isBlank c = false) :
    current.length ≤ (firstLine (current ++ place)).length ∧
      (place ≠ [] → (firstLine (current ++ place))[current.length]? = place.head?) := by
  have allInside : ∀ c ∈ current, decide (c ≠ '\n') = true := by
    intro c member
    have different : c ≠ '\n' := by
      rintro rfl
      exact unbroken member
    simpa using different
  have line :
      (current ++ place).takeWhile (· ≠ '\n') = current ++ place.takeWhile (· ≠ '\n') :=
    List.takeWhile_append_of_pos allInside
  rw [firstLine, line]
  cases place with
  | nil =>
      simp
  | cons c rest =>
      have notBlank := notBlank c rfl
      have notBreak : c ≠ '\n' := by
        rintro rfl
        cases notBlank
      have notReturn : c ≠ '\r' := by
        rintro rfl
        cases notBlank
      rw [List.takeWhile_cons_of_pos (by simpa using notBreak)]
      generalize rest.takeWhile (· ≠ '\n') = others
      split
      · next endsInReturn =>
          cases others with
          | nil =>
              simp [notReturn] at endsInReturn
          | cons d others =>
              simp
      · simp

theorem IsCutAt.lineAt_eq
    {text earlier current place : List Char} {offset : Nat}
    (isCut : IsCutAt text offset earlier current place) :
    lineAt (earlier.count '\n') text = firstLine (current ++ place) := by
  rw [isCut.text_eq, List.append_assoc]
  exact lineAt_append _ isCut.earlier_ends

end MessagePattern.Report
