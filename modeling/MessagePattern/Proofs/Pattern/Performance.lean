import MessagePattern.Proofs.Pattern.Machine

/-!
# Programs that do what a reading says

What a program does is put as a reading of what is left of the text, whose length stays the same
while the cursor moves. The rules put programs together as readings are put together.
-/

namespace MessagePattern

/-- The cursor in a text of the given number of bytes, in front of what is left of it. -/
def Pattern.Cursor.before (total : Nat) (rest : List Char) : Cursor :=
  ⟨total - byteLength rest, rest⟩

/-- What comes of a reading, with the cursor where the reading stopped. -/
def Reading.outcome {α : Type} (total : Nat) :
    Reading α → Except PatternError α × Pattern.Cursor
  | .done value rest => (.ok value, .before total rest)
  | .failed cause place rest => (.error ⟨cause, total - byteLength place⟩, .before total rest)

namespace Reading

variable {α β γ : Type}

@[simp] theorem map_self (reading : Reading α) :
    (reading.map fun value => value) = reading := by
  cases reading <;> rfl

theorem map_andThen
    (f : β → γ) (first : Reading α) (next : α → List Char → Reading β) :
    (first.andThen next).map f = first.andThen fun value rest => (next value rest).map f := by
  cases first <;> rfl

theorem andThen_map
    (f : α → β) (first : Reading α) (next : β → List Char → Reading γ) :
    (first.map f).andThen next = first.andThen fun value rest => next (f value) rest := by
  cases first <;> rfl

theorem andThen_andThen
    (first : Reading α) (second : α → List Char → Reading β) (third : β → List Char → Reading γ) :
    (first.andThen second).andThen third =
      first.andThen fun value rest => (second value rest).andThen third := by
  cases first <;> rfl

end Reading

namespace Pattern.Machine

/-- Whether a program does what a reading says, on what is left of a text of `total` bytes. -/
def Performs {α : Type} (total : Nat) (machine : Machine α) (input : List Char)
    (reading : Reading α) : Prop :=
  reading.rest <:+ input ∧
    (byteLength input ≤ total →
      machine.run.run (.before total input) = some (reading.outcome total))

namespace Performs

variable {α β : Type} {total : Nat} {machine : Machine α} {next : α → Machine β}
  {input : List Char}

theorem pure (value : α) :
    Performs total (Pure.pure value) input (.done value input) :=
  ⟨List.suffix_rfl, fun _ => rfl⟩

/-- A program goes on where the one before it stopped. -/
theorem bind
    {first : Reading α} {readNext : α → List Char → Reading β}
    (performs : Performs total machine input first)
    (performsNext : ∀ value rest, first = .done value rest →
      Performs total (next value) rest (readNext value rest)) :
    Performs total (machine >>= next) input (first.andThen readNext) := by
  obtain ⟨isEnd, run⟩ := performs
  cases first with
  | failed cause place rest =>
      refine ⟨isEnd, fun fits => ?_⟩
      have runs := run fits
      simp only [ExceptT.run_bind, StateT.run_bind, runs]
      rfl
  | done value rest =>
      obtain ⟨restEnd, runNext⟩ := performsNext value rest rfl
      have fitsRest := byteLength_le_of_suffix isEnd
      refine ⟨restEnd.trans isEnd, fun fits => ?_⟩
      simp only [ExceptT.run_bind, StateT.run_bind, run fits]
      exact runNext (Nat.le_trans fitsRest fits)

theorem step
    {value : α} {rest : List Char} {reading : Reading β}
    (performs : Performs total machine input (.done value rest))
    (performsNext : Performs total (next value) rest reading) :
    Performs total (machine >>= next) input reading := by
  have both :
      Performs total (machine >>= next) input
        ((Reading.done value rest).andThen fun _ _ => reading) := by
    refine performs.bind ?_
    rintro _ _ ⟨⟩
    exact performsNext
  exact both

theorem map
    {reading : Reading α} (f : α → β)
    (performs : Performs total machine input reading) :
    Performs total (machine >>= fun value => Pure.pure (f value)) input (reading.map f) := by
  have both :
      Performs total (machine >>= fun value => Pure.pure (f value)) input
        (reading.andThen fun value rest => .done (f value) rest) :=
    performs.bind fun value rest _ => .pure (f value)
  cases reading <;> exact both

/-- What follows a failure is not run. -/
theorem failed
    {cause : Cause} {place rest : List Char}
    (performs : Performs total machine input (.failed cause place rest)) :
    Performs total (machine >>= next) input (.failed cause place rest) := by
  have both :
      Performs total (machine >>= next) input
        ((Reading.failed cause place rest).andThen fun _ rest => .failed cause place rest) :=
    performs.bind nofun
  exact both

/-- A program goes on with what it made of the value that was read. -/
theorem bindMap
    {γ : Type} {first : Reading γ} {make : γ → α} {readNext : γ → List Char → Reading β}
    (performs : Performs total machine input (first.map make))
    (performsNext : ∀ value rest, first = .done value rest →
      Performs total (next (make value)) rest (readNext value rest)) :
    Performs total (machine >>= next) input (first.andThen readNext) := by
  cases first with
  | done value rest =>
      exact performs.step (performsNext value rest rfl)
  | failed cause place rest =>
      exact performs.failed

end Performs

/-! ## Moves -/

section Moves

variable {α : Type} {total : Nat}

theorem peek_performs (input : List Char) :
    Performs total peek input (.done input.head? input) :=
  ⟨List.suffix_rfl, fun _ => rfl⟩

theorem peekSecond_performs (input : List Char) :
    Performs total peekSecond input (.done input.tail.head? input) :=
  ⟨List.suffix_rfl, fun _ => rfl⟩

theorem position_performs (input : List Char) :
    Performs total position input (.done (total - byteLength input) input) :=
  ⟨List.suffix_rfl, fun _ => rfl⟩

theorem get_performs (input : List Char) :
    Performs total get input (.done (.before total input) input) :=
  ⟨List.suffix_rfl, fun _ => rfl⟩

theorem fail_performs (cause : Cause) (input : List Char) :
    Performs total (fail cause : Machine α) input (.stop cause input) :=
  ⟨List.suffix_rfl, fun _ => rfl⟩

/-- A failure may be about a position that was remembered. -/
theorem throw_performs (cause : Cause) (place input : List Char) :
    Performs total (throw ⟨cause, total - byteLength place⟩ : Machine α) input
      (.failed cause place input) :=
  ⟨List.suffix_rfl, fun _ => rfl⟩

theorem widthWhile_performs (isInside : Char → Bool) (input : List Char) :
    Performs total (widthWhile isInside) input
      (.done (byteLength (input.takeWhile isInside)) input) :=
  ⟨List.suffix_rfl, fun _ => rfl⟩

theorem slice_performs (front rest : List Char) :
    Performs total (slice (byteLength front)) (front ++ rest) (.done front (front ++ rest)) := by
  refine ⟨List.suffix_rfl, fun _ => ?_⟩
  change (splitBytes? (byteLength front) (front ++ rest)).map _ = _
  rw [splitBytes?_append]
  rfl

theorem truncate_performs (front rest input : List Char) :
    Performs total (truncate (front ++ rest) (byteLength front)) input (.done front input) := by
  refine ⟨List.suffix_rfl, fun _ => ?_⟩
  change (splitBytes? (byteLength front) (front ++ rest)).map _ = _
  rw [splitBytes?_append]
  rfl

theorem advance_performs (front rest : List Char) :
    Performs total (advance (byteLength front)) (front ++ rest) (.done () rest) := by
  refine ⟨List.suffix_append front rest, fun fits => ?_⟩
  rw [byteLength_append] at fits
  have moved :
      total - byteLength (front ++ rest) + byteLength front = total - byteLength rest := by
    rw [byteLength_append]
    omega
  change (splitBytes? (byteLength front) (front ++ rest)).map _ = _
  rw [splitBytes?_append]
  simp only [Option.map_some, Cursor.before, Reading.outcome, moved]

theorem advanceChar_performs (c : Char) (rest : List Char) :
    Performs total (advance c.utf8Size) (c :: rest) (.done () rest) :=
  advance_performs [c] rest

theorem sliceWhile_performs (isInside : Char → Bool) (input : List Char) :
    Performs total (slice (byteLength (input.takeWhile isInside))) input
      (.done (input.takeWhile isInside) input) := by
  have slices := @slice_performs total (input.takeWhile isInside) (input.dropWhile isInside)
  rwa [List.takeWhile_append_dropWhile] at slices

theorem advanceWhile_performs (isInside : Char → Bool) (input : List Char) :
    Performs total (advance (byteLength (input.takeWhile isInside))) input
      (.done () (input.dropWhile isInside)) := by
  have advances := @advance_performs total (input.takeWhile isInside) (input.dropWhile isInside)
  rwa [List.takeWhile_append_dropWhile] at advances

theorem takeRun_performs (isInside : Char → Bool) (input : List Char) :
    Performs total (takeRun isInside) input
      (.done (input.takeWhile isInside) (input.dropWhile isInside)) :=
  .step (widthWhile_performs isInside input) <|
    .step (sliceWhile_performs isInside input) <|
      .step (advanceWhile_performs isInside input) (.pure _)

theorem skipBlanks_performs (input : List Char) :
    Performs total skipBlanks input (.done () (MessagePattern.skipBlanks input)) :=
  .step (widthWhile_performs isBlank input) (advanceWhile_performs isBlank input)

theorem require_performs (c : Char) (what : String) (input : List Char) :
    Performs total (require c what) input (expect c what input) := by
  refine .step (peek_performs input) ?_
  cases input with
  | nil =>
      exact fail_performs _ []
  | cons d rest =>
      dsimp only [List.head?_cons]
      rw [expect]
      split
      · exact advanceChar_performs d rest
      · exact fail_performs _ (d :: rest)

end Moves

end Pattern.Machine

end MessagePattern
