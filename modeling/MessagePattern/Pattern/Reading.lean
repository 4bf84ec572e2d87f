import MessagePattern.Pattern.Error

/-!
The outcome of reading from the front of a text. A reader is a function from the unread text to a
`Reading`; a position in the text is named by what follows it.
-/

namespace MessagePattern

/-! ## Outcomes -/

/-- What a reader came to: a value and the text after it, or a cause, the place it is about and
the text at which the reader gave up. -/
inductive Reading (α : Type) where
  | done (value : α) (rest : List Char)
  | failed (cause : Cause) (place rest : List Char)
  deriving Repr, DecidableEq

namespace Reading

variable {α β : Type}

/-- The text left unread. -/
def rest : Reading α → List Char
  | done _ rest => rest
  | failed _ _ rest => rest

/-- Gives up where the reader stands, for a cause that is found there. -/
def stop (cause : Cause) (input : List Char) : Reading α :=
  failed cause input input

/-- Changes the value read. -/
def map (f : α → β) : Reading α → Reading β
  | done value rest => done (f value) rest
  | failed cause place rest => failed cause place rest

/-- Reads on with what follows. -/
def andThen (first : Reading α) (next : α → List Char → Reading β) : Reading β :=
  match first with
  | done value rest => next value rest
  | failed cause place rest => failed cause place rest

@[simp] theorem rest_done (value : α) (rest : List Char) :
    (done value rest).rest = rest := rfl

@[simp] theorem rest_failed (cause : Cause) (place rest : List Char) :
    (failed cause place rest : Reading α).rest = rest := rfl

@[simp] theorem rest_stop (cause : Cause) (input : List Char) :
    (stop cause input : Reading α).rest = input := rfl

@[simp] theorem rest_map (f : α → β) (reading : Reading α) :
    (reading.map f).rest = reading.rest := by
  cases reading <;> rfl

@[simp] theorem map_done (f : α → β) (value : α) (rest : List Char) :
    (done value rest).map f = done (f value) rest := rfl

@[simp] theorem map_failed (f : α → β) (cause : Cause) (place rest : List Char) :
    (failed cause place rest).map f = failed cause place rest := rfl

@[simp] theorem map_map {γ : Type} (f : α → β) (g : β → γ) (reading : Reading α) :
    (reading.map f).map g = reading.map fun value => g (f value) := by
  cases reading <;> rfl

theorem map_eq_done_iff
    {f : α → β} {reading : Reading α} {value : β} {rest : List Char} :
    reading.map f = done value rest ↔
      ∃ before, reading = done before rest ∧ f before = value := by
  cases reading with
  | done before middle =>
      simp only [map_done, done.injEq]
      constructor
      · rintro ⟨rfl, rfl⟩
        exact ⟨before, ⟨rfl, rfl⟩, rfl⟩
      · rintro ⟨_, ⟨rfl, rfl⟩, rfl⟩
        exact ⟨rfl, rfl⟩
  | failed cause place middle =>
      simp

@[simp] theorem andThen_done (value : α) (rest : List Char) (next : α → List Char → Reading β) :
    (done value rest).andThen next = next value rest := rfl

@[simp] theorem andThen_failed (cause : Cause) (place rest : List Char)
    (next : α → List Char → Reading β) :
    (failed cause place rest).andThen next = failed cause place rest := rfl

theorem andThen_eq_done_iff
    {first : Reading α} {next : α → List Char → Reading β} {value : β} {rest : List Char} :
    first.andThen next = done value rest ↔
      ∃ before middle, first = done before middle ∧ next before middle = done value rest := by
  cases first with
  | done before middle =>
      constructor
      · intro found
        exact ⟨before, middle, rfl, found⟩
      · rintro ⟨_, _, equality, found⟩
        cases equality
        exact found
  | failed cause place middle =>
      simp [andThen]

/-- What follows a reading leaves no more than the reading did, if that holds of each value. -/
theorem rest_andThen_length_le
    (first : Reading α) (next : α → List Char → Reading β)
    (nextShrinks : ∀ value rest, (next value rest).rest.length ≤ rest.length) :
    (first.andThen next).rest.length ≤ first.rest.length := by
  cases first with
  | done value rest => exact nextShrinks value rest
  | failed cause place rest => exact Nat.le_refl _

end Reading

/-- Reads one required character. -/
def expect (c : Char) (what : String) : List Char → Reading Unit
  | [] => .stop .unexpectedEndOfInput []
  | d :: rest => if d = c then .done () rest else .stop (.expected what) (d :: rest)

theorem expect_rest_length_le (c : Char) (what : String) (input : List Char) :
    (expect c what input).rest.length ≤ input.length := by
  cases input with
  | nil => simp [expect]
  | cons d rest =>
      simp only [expect]
      split <;> simp

@[simp] theorem expect_cons (c : Char) (what : String) (rest : List Char) :
    expect c what (c :: rest) = .done () rest := by
  simp [expect]

/-- The required character is read. -/
theorem eq_cons_of_expect
    {c : Char} {what : String} {input rest : List Char}
    (found : expect c what input = .done () rest) :
    input = c :: rest := by
  cases input with
  | nil => simp [expect, Reading.stop] at found
  | cons d tail =>
      simp only [expect] at found
      split at found
      · next same =>
          injection found with _ equality
          rw [same, equality]
      · simp [Reading.stop] at found

/-! ## Readings of a given text -/

/-- A reading of the given text that leaves no more than there was. -/
abbrev ReadingOf (input : List Char) (α : Type) :=
  { reading : Reading α // reading.rest.length ≤ input.length }

namespace ReadingOf

variable {α β : Type} {input longer : List Char}

/-- Changes the value read. -/
def map (f : α → β) (reading : ReadingOf input α) : ReadingOf input β :=
  ⟨reading.val.map f, by simpa using reading.property⟩

/-- Regards a reading of the end of a text as one of the text. -/
def widen (reading : ReadingOf input α) (isEnd : input.length ≤ longer.length) :
    ReadingOf longer α :=
  ⟨reading.val, Nat.le_trans reading.property isEnd⟩

/-- Reads on with what follows, which is no longer than the text. -/
def andThen (first : ReadingOf input α)
    (next : (value : α) → (rest : List Char) → rest.length ≤ input.length → ReadingOf rest β) :
    ReadingOf input β :=
  match first with
  | ⟨.done value rest, isEnd⟩ => (next value rest isEnd).widen isEnd
  | ⟨.failed cause place rest, isEnd⟩ => ⟨.failed cause place rest, isEnd⟩

/-- Reads on after a reading that, if it succeeds, has read something. -/
def follow (first : ReadingOf input α)
    (readsSome : ∀ value rest, first.val = .done value rest → rest.length < input.length)
    (next : (value : α) → (rest : List Char) → rest.length < input.length → ReadingOf rest β) :
    ReadingOf input β :=
  match first, readsSome with
  | ⟨.done value rest, isEnd⟩, readsSome => (next value rest (readsSome value rest rfl)).widen isEnd
  | ⟨.failed cause place rest, isEnd⟩, _ => ⟨.failed cause place rest, isEnd⟩

@[simp] theorem val_map (f : α → β) (reading : ReadingOf input α) :
    (reading.map f).val = reading.val.map f := rfl

@[simp] theorem val_widen (reading : ReadingOf input α) (isEnd : input.length ≤ longer.length) :
    (reading.widen isEnd).val = reading.val := rfl

/-- Forgetting the bounds of the parts of a reading forgets that of the whole. -/
theorem val_andThen (first : ReadingOf input α)
    (next : (value : α) → (rest : List Char) → rest.length ≤ input.length → ReadingOf rest β)
    (plain : α → List Char → Reading β)
    (same : ∀ value rest isEnd, (next value rest isEnd).val = plain value rest) :
    (first.andThen next).val = first.val.andThen plain := by
  obtain ⟨reading, isEnd⟩ := first
  cases reading with
  | done value rest => exact same value rest isEnd
  | failed cause place rest => rfl

theorem val_follow (first : ReadingOf input α)
    (readsSome : ∀ value rest, first.val = .done value rest → rest.length < input.length)
    (next : (value : α) → (rest : List Char) → rest.length < input.length → ReadingOf rest β)
    (plain : α → List Char → Reading β)
    (same : ∀ value rest isShorter, (next value rest isShorter).val = plain value rest) :
    (first.follow readsSome next).val = first.val.andThen plain := by
  obtain ⟨reading, isEnd⟩ := first
  cases reading with
  | done value rest => exact same value rest (readsSome value rest rfl)
  | failed cause place rest => rfl

end ReadingOf

end MessagePattern
