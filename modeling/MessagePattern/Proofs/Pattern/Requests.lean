import MessagePattern.Proofs.Pattern.Refinement
import MessagePattern.Proofs.Pattern.Rejection

/-!
# Runs of requests

A cursor stays in the content that was loaded last, whatever it is asked for and whether or not the
readers succeed.
-/

namespace MessagePattern

/-- Whether a reading stops and fails within its text, and what it leaves if it succeeds. -/
def Reading.StaysWithin {α : Type} (input : List Char) (Leaves : List Char → Prop) :
    Reading α → Prop
  | .done _ rest => rest <:+ input ∧ Leaves rest
  | .failed _ place rest => rest <:+ place ∧ place <:+ input

namespace Reading

variable {α β : Type} {input : List Char} {Leaves : List Char → Prop} {reading : Reading α}

theorem IsTruthful.staysWithin
    {earlier : List Char} {Good : α → List Char → Prop}
    (truthful : reading.IsTruthful earlier input Good)
    (leaves : ∀ value rest, Good value rest → Leaves rest) :
    reading.StaysWithin input Leaves := by
  cases reading with
  | done value rest =>
      exact ⟨truthful.1, leaves value rest truthful.2⟩
  | failed cause place rest =>
      obtain ⟨isEnd, before, inputEq, _⟩ := truthful
      exact ⟨isEnd, before, inputEq.symm⟩

theorem StaysWithin.rest_suffix
    (stays : reading.StaysWithin input Leaves) :
    reading.rest <:+ input := by
  cases reading with
  | done value rest =>
      exact stays.1
  | failed cause place rest =>
      exact stays.1.trans stays.2

end Reading

namespace Pattern

/-- What comes of a request that a program answers. -/
def Machine.answer {α : Type} (wrap : α → Answer) (machine : (rounds : Nat) → Machine α)
    (cursor : Cursor) : Option (Answer × Cursor) :=
  ((machine (roundsFor cursor.rest)).run.run cursor).map fun (result, next) =>
    (.ofResult wrap result, next)

/-- A step of a cursor as the machine takes it. -/
def Cursor.stepBytes? (cursor : Cursor) : Request → Option (Answer × Cursor)
  | .reset => some (.ready, .empty)
  | .load content => some (.ready, .start content)
  | .whole => Machine.answer .message .whole cursor
  | .message context => Machine.answer .message (.message context []) cursor
  | .text context => Machine.answer (.text <| .ofList ·) (.literal context []) cursor
  | .placeholder => Machine.answer .placeholder .placeholder cursor
  | .branches context => Machine.answer .branches (.branches context []) cursor
  | .style => Machine.answer (.text <| .ofList ·) .style cursor

namespace Cursor

/-- Whether a cursor stands in a text, in front of exactly what follows its position there. -/
def IsIn (cursor : Cursor) (content : String) : Prop :=
  ∃ consumed, splitBytes? cursor.offset content.toList = some (consumed, cursor.rest)

theorem isIn_empty : Cursor.empty.IsIn "" :=
  ⟨[], rfl⟩

theorem isIn_start (content : String) : (start content).IsIn content :=
  ⟨[], splitBytes?_append [] content.toList⟩

variable {cursor : Cursor} {content : String} {rest : List Char}

theorem IsIn.length_eq
    (isIn : cursor.IsIn content) :
    cursor.offset + byteLength cursor.rest = content.utf8ByteSize := by
  obtain ⟨consumed, cut⟩ := isIn
  obtain ⟨contentEq, offsetEq⟩ := splitBytes?_eq_some_iff.mp cut
  rw [← byteLength_toList, contentEq, byteLength_append, offsetEq]

theorem offset_le_moveTo :
    cursor.offset ≤ (cursor.moveTo rest).offset :=
  Nat.le_add_right _ _

theorem IsIn.moveTo
    (isIn : cursor.IsIn content)
    (isEnd : rest <:+ cursor.rest) :
    (cursor.moveTo rest).IsIn content := by
  obtain ⟨consumed, cut⟩ := isIn
  obtain ⟨contentEq, offsetEq⟩ := splitBytes?_eq_some_iff.mp cut
  obtain ⟨passed, restEq⟩ := isEnd
  refine ⟨consumed ++ passed, splitBytes?_eq_some_iff.mpr ⟨?_, ?_⟩⟩
  · rw [contentEq, ← restEq, Cursor.moveTo, List.append_assoc]
  · rw [Cursor.moveTo, offsetOf, byteLength_append, offsetEq, ← restEq, byteLength_append,
      Nat.add_sub_cancel]

/-- The machine does what the reader says, from wherever the cursor stands. -/
theorem machineAnswer_eq
    {α : Type} {machine : (rounds : Nat) → Machine α} {reader : List Char → Reading α}
    {Leaves : List Char → Prop}
    (wrap : α → Answer)
    (performs : ∀ total,
      Machine.Performs total (machine (Machine.roundsFor cursor.rest)) cursor.rest
        (reader cursor.rest))
    (stays : (reader cursor.rest).StaysWithin cursor.rest Leaves) :
    Machine.answer wrap machine cursor = some (cursor.answer wrap reader) := by
  obtain ⟨offset, input⟩ := cursor
  have before : Cursor.before (offset + byteLength input) input = ⟨offset, input⟩ := by
    rw [Cursor.before, Nat.add_sub_cancel]
  have positionOf :
      ∀ {place}, place <:+ input →
        offset + byteLength input - byteLength place =
          Cursor.offsetOf ⟨offset, input⟩ place := by
    intro place isEnd
    exact Nat.add_sub_assoc (byteLength_le_of_suffix isEnd) offset
  have run := (performs (offset + byteLength input)).2 (Nat.le_add_left _ _)
  rw [before] at run
  rw [Machine.answer, run, Cursor.answer, Cursor.read]
  dsimp only at stays ⊢
  cases found : reader input with
  | done value rest =>
      rw [found] at stays
      simp only [Option.map_some, Reading.outcome, Cursor.before, Cursor.moveTo,
        positionOf stays.1]
  | failed cause place rest =>
      rw [found] at stays
      simp only [Option.map_some, Reading.outcome, Cursor.before, Cursor.moveTo,
        positionOf stays.2, positionOf (stays.1.trans stays.2)]

end Cursor

/-! ## What the readers leave -/

/-- What is left behind a text that a request has read, where it begins and ends. -/
def Request.Leaves : Request → (before after : List Char) → Prop
  | .reset, _, _ | .load _, _, _ => True
  | .whole, _, after => after = []
  | .message _, _, after | .style, _, after => ∀ c ∈ after.head?, c = '}'
  | .text context, _, after => ∀ c ∈ after.head?, context.isSyntax c = true
  | .placeholder, before, after => ∃ inside, before = '{' :: inside ++ '}' :: after
  | .branches _, _, after => after.head? = some '}'

section Readers

variable (input : List Char)

theorem readWhole_staysWithin :
    (readWhole input).StaysWithin input (Request.whole.Leaves input) :=
  (readWhole_isTruthful input []).staysWithin fun _ _ isEmpty => isEmpty

theorem readMessage_staysWithin (context : Context) :
    (readMessage context input).StaysWithin input ((Request.message context).Leaves input) :=
  (readers_truthful.1 context input []).staysWithin fun _ _ stops => stops

theorem readText_staysWithin (context : Context) :
    (readText context none input).StaysWithin input ((Request.text context).Leaves input) :=
  (readText_isTruthful context none input (by simp) []).staysWithin fun _ _ stops => stops

theorem readStyle_staysWithin :
    (readStyle input).StaysWithin input (Request.style.Leaves input) :=
  (readStyle_isTruthful input []).staysWithin fun _ _ stops => stops

theorem readBranches_staysWithin (context : Context) :
    (readBranches context input).StaysWithin input ((Request.branches context).Leaves input) := by
  have truthful :
      (readBranches context input).IsTruthful [] input fun _ rest => rest.head? = some '}' :=
    .ofSuffix
      (fun earlier => readers_truthful.2.2 context [] (skipBlanks input) earlier (by simp)
        fun _ => not_blank_of_mem_head?_skipBlanks)
      (skipBlanks_suffix input)
  exact truthful.staysWithin fun _ _ stops => stops

theorem readPlaceholder_staysWithin :
    (readPlaceholder input).StaysWithin input (Request.placeholder.Leaves input) := by
  cases input with
  | nil =>
      exact ⟨List.suffix_rfl, List.suffix_rfl⟩
  | cons c tail =>
      by_cases isOpening : c = '{'
      · subst isOpening
        rw [readPlaceholder, expect_cons]
        have truthful :
            (readPlaceholderBody tail).IsTruthful [] ('{' :: tail)
              fun _ rest => '}' :: rest <:+ tail :=
          .ofSuffix (readers_truthful.2.1 tail) (List.suffix_cons '{' tail)
        refine truthful.staysWithin fun _ rest ended => ?_
        obtain ⟨inside, rfl⟩ := ended
        exact ⟨inside, rfl⟩
      · rw [readPlaceholder, expect, if_neg isOpening]
        exact ⟨List.suffix_rfl, List.suffix_rfl⟩

end Readers

/-- The content that is the last to have been loaded after a request. -/
def Request.contentAfter (content : String) : Request → String
  | .reset => ""
  | .load loaded => loaded
  | _ => content

/-- Whether a request puts the cursor at the start of a content. -/
def Request.isLoading : Request → Bool
  | .reset | .load _ => true
  | _ => false

def Answer.isError : Answer → Bool
  | .error _ => true
  | _ => false

/-- What holds of a step that a cursor takes in a content. -/
structure Request.Serves (request : Request) (content : String) (cursor : Cursor) (answer : Answer)
    (next : Cursor) : Prop where
  bytewise : cursor.stepBytes? request = some (answer, next)
  isIn : next.IsIn (request.contentAfter content)
  length_eq : next.offset + byteLength next.rest = (request.contentAfter content).utf8ByteSize
  offset_le : request.isLoading = false → cursor.offset ≤ next.offset
  leaves : answer.isError = false → request.Leaves cursor.rest next.rest

section Steps

variable {content : String} {cursor : Cursor}

/-- A step that a reader takes, whose program does what the reader says. -/
theorem serves_of_reader
    {α : Type} {request : Request} {machine : (rounds : Nat) → Machine α}
    {reader : List Char → Reading α} {wrap : α → Answer}
    (isIn : cursor.IsIn content)
    (keepsContent : request.contentAfter content = content)
    (bytewise : cursor.stepBytes? request = Machine.answer wrap machine cursor)
    (performs : ∀ total,
      Machine.Performs total (machine (Machine.roundsFor cursor.rest)) cursor.rest
        (reader cursor.rest))
    (stays : (reader cursor.rest).StaysWithin cursor.rest (request.Leaves cursor.rest)) :
    request.Serves content cursor (cursor.answer wrap reader).1 (cursor.answer wrap reader).2 := by
  have nextEq : (cursor.answer wrap reader).2 = cursor.moveTo (reader cursor.rest).rest := by
    rw [Cursor.answer, Cursor.read]
    cases reader cursor.rest <;> rfl
  have nextIsIn : (cursor.answer wrap reader).2.IsIn (request.contentAfter content) := by
    rw [nextEq, keepsContent]
    exact isIn.moveTo stays.rest_suffix
  refine ⟨?_, nextIsIn, nextIsIn.length_eq, fun _ => ?_, fun succeeds => ?_⟩
  · rw [bytewise, Cursor.machineAnswer_eq wrap performs stays]
  · rw [nextEq]
    exact Cursor.offset_le_moveTo
  · rw [nextEq]
    rw [Cursor.answer, Cursor.read] at succeeds
    cases found : reader cursor.rest with
    | done value rest =>
        rw [found] at stays
        exact stays.2
    | failed cause place rest =>
        rw [found] at succeeds
        cases succeeds

theorem step_serves
    (isIn : cursor.IsIn content) (request : Request) :
    request.Serves content cursor (cursor.step request).1 (cursor.step request).2 := by
  cases request with
  | reset =>
      exact ⟨rfl, Cursor.isIn_empty, Cursor.isIn_empty.length_eq, nofun, fun _ => trivial⟩
  | load loaded =>
      have isIn := Cursor.isIn_start loaded
      exact ⟨rfl, isIn, isIn.length_eq, nofun, fun _ => trivial⟩
  | whole =>
      exact serves_of_reader isIn rfl rfl (Machine.whole_performs · _) (readWhole_staysWithin _)
  | message context =>
      exact serves_of_reader isIn rfl rfl (Machine.message_performs · _ context)
        (readMessage_staysWithin _ context)
  | text context =>
      exact serves_of_reader isIn rfl rfl (Machine.text_performs · _ context)
        (readText_staysWithin _ context)
  | placeholder =>
      exact serves_of_reader isIn rfl rfl (Machine.placeholder_performs · _)
        (readPlaceholder_staysWithin _)
  | branches context =>
      exact serves_of_reader isIn rfl rfl (Machine.branches_performs · _ context)
        (readBranches_staysWithin _ context)
  | style =>
      exact serves_of_reader isIn rfl rfl
        (fun _ => Machine.style_performs (Machine.length_lt_roundsFor _)) (readStyle_staysWithin _)

end Steps

/-- The cursor after requests, each of which is answered where the one before it stopped. -/
def Cursor.stepAll (cursor : Cursor) (requests : List Request) : Cursor :=
  requests.foldl (fun cursor request => (cursor.step request).2) cursor

/-- The cursor after requests that the machine answers. -/
def Cursor.stepAllBytes? (cursor : Cursor) : List Request → Option Cursor
  | [] => some cursor
  | request :: requests => do
    let (_, next) ← cursor.stepBytes? request
    next.stepAllBytes? requests

/-- The content that is the last to have been loaded after requests. -/
def contentAfter (requests : List Request) : String :=
  requests.foldl Request.contentAfter ""

theorem stepAll_isIn
    {content : String} {cursor : Cursor}
    (isIn : cursor.IsIn content) (requests : List Request) :
    cursor.stepAllBytes? requests = some (cursor.stepAll requests) ∧
      (cursor.stepAll requests).IsIn (requests.foldl Request.contentAfter content) := by
  induction requests generalizing content cursor with
  | nil =>
      exact ⟨rfl, isIn⟩
  | cons request requests inductionHypothesis =>
      have serves := step_serves isIn request
      obtain ⟨bytewise, lastIsIn⟩ := inductionHypothesis serves.isIn
      refine ⟨?_, lastIsIn⟩
      rw [Cursor.stepAllBytes?, serves.bytewise]
      exact bytewise

/-- Whatever a cursor was asked for before, it stands in the content that was loaded last, and a
further request is served there. -/
theorem serves_after_requests (requests : List Request) :
    Cursor.empty.stepAllBytes? requests = some (Cursor.empty.stepAll requests) ∧
      (Cursor.empty.stepAll requests).IsIn (contentAfter requests) ∧
      ∀ request : Request,
        request.Serves (contentAfter requests) (Cursor.empty.stepAll requests)
          ((Cursor.empty.stepAll requests).step request).1
          ((Cursor.empty.stepAll requests).step request).2 := by
  obtain ⟨bytewise, isIn⟩ := stepAll_isIn Cursor.isIn_empty requests
  exact ⟨bytewise, isIn, step_serves isIn⟩

-- The style begins at the character that stopped the message.
example :
    Cursor.empty.stepAll [.load "a \x7b☃! ½\x7d b", .message .plain, .style] =
      ⟨10, ['}', ' ', 'b']⟩ := by
  with_unfolding_all rfl

end Pattern

end MessagePattern
