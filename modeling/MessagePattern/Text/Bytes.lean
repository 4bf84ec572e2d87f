/-!
Positions in text are counted in bytes of its UTF-8 form.
-/

namespace MessagePattern

/-- The number of bytes that the UTF-8 form of the text takes. -/
def byteLength : List Char → Nat
  | [] => 0
  | c :: text => c.utf8Size + byteLength text

@[simp] theorem byteLength_nil : byteLength [] = 0 := rfl

@[simp] theorem byteLength_cons (c : Char) (text : List Char) :
    byteLength (c :: text) = c.utf8Size + byteLength text := rfl

@[simp] theorem byteLength_append (left right : List Char) :
    byteLength (left ++ right) = byteLength left + byteLength right := by
  induction left with
  | nil =>
      simp
  | cons c left inductionHypothesis =>
      simp [inductionHypothesis, Nat.add_assoc]

/-- The longest part of the text, from its start, that fits into the given number of bytes. -/
def takeBytes : Nat → List Char → List Char
  | _, [] => []
  | room, c :: text =>
    if c.utf8Size ≤ room then c :: takeBytes (room - c.utf8Size) text else []

end MessagePattern
