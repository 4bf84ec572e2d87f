import MessagePattern.Layout.Fragment
import MessagePattern.Message.Basic
import MessagePattern.Text.Blank

/-!
Quoting: how text and styles are written so that none of their characters is taken for syntax.

Each apostrophe is doubled. In text, a run of syntax characters is put between apostrophes; runs
that are separated by apostrophes alone form one run, since a closing apostrophe would merge with
the doubled ones after it.
-/

namespace MessagePattern.Layout

/-! ## Pieces of text -/

/-- A part of a text: one that is written as it is but for its apostrophes, or one that is also
put between apostrophes. -/
inductive Piece where
  | plain (chars : List Char)
  | quoted (chars : List Char)
  deriving DecidableEq, Repr

/-- Puts a syntax character before pieces, into the quoted run at their front if only apostrophes
are between. -/
def consSyntaxChar (c : Char) : List Piece → List Piece
  | .quoted run :: pieces => .quoted (c :: run) :: pieces
  | .plain chars :: .quoted run :: pieces =>
    if chars.all (· == '\'') then .quoted (c :: chars ++ run) :: pieces
    else .quoted [c] :: .plain chars :: .quoted run :: pieces
  | pieces => .quoted [c] :: pieces

/-- Puts a character that is not syntax before pieces. -/
def consPlainChar (c : Char) : List Piece → List Piece
  | .plain chars :: pieces => .plain (c :: chars) :: pieces
  | pieces => .plain [c] :: pieces

/-- The pieces of a text, whose quoted runs begin and end with a syntax character. -/
def pieces (context : Context) : List Char → List Piece
  | [] => []
  | c :: text =>
    if context.isSyntax c then consSyntaxChar c (pieces context text)
    else consPlainChar c (pieces context text)

/-- Doubles each apostrophe. -/
def doubleApostrophes (text : List Char) : List Char :=
  text.flatMap fun c => if c = '\'' then ['\'', '\''] else [c]

@[simp] theorem doubleApostrophes_nil :
    doubleApostrophes [] = [] := rfl

@[simp] theorem doubleApostrophes_cons (c : Char) (text : List Char) :
    doubleApostrophes (c :: text) =
      (if c = '\'' then ['\'', '\''] else [c]) ++ doubleApostrophes text := rfl

@[simp] theorem doubleApostrophes_append (left right : List Char) :
    doubleApostrophes (left ++ right) =
      doubleApostrophes left ++ doubleApostrophes right :=
  List.flatMap_append

/-- The written form of a piece. -/
def Piece.fragment : Piece → Fragment
  | plain chars => ⟨.text, .ofList (doubleApostrophes chars)⟩
  | quoted run => ⟨.quote, .ofList ('\'' :: doubleApostrophes run ++ ['\''])⟩

/-- The written form of a text. -/
def textFragments (context : Context) (text : String) : List Fragment :=
  (pieces context text.toList).map Piece.fragment

/-! ## Styles -/

/-- The written form of a style: a brace or a blank in it makes all of it quoted. -/
def quoteStyle (style : List Char) : List Char :=
  if style.any fun c => isBlank c || c == '{' || c == '}' then
    '\'' :: doubleApostrophes style ++ ['\'']
  else doubleApostrophes style

end MessagePattern.Layout
