import MessagePattern.Layout.Paint
import MessagePattern.Proofs.Layout.Text

/-!
# Colour and the pattern below it

What a terminal shows of a coloured pattern: without its control sequences it is the pattern.
-/

namespace MessagePattern

mutual

/-- The texts that a node is made of, its branches included. -/
def Node.texts : Node → List String
  | .text content => [content]
  | .argument key => [key]
  | .number => []
  | .styled key type style => key :: type :: style.toList
  | .choice key type cases => key :: type :: branchTexts cases
  | .plural key _ _ branches => key :: branchTexts branches

/-- The texts that a message is made of, at every depth. -/
def Message.texts : Message → List String
  | [] => []
  | node :: nodes => node.texts ++ Message.texts nodes

/-- The selectors of branches and the texts in their messages. -/
def branchTexts : Branches → List String
  | [] => []
  | ⟨selector, message⟩ :: branches => selector :: Message.texts message ++ branchTexts branches

end

namespace Layout

/-! ## Removing control sequences -/

def isParameterChar (c : Char) : Bool :=
  c.isDigit || c == ';'

/-- What follows the control sequence at the front of a text, if there is one. -/
def afterControl? : List Char → Option (List Char)
  | '\x1b' :: '[' :: rest =>
    match rest.dropWhile isParameterChar with
    | 'm' :: after => some after
    | _ => none
  | _ => none

/-- A control sequence is an escape character, a bracket, digits and semicolons, and an `m`. -/
theorem afterControl?_eq_some_iff {text after : List Char} :
    afterControl? text = some after ↔
      ∃ parameters,
        (∀ c ∈ parameters, isParameterChar c = true) ∧
          text = '\x1b' :: '[' :: (parameters ++ 'm' :: after) := by
  constructor
  · intro isControl
    unfold afterControl? at isControl
    split at isControl
    · next rest =>
        split at isControl
        · next afterEq =>
            cases isControl
            refine ⟨rest.takeWhile isParameterChar, fun c => List.mem_takeWhile_imp, ?_⟩
            rw [← afterEq, List.takeWhile_append_dropWhile]
        · cases isControl
    · cases isControl
  · rintro ⟨parameters, areParameters, rfl⟩
    have afterParameters :
        (parameters ++ 'm' :: after).dropWhile isParameterChar = 'm' :: after :=
      dropWhile_run_append areParameters (by rintro _ ⟨⟩; rfl)
    simp only [afterControl?, afterParameters]

theorem length_lt_of_afterControl?
    {text after : List Char}
    (isControl : afterControl? text = some after) :
    after.length < text.length := by
  obtain ⟨parameters, _, rfl⟩ := afterControl?_eq_some_iff.mp isControl
  simp only [List.length_cons, List.length_append]
  omega

/-- The text without its control sequences. -/
def dropControls (text : List Char) : List Char :=
  match text with
  | [] => []
  | c :: rest =>
    match _isControl : afterControl? (c :: rest) with
    | some after => dropControls after
    | none => c :: dropControls rest
termination_by text.length
decreasing_by
  · exact length_lt_of_afterControl? _isControl
  · exact Nat.lt_succ_self _

def withoutControls (text : String) : String :=
  .ofList (dropControls text.toList)

section Removing

variable {text after : List Char}

theorem dropControls_of_some
    (isControl : afterControl? text = some after) :
    dropControls text = dropControls after := by
  cases text with
  | nil =>
      cases isControl
  | cons c rest =>
      rw [dropControls]
      split
      · next found =>
          rw [isControl] at found
          cases found
          rfl
      · next found =>
          rw [isControl] at found
          cases found

theorem dropControls_of_none
    {c : Char}
    (noControl : afterControl? (c :: text) = none) :
    dropControls (c :: text) = c :: dropControls text := by
  rw [dropControls]
  split
  · next found =>
      rw [noControl] at found
      cases found
  · rfl

theorem afterControl?_eq_none
    {c : Char}
    (different : c ≠ '\x1b') (rest : List Char) :
    afterControl? (c :: rest) = none := by
  unfold afterControl?
  split
  · next equality =>
      exact absurd (List.cons.inj equality).1 different
  · rfl

/-- Characters that begin no control sequence stay. -/
theorem dropControls_append
    (unescaped : '\x1b' ∉ text) (rest : List Char) :
    dropControls (text ++ rest) = text ++ dropControls rest := by
  induction text with
  | nil =>
      rfl
  | cons c text inductionHypothesis =>
      rw [List.mem_cons, not_or] at unescaped
      rw [List.cons_append, dropControls_of_none (afterControl?_eq_none (Ne.symm unescaped.1) _),
        inductionHypothesis unescaped.2, List.cons_append]

end Removing

theorem dropControls_controlSequence
    {parameters : String}
    (areParameters : ∀ c ∈ parameters.toList, isParameterChar c = true) (rest : List Char) :
    dropControls ((controlSequence parameters).toList ++ rest) = dropControls rest := by
  refine dropControls_of_some (afterControl?_eq_some_iff.mpr ⟨_, areParameters, ?_⟩)
  simp [controlSequence]

theorem isParameterChar_of_mem_toString (n : Nat) :
    ∀ c ∈ (toString n).toList, isParameterChar c = true := by
  intro c member
  have inDigits : c ∈ Nat.toDigits 10 n := by
    simpa using member
  rw [isParameterChar, Nat.isDigit_of_mem_toDigits (by decide) (by decide) inDigits]
  rfl

theorem isParameterChar_of_mem_parameters (colour : Colour) :
    ∀ c ∈ colour.parameters.toList, isParameterChar c = true := by
  cases colour with
  | rgb red green blue =>
      have lead : ∀ c ∈ "38;2;".toList, isParameterChar c = true := List.all_eq_true.mp rfl
      have separator : ∀ c ∈ ";".toList, isParameterChar c = true := List.all_eq_true.mp rfl
      simp only [Colour.parameters, String.toList_append, List.forall_mem_append]
      exact ⟨⟨⟨⟨⟨lead, isParameterChar_of_mem_toString _⟩, separator⟩,
        isParameterChar_of_mem_toString _⟩, separator⟩, isParameterChar_of_mem_toString _⟩
  | brightRed | brightYellow | brightBlue =>
      exact List.all_eq_true.mp rfl

theorem dropControls_paint
    {text : String}
    (colour : Colour) (unescaped : '\x1b' ∉ text.toList) (rest : List Char) :
    dropControls ((colour.paint text).toList ++ rest) = text.toList ++ dropControls rest := by
  rw [Colour.paint, String.toList_append, String.toList_append, List.append_assoc,
    List.append_assoc, dropControls_controlSequence (isParameterChar_of_mem_parameters colour),
    dropControls_append unescaped, dropControls_controlSequence (List.all_eq_true.mp rfl)]

/-- Without control sequences a look leaves the text, if the text is what the look writes of its own
accord. -/
theorem dropControls_apply
    {look : Look} {text : String}
    (unescaped : '\x1b' ∉ text.toList)
    (isLineFeed : look = .lineFeed → text = "\n") (rest : List Char) :
    dropControls ((look.apply text).toList ++ rest) = text.toList ++ dropControls rest := by
  cases look with
  | asIs =>
      exact dropControls_append unescaped rest
  | lineFeed =>
      rw [isLineFeed rfl]
      exact dropControls_append (by decide) rest
  | coloured colour =>
      exact dropControls_paint colour unescaped rest
  | boldColoured colour =>
      rw [Look.apply, bold, String.toList_append, String.toList_append, List.append_assoc,
        List.append_assoc, dropControls_controlSequence (List.all_eq_true.mp rfl),
        dropControls_paint colour unescaped, dropControls_controlSequence (List.all_eq_true.mp rfl)]

/-- Whether a fragment begins no control sequence, and is a line feed if its role says so. -/
def Fragment.IsPlain (fragment : Fragment) : Prop :=
  '\x1b' ∉ fragment.content.toList ∧ (fragment.role = .newline → fragment.content = "\n")

instance (fragment : Fragment) : Decidable fragment.IsPlain :=
  inferInstanceAs (Decidable (_ ∧ _))

/-- Of the looks on a terminal, a line feed of its own is that of new lines alone. -/
theorem eq_newline_of_terminal
    {role : Role}
    (isLineFeed : Theme.terminal role = .lineFeed) :
    role = .newline := by
  cases role with
  | newline => rfl
  | _ => cases isLineFeed

def ArePlain (fragments : List Fragment) : Prop :=
  ∀ fragment ∈ fragments, fragment.IsPlain

instance (fragments : List Fragment) : Decidable (ArePlain fragments) :=
  inferInstanceAs (Decidable (∀ fragment ∈ fragments, _))

theorem dropControls_terminal
    {fragments : List Fragment}
    (arePlain : ArePlain fragments) :
    dropControls
        (fragments.flatMap fun fragment =>
          (Theme.terminal.style fragment.role fragment.content).toList) =
      charsOf fragments := by
  induction fragments with
  | nil =>
      rw [List.flatMap_nil, dropControls]
      rfl
  | cons fragment fragments inductionHypothesis =>
      obtain ⟨⟨unescaped, newline⟩, othersPlain⟩ := List.forall_mem_cons.mp arePlain
      rw [List.flatMap_cons, charsOf_cons, Theme.style,
        dropControls_apply unescaped fun isLineFeed => newline (eq_newline_of_terminal isLineFeed),
        inductionHypothesis othersPlain]

theorem ArePlain.append
    {left right : List Fragment}
    (leftPlain : ArePlain left)
    (rightPlain : ArePlain right) :
    ArePlain (left ++ right) :=
  List.forall_mem_append.mpr ⟨leftPlain, rightPlain⟩

theorem ArePlain.cons
    {fragment : Fragment} {fragments : List Fragment}
    (isPlain : fragment.IsPlain)
    (arePlain : ArePlain fragments) :
    ArePlain (fragment :: fragments) :=
  List.forall_mem_cons.mpr ⟨isPlain, arePlain⟩

/-! ## Fragments of a message -/

section Fragments

variable {text key type : String}

theorem arePlain_ifAny
    {role : Role}
    (notNewline : role ≠ .newline) (unescaped : '\x1b' ∉ text.toList) :
    ArePlain (Fragment.ifAny role text) := by
  unfold Fragment.ifAny
  split
  · exact List.forall_mem_nil _
  · exact List.forall_mem_singleton.mpr ⟨unescaped, fun isNewline => absurd isNewline notNewline⟩

theorem not_mem_doubleApostrophes
    {chars : List Char}
    (unescaped : '\x1b' ∉ chars) :
    '\x1b' ∉ doubleApostrophes chars :=
  fun member => unescaped (mem_doubleApostrophes member)

theorem not_mem_quoted
    {chars : List Char}
    (unescaped : '\x1b' ∉ chars) :
    '\x1b' ∉ '\'' :: doubleApostrophes chars ++ ['\''] := by
  rw [List.mem_append, List.mem_cons, List.mem_singleton]
  rintro ((isQuote | member) | isQuote)
  · cases isQuote
  · exact not_mem_doubleApostrophes unescaped member
  · cases isQuote

theorem isPlain_fragment
    {piece : Piece}
    (unescaped : '\x1b' ∉ piece.chars) :
    piece.fragment.IsPlain := by
  cases piece with
  | plain chars =>
      refine ⟨?_, nofun⟩
      rw [Piece.fragment, String.toList_ofList]
      exact not_mem_doubleApostrophes unescaped
  | quoted run =>
      refine ⟨?_, nofun⟩
      rw [Piece.fragment, String.toList_ofList]
      exact not_mem_quoted unescaped

theorem arePlain_textFragments
    (context : Context) (unescaped : '\x1b' ∉ text.toList) :
    ArePlain (textFragments context text) := by
  rw [ArePlain, textFragments, List.forall_mem_map]
  intro piece member
  refine isPlain_fragment fun inPiece => unescaped ?_
  rw [← chars_pieces context text.toList]
  exact List.mem_flatMap.mpr ⟨piece, member, inPiece⟩

theorem arePlain_headFragments
    (keyUnescaped : '\x1b' ∉ key.toList) (typeUnescaped : '\x1b' ∉ type.toList) :
    ArePlain (headFragments key type) :=
  .append (.cons (by decide) (arePlain_ifAny (by decide) keyUnescaped))
    (.cons (by decide) (arePlain_ifAny (by decide) typeUnescaped))

theorem not_mem_quoteStyle
    {style : List Char}
    (unescaped : '\x1b' ∉ style) :
    '\x1b' ∉ quoteStyle style := by
  unfold quoteStyle
  split
  · exact not_mem_quoted unescaped
  · exact not_mem_doubleApostrophes unescaped

theorem arePlain_styleFragments
    {style : List Char}
    (unescaped : '\x1b' ∉ style) :
    ArePlain (styleFragments style) := by
  unfold styleFragments
  split
  · decide
  · refine .cons (by decide) (.cons ⟨?_, nofun⟩ (by decide))
    rw [String.toList_ofList]
    exact not_mem_quoteStyle unescaped

theorem arePlain_offsetFragments (offset : UInt32) :
    ArePlain (offsetFragments offset) := by
  unfold offsetFragments
  split
  · exact List.forall_mem_nil _
  · refine .cons (by decide) (.cons ⟨?_, nofun⟩ (List.forall_mem_nil _))
    rw [String.toList_append, List.mem_append, not_or]
    refine ⟨by decide, fun member => ?_⟩
    cases isParameterChar_of_mem_toString _ _ member

theorem arePlain_selectorFragments
    {selector : String}
    (width : Nat) (unescaped : '\x1b' ∉ selector.toList) :
    ArePlain (selectorFragments width selector) := by
  refine .append (.append (.cons (by decide) (.cons ⟨?_, nofun⟩ (List.forall_mem_nil _)))
    (arePlain_ifAny (by decide) unescaped)) (by decide)
  rw [String.toList_ofList]
  intro member
  cases List.eq_of_mem_replicate member

end Fragments

mutual

theorem arePlain_nodeFragments
    (context : Context) (node : Node)
    (unescaped : ∀ text ∈ node.texts, '\x1b' ∉ text.toList) :
    ArePlain (nodeFragments context node) := by
  match node with
  | .text content =>
      exact arePlain_textFragments context (unescaped content List.mem_cons_self)
  | .argument key =>
      have keyUnescaped := unescaped key List.mem_cons_self
      exact .append (.cons (by decide) (arePlain_ifAny (by decide) keyUnescaped)) (by decide)
  | .number =>
      rw [nodeFragments]
      decide
  | .styled key type style =>
      obtain ⟨keyUnescaped, typeUnescaped, styleUnescaped⟩ :
          '\x1b' ∉ key.toList ∧ '\x1b' ∉ type.toList ∧ ∀ text ∈ style.toList, '\x1b' ∉ text.toList :=
        by simpa [Node.texts] using unescaped
      refine .append (arePlain_headFragments keyUnescaped typeUnescaped) (arePlain_styleFragments ?_)
      cases style with
      | none =>
          decide
      | some style =>
          exact styleUnescaped style List.mem_cons_self
  | .choice key type cases =>
      obtain ⟨keyUnescaped, typeUnescaped, casesUnescaped⟩ :
          '\x1b' ∉ key.toList ∧ '\x1b' ∉ type.toList ∧
            ∀ text ∈ branchTexts cases, '\x1b' ∉ text.toList := by
        simpa [Node.texts] using unescaped
      have casesPlain :=
        arePlain_branchesFragments (.ofType type) (selectorWidth cases) cases casesUnescaped
      exact .append
        (.append (arePlain_headFragments keyUnescaped typeUnescaped)
          (.cons (by decide) casesPlain))
        (by decide)
  | .plural key kind offset branches =>
      obtain ⟨keyUnescaped, branchesUnescaped⟩ := List.forall_mem_cons.mp unescaped
      have typeUnescaped : '\x1b' ∉ kind.typeName.toList := by
        cases kind <;> decide
      have branchesPlain :=
        arePlain_branchesFragments .counted (selectorWidth branches) branches branchesUnescaped
      exact .append
        (.append
          (.append (arePlain_headFragments keyUnescaped typeUnescaped)
            (.cons (by decide) (arePlain_offsetFragments offset)))
          branchesPlain)
        (by decide)

theorem arePlain_messageFragments
    (context : Context) (message : Message)
    (unescaped : ∀ text ∈ Message.texts message, '\x1b' ∉ text.toList) :
    ArePlain (messageFragments context message) := by
  match message with
  | [] =>
      exact List.forall_mem_nil _
  | node :: nodes =>
      obtain ⟨nodeUnescaped, nodesUnescaped⟩ := List.forall_mem_append.mp unescaped
      exact .append (arePlain_nodeFragments context node nodeUnescaped)
        (arePlain_messageFragments context nodes nodesUnescaped)

theorem arePlain_branchesFragments
    (context : Context) (width : Nat) (branches : Branches)
    (unescaped : ∀ text ∈ branchTexts branches, '\x1b' ∉ text.toList) :
    ArePlain (branchesFragments context width branches) := by
  match branches with
  | [] =>
      exact List.forall_mem_nil _
  | ⟨selector, message⟩ :: branches =>
      obtain ⟨branchUnescaped, branchesUnescaped⟩ := List.forall_mem_append.mp unescaped
      obtain ⟨selectorUnescaped, messageUnescaped⟩ := List.forall_mem_cons.mp branchUnescaped
      exact .append
        (.append (arePlain_selectorFragments width selectorUnescaped)
          (arePlain_messageFragments context message messageUnescaped))
        (.cons (by decide)
          (arePlain_branchesFragments context width branches branchesUnescaped))

end

/-- Without its control sequences, a pattern coloured for a terminal is the pattern of the message, if
no text in the message begins a control sequence of its own. -/
theorem withoutControls_render_terminal
    {message : Message}
    (unescaped : ∀ text ∈ Message.texts message, '\x1b' ∉ text.toList) :
    withoutControls (render .terminal message) = print message := by
  have arePlain : ArePlain (fragments message) :=
    arePlain_messageFragments .plain message unescaped
  rw [withoutControls, render, String.toList_join, List.flatMap_map,
    dropControls_terminal arePlain, ← toList_joinFragments, String.ofList_toList]
  rfl

/-- Texts with brackets and digits like those of control sequences, next to colour. -/
def brackets : Message :=
  [.plural "[1m" .cardinal 39
    [⟨"[0", [.text "m'\x7b#[9;1m", .number, .styled "m" "" (some "[39m ;")]⟩]]

theorem withoutControls_render_brackets :
    (∀ text ∈ Message.texts brackets, '\x1b' ∉ text.toList) ∧
      withoutControls (render .terminal brackets) = print brackets := by
  have uncontrolled : ∀ text ∈ Message.texts brackets, '\x1b' ∉ text.toList := by
    decide
  exact ⟨uncontrolled, withoutControls_render_terminal uncontrolled⟩

end Layout

end MessagePattern
