import MessagePattern.Proofs.Layout.Pieces

/-!
# The shape of written text

What the fragments of a written text look like, and that no other fragments look like this.
-/

namespace MessagePattern.Layout

/-- Whether a text is a row of syntax characters and doubled apostrophes with a syntax character at
both ends. -/
structure IsRun (context : Context) (run : List Char) : Prop where
  first : ∃ c ∈ run.head?, context.isSyntax c = true
  last : ∃ c ∈ run.getLast?, context.isSyntax c = true
  inside : ∀ c ∈ run, context.isSyntax c = true ∨ c = '\''
  paired : ApostrophesPaired run

/-- Whether a fragment can be one of a written text: it is plain text with doubled apostrophes, or a
run between two apostrophes. -/
structure Fragment.IsShaped (context : Context) (fragment : Fragment) : Prop where
  role : fragment.role = .text ∨ fragment.role = .quote
  nonempty : fragment.content ≠ ""
  plain : fragment.role = .text →
    (∀ c ∈ fragment.content.toList, context.isSyntax c = false) ∧
      ApostrophesPaired fragment.content.toList
  quoted : fragment.role = .quote →
    ∃ run, IsRun context run ∧ fragment.content.toList = '\'' :: run ++ ['\'']

/-- The content of a fragment, without the apostrophes around it if it is quoted. -/
def Fragment.unquoted (fragment : Fragment) : List Char :=
  match fragment.role with
  | .quote => fragment.content.toList.tail.dropLast
  | _ => fragment.content.toList

/-- Whether fragments have the shape of a written text: text and quoted runs take turns, between two
runs there is more than apostrophes, and without their quotes the fragments make up the text with
its apostrophes doubled. -/
structure IsWritten (context : Context) (text : List Char) (fragments : List Fragment) :
    Prop where
  shaped : ∀ fragment ∈ fragments, fragment.IsShaped context
  alternate : ∀ left right, [left, right] <:+: fragments → left.role ≠ right.role
  between : ∀ left middle right,
    [left, middle, right] <:+: fragments →
      left.role = .quote → right.role = .quote → ∃ c ∈ middle.content.toList, c ≠ '\''
  unquoted : fragments.flatMap Fragment.unquoted = doubleApostrophes text

theorem apostrophesPaired_doubleApostrophes (text : List Char) :
    ApostrophesPaired (doubleApostrophes text) := by
  induction text with
  | nil =>
      exact apostrophesPaired_nil
  | cons c text inductionHypothesis =>
      rw [doubleApostrophes_cons]
      split
      · exact inductionHypothesis.doubled
      · next notApostrophe =>
          exact inductionHypothesis.cons notApostrophe

/-- Paired apostrophes are doubled ones. -/
theorem exists_doubleApostrophes_of_paired
    (source : List Char)
    (paired : ApostrophesPaired source) :
    ∃ text, source = doubleApostrophes text := by
  match source with
  | [] =>
      exact ⟨[], rfl⟩
  | c :: tail =>
      by_cases isApostrophe : c = '\''
      · subst isApostrophe
        obtain ⟨rest, rfl⟩ := paired.exists_cons
        obtain ⟨text, rfl⟩ := exists_doubleApostrophes_of_paired rest paired.of_doubled
        exact ⟨'\'' :: text, rfl⟩
      · obtain ⟨text, rfl⟩ :=
          exists_doubleApostrophes_of_paired tail (paired.of_cons isApostrophe)
        exact ⟨c :: text, by simp [isApostrophe]⟩
termination_by source.length

theorem doubleApostrophes_injective :
    Function.Injective doubleApostrophes := by
  intro left
  induction left with
  | nil =>
      intro right same
      have isEmpty := congrArg List.head? same
      rw [head?_doubleApostrophes, head?_doubleApostrophes] at isEmpty
      exact (List.head?_eq_none_iff.mp isEmpty.symm).symm
  | cons c left inductionHypothesis =>
      intro right same
      have sameFirst := congrArg List.head? same
      rw [head?_doubleApostrophes, head?_doubleApostrophes] at sameFirst
      obtain ⟨right, rfl⟩ := List.head?_eq_some_iff.mp sameFirst.symm
      rw [doubleApostrophes_cons, doubleApostrophes_cons, List.append_cancel_left_eq] at same
      rw [inductionHypothesis same]

theorem getLast?_doubleApostrophes (text : List Char) :
    (doubleApostrophes text).getLast? = text.getLast? := by
  induction text with
  | nil =>
      rfl
  | cons c text inductionHypothesis =>
      rw [doubleApostrophes_cons, List.getLast?_append, inductionHypothesis, List.getLast?_cons]
      cases text.getLast? with
      | none =>
          split <;> simp_all
      | some d =>
          rfl

theorem mem_doubleApostrophes_iff {c : Char} {text : List Char} :
    c ∈ doubleApostrophes text ↔ c ∈ text := by
  refine ⟨mem_doubleApostrophes, fun member => List.mem_flatMap.mpr ⟨c, member, ?_⟩⟩
  split <;> simp_all

/-! ## Fragments -/

section Fragments

variable {context : Context}

theorem isRun_doubleApostrophes_iff {run : List Char} :
    IsRun context (doubleApostrophes run) ↔ (Piece.quoted run).IsShaped context := by
  constructor
  · rintro ⟨first, last, inside, _⟩
    rw [head?_doubleApostrophes] at first
    rw [getLast?_doubleApostrophes] at last
    exact ⟨first, last, fun c member => inside c (mem_doubleApostrophes_iff.mpr member)⟩
  · rintro ⟨first, last, inside⟩
    refine ⟨?_, ?_, ?_, apostrophesPaired_doubleApostrophes run⟩
    · rwa [head?_doubleApostrophes]
    · rwa [getLast?_doubleApostrophes]
    · exact fun c member => inside c (mem_doubleApostrophes member)

namespace Piece

theorem unquoted_fragment (piece : Piece) :
    piece.fragment.unquoted = doubleApostrophes piece.chars := by
  cases piece with
  | plain chars =>
      exact String.toList_ofList
  | quoted run =>
      simp [fragment, Fragment.unquoted, chars]

theorem role_fragment_eq_iff {left right : Piece} :
    left.fragment.role = right.fragment.role ↔ left.isQuoted = right.isQuoted := by
  cases left <;> cases right <;> simp [fragment, isQuoted]

theorem role_fragment_eq_quote_iff {piece : Piece} :
    piece.fragment.role = .quote ↔ piece.isQuoted = true := by
  cases piece <;> simp [fragment, isQuoted]

theorem exists_mem_fragment_iff (piece : Piece) :
    (∃ c ∈ piece.fragment.content.toList, c ≠ '\'') ↔ ∃ c ∈ piece.chars, c ≠ '\'' := by
  refine exists_congr fun c => and_congr_left fun notApostrophe => ?_
  rw [toList_fragment]
  cases piece with
  | plain chars =>
      exact mem_doubleApostrophes_iff
  | quoted run =>
      simp [source, chars, notApostrophe, mem_doubleApostrophes_iff]

theorem isShaped_fragment
    {piece : Piece}
    (isShaped : piece.IsShaped context) :
    piece.fragment.IsShaped context := by
  have contentEq := piece.toList_fragment
  cases piece with
  | plain chars =>
      obtain ⟨nonempty, charsPlain⟩ := isShaped
      refine ⟨Or.inl rfl, ?_, fun _ => ?_, nofun⟩
      · rw [Ne, ← String.toList_eq_nil_iff, contentEq]
        exact fun isEmpty => nonempty (doubleApostrophes_injective isEmpty)
      · rw [contentEq]
        exact ⟨fun c member => charsPlain c (mem_doubleApostrophes member),
          apostrophesPaired_doubleApostrophes chars⟩
  | quoted run =>
      refine ⟨Or.inr rfl, ?_, nofun, fun _ => ?_⟩
      · rw [Ne, ← String.toList_eq_nil_iff, contentEq]
        exact List.cons_ne_nil _ _
      · exact ⟨_, isRun_doubleApostrophes_iff.mpr isShaped, contentEq⟩

end Piece

theorem Fragment.IsShaped.exists_piece
    {fragment : Fragment}
    (isShaped : fragment.IsShaped context) :
    ∃ piece : Piece, piece.fragment = fragment ∧ piece.IsShaped context := by
  obtain ⟨role, content⟩ := fragment
  obtain ⟨isText | isQuote, nonempty, plain, quoted⟩ := isShaped
  · obtain rfl : role = .text := isText
    obtain ⟨charsPlain, paired⟩ := plain rfl
    obtain ⟨chars, contentEq⟩ := exists_doubleApostrophes_of_paired _ paired
    refine ⟨.plain chars, ?_, ?_, fun c member => ?_⟩
    · rw [Piece.fragment, ← contentEq, String.ofList_toList]
    · rintro rfl
      exact nonempty (String.toList_eq_nil_iff.mp contentEq)
    · rw [contentEq] at charsPlain
      exact charsPlain c (mem_doubleApostrophes_iff.mpr member)
  · obtain rfl : role = .quote := isQuote
    obtain ⟨source, isRun, contentEq⟩ := quoted rfl
    obtain ⟨run, rfl⟩ := exists_doubleApostrophes_of_paired _ isRun.paired
    refine ⟨.quoted run, ?_, isRun_doubleApostrophes_iff.mp isRun⟩
    rw [Piece.fragment, ← contentEq, String.ofList_toList]

theorem exists_pieces
    {fragments : List Fragment}
    (shaped : ∀ fragment ∈ fragments, fragment.IsShaped context) :
    ∃ parts : List Piece,
      parts.map Piece.fragment = fragments ∧ ∀ part ∈ parts, part.IsShaped context := by
  induction fragments with
  | nil =>
      exact ⟨[], rfl, List.forall_mem_nil _⟩
  | cons fragment fragments inductionHypothesis =>
      obtain ⟨isShaped, restShaped⟩ := List.forall_mem_cons.mp shaped
      obtain ⟨part, rfl, partShaped⟩ := isShaped.exists_piece
      obtain ⟨parts, rfl, partsShaped⟩ := inductionHypothesis restShaped
      exact ⟨part :: parts, rfl, List.forall_mem_cons.mpr ⟨partShaped, partsShaped⟩⟩

theorem flatMap_unquoted_fragment (parts : List Piece) :
    (parts.map Piece.fragment).flatMap Fragment.unquoted =
      doubleApostrophes (parts.flatMap Piece.chars) := by
  rw [List.flatMap_map, doubleApostrophes, List.flatMap_assoc]
  exact congrArg (parts.flatMap ·) (funext Piece.unquoted_fragment)

theorem isWritten_map_fragment
    {parts : List Piece}
    (shaped : ∀ part ∈ parts, part.IsShaped context)
    (takesTurns : TakesTurns parts) :
    IsWritten context (parts.flatMap Piece.chars) (parts.map Piece.fragment) where
  shaped :=
    List.forall_mem_map.mpr fun part member => Piece.isShaped_fragment (shaped part member)
  alternate := by
    intro left right isPart
    obtain ⟨_, isPart, mapped⟩ := List.infix_map_iff.mp isPart
    obtain ⟨first, _, rfl, rfl, restMapped⟩ := List.map_eq_cons_iff.mp mapped.symm
    obtain ⟨second, _, rfl, rfl, noneMapped⟩ := List.map_eq_cons_iff.mp restMapped
    obtain rfl := List.map_eq_nil_iff.mp noneMapped
    exact Piece.role_fragment_eq_iff.not.mpr (takesTurns.alternate first second isPart)
  between := by
    intro left middle right isPart leftQuote rightQuote
    obtain ⟨_, isPart, mapped⟩ := List.infix_map_iff.mp isPart
    obtain ⟨first, _, rfl, rfl, restMapped⟩ := List.map_eq_cons_iff.mp mapped.symm
    obtain ⟨second, _, rfl, rfl, lastMapped⟩ := List.map_eq_cons_iff.mp restMapped
    obtain ⟨third, _, rfl, rfl, noneMapped⟩ := List.map_eq_cons_iff.mp lastMapped
    obtain rfl := List.map_eq_nil_iff.mp noneMapped
    have firstQuoted := Piece.role_fragment_eq_quote_iff.mp leftQuote
    have thirdQuoted := Piece.role_fragment_eq_quote_iff.mp rightQuote
    exact second.exists_mem_fragment_iff.mpr
      (takesTurns.between first second third isPart firstQuoted thirdQuoted)
  unquoted := flatMap_unquoted_fragment parts

theorem takesTurns_of_isWritten
    {parts : List Piece} {text : List Char}
    (isWritten : IsWritten context text (parts.map Piece.fragment)) :
    TakesTurns parts where
  alternate left right isPart :=
    Piece.role_fragment_eq_iff.not.mp (isWritten.alternate _ _ (isPart.map Piece.fragment))
  between left middle right isPart leftQuoted rightQuoted := by
    have leftQuote := Piece.role_fragment_eq_quote_iff.mpr leftQuoted
    have rightQuote := Piece.role_fragment_eq_quote_iff.mpr rightQuoted
    exact middle.exists_mem_fragment_iff.mp
      (isWritten.between _ _ _ (isPart.map Piece.fragment) leftQuote rightQuote)

end Fragments

/-- The fragments of a written text are those that have its shape. -/
theorem textFragments_eq_iff
    {context : Context} {text : String} {fragments : List Fragment} :
    textFragments context text = fragments ↔ IsWritten context text.toList fragments := by
  constructor
  · rintro rfl
    obtain ⟨shaped, takesTurns, charsEq⟩ :=
      pieces_eq_iff.mp (Eq.refl (pieces context text.toList))
    have isWritten := isWritten_map_fragment shaped takesTurns
    rwa [charsEq] at isWritten
  · intro isWritten
    obtain ⟨parts, rfl, shaped⟩ := exists_pieces isWritten.shaped
    have takesTurns := takesTurns_of_isWritten isWritten
    have charsEq : parts.flatMap Piece.chars = text.toList := by
      apply doubleApostrophes_injective
      rw [← flatMap_unquoted_fragment, isWritten.unquoted]
    rw [textFragments, pieces_eq_iff.mpr ⟨shaped, takesTurns, charsEq⟩]

-- Apostrophes alone do not part two runs, and a run does not take in those behind it.
example :
    textFragments .counted "\x7b''#'a'\x7d" =
      [⟨.quote, "'\x7b''''#'"⟩, ⟨.text, "''a''"⟩, ⟨.quote, "'\x7d'"⟩] := by
  cbv

end MessagePattern.Layout
