import MessagePattern.Proofs.Grammar.Opening
import MessagePattern.Proofs.Pattern.Readers

/-!
# Soundness

What the readers of messages, placeholders and branches read is derived by the grammar.
-/

namespace MessagePattern.Grammar

open Pattern

/-- What is read as a message is derived, and ends with the text or before a closing brace. -/
def MessageSound (context : Context) (input : List Char) : Prop :=
  ∀ {message rest},
    readMessage context input = .done message rest →
    ∃ source,
      input = source ++ rest ∧
        Derives source (.message context rest.head? message) ∧
        ∀ c ∈ rest.head?, c = '}'

def PlaceholderSound (input : List Char) : Prop :=
  ∀ {node rest},
    readPlaceholderBody input = .done node rest →
    ∃ source,
      input = source ++ rest ∧
        Derives ('{' :: source) (.placeholder node)

/-- What is read as branches after others is derived, and the selectors differ from those of the
others and from each other. -/
def BranchesSound (context : Context) (seen : List String) (input : List Char) : Prop :=
  ∀ {branches rest},
    readBranchesAfter context seen input = .done branches rest →
    ∃ source,
      input = source ++ rest ∧
        Derives source (.branches context branches) ∧
        (branches.map Branch.selector).Nodup ∧
        (∀ selector ∈ branches.map Branch.selector, selector ∉ seen) ∧
        (seen = [] → branches ≠ [])

theorem messageSound_step
    {context : Context} {input : List Char}
    (placeholders : ∀ shorter, shorter.length < input.length → PlaceholderSound shorter)
    (messages : ∀ shorter, shorter.length < input.length → MessageSound context shorter) :
    MessageSound context input := by
  intro message rest found
  rcases cases_of_readMessage found with
    ⟨rfl, rfl, stops⟩ |
    ⟨tail, node, middle, nodes, rfl, nodeFound, nodesFound, rfl⟩ |
    ⟨text, middle, nodes, isText, textFound, nodesFound, rfl⟩ |
    ⟨tail, nodes, rfl, rfl, nodesFound, rfl⟩
  · exact ⟨[], rfl, .empty, stops⟩
  · have middleShorter : middle.length < ('{' :: tail).length :=
      Nat.lt_succ_of_le (length_le_of_readPlaceholderBody nodeFound)
    obtain ⟨source, rfl, nodeDerived⟩ := placeholders tail (by simp) nodeFound
    obtain ⟨others, rfl, nodesDerived, stops⟩ := messages middle middleShorter nodesFound
    exact ⟨'{' :: source ++ others, by simp, .placeholder nodeDerived nodesDerived, stops⟩
  · obtain ⟨source, rfl, row, stopsText⟩ := exists_row_of_readText textFound
    have nonempty : source ≠ [] := by
      rintro rfl
      obtain ⟨c, first, notSyntax⟩ := isText
      rw [stopsText c first] at notSyntax
      cases notSyntax
    have middleShorter : middle.length < (source ++ middle).length :=
      length_lt_append nonempty middle
    obtain ⟨others, rfl, nodesDerived, stops⟩ := messages middle middleShorter nodesFound
    rw [List.head?_append] at row stopsText
    exact ⟨source ++ others, by simp,
      .text nonempty (by simpa using row) stopsText nodesDerived, stops⟩
  · obtain ⟨others, rfl, nodesDerived, stops⟩ := messages tail (by simp) nodesFound
    exact ⟨'#' :: others, by simp, .number nodesDerived, stops⟩

theorem placeholderSound_step
    {input : List Char}
    (branchesSound :
      ∀ context shorter, shorter.length ≤ input.length → BranchesSound context [] shorter) :
    PlaceholderSound input := by
  intro node rest found
  have shorterOfOpening :
      ∀ {opening middle},
        readOpening input = .done opening middle →
        (skipBlanks middle).length ≤ input.length := by
    intro opening middle opened
    have notLonger := readOpening_rest_length_le input
    rw [opened] at notLonger
    exact Nat.le_trans (skipBlanks_length_le middle) notLonger
  rcases cases_of_readPlaceholderBody found with
    opened |
    ⟨key, kind, offset, middle, branches, opened, branchesFound, rfl⟩ |
    ⟨key, middle, cases, opened, casesFound, rfl⟩
  · exact opensAs_of_readOpening opened
  · obtain ⟨source, middleEq, derived, nodup, _, nonempty⟩ :=
      branchesSound .counted _ (shorterOfOpening opened) branchesFound
    obtain ⟨keySource, typeSource, detail, keyPadded, typePadded, rfl, offsetFound⟩ :=
      opensAs_of_readOpening opened
    obtain ⟨clause, rfl, clauseForm⟩ := exists_clause_of_readOffset offsetFound middleEq
    refine ⟨keySource ++ ',' :: typeSource ++ ',' :: clause ++ source ++ ['}'], by simp, ?_⟩
    exact .plural keyPadded typePadded clauseForm derived (nonempty rfl) nodup
  · obtain ⟨source, middleEq, derived, nodup, _, nonempty⟩ :=
      branchesSound .plain _ (shorterOfOpening opened) casesFound
    obtain ⟨keySource, typeSource, keyPadded, typePadded, rfl⟩ :=
      opensAs_of_readOpening opened
    obtain ⟨blanks, allBlank, restEq⟩ := exists_blanks_append_skipBlanks middle
    rw [middleEq] at restEq
    refine ⟨keySource ++ ',' :: typeSource ++ ',' :: blanks ++ source ++ ['}'],
      by simp [restEq], ?_⟩
    exact .choice keyPadded typePadded allBlank derived (nonempty rfl) nodup

theorem branchesSound_step
    {context : Context} {seen : List String} {input : List Char}
    (messages : ∀ shorter, shorter.length < input.length → MessageSound context shorter)
    (branchesSound :
      ∀ selector shorter,
        shorter.length < input.length → BranchesSound context (selector :: seen) shorter) :
    BranchesSound context seen input := by
  intro branches rest found
  rcases cases_of_readBranchesAfter found with
    ⟨rfl, rfl, notFirst, _⟩ |
    ⟨selector, body, message, after, others, selectorFound, messageFound, isNew, othersFound,
      rfl⟩
  · exact ⟨[], rfl, .noBranch, by simp, by simp, fun isFirst => absurd isFirst notFirst⟩
  · have bodyShorter := length_lt_of_readSelector selectorFound
    have afterShorter : (skipBlanks after).length < input.length := by
      have skipped := skipBlanks_length_le after
      have closed := length_le_of_readMessage messageFound
      rw [List.length_cons] at closed
      omega
    obtain ⟨before, isWord, beforeBlank, rfl⟩ := exists_of_readSelector selectorFound
    obtain ⟨source, rfl, messageDerived, _⟩ := messages body bodyShorter messageFound
    obtain ⟨blanks, allBlank, afterEq⟩ := exists_blanks_append_skipBlanks after
    obtain ⟨tail, tailEq, othersDerived, nodup, othersNew, _⟩ :=
      branchesSound selector _ afterShorter othersFound
    rw [tailEq] at afterEq
    refine ⟨selector.toList ++ before ++ '{' :: source ++ '}' :: blanks ++ tail,
      by simp [afterEq], .branch isWord beforeBlank messageDerived allBlank othersDerived,
      ?_, ?_, by simp⟩
    · rw [List.map_cons, List.nodup_cons]
      refine ⟨fun repeated => ?_, nodup⟩
      exact othersNew selector repeated (by simp)
    · intro other member
      rcases List.mem_cons.mp member with rfl | inOthers
      · exact isNew
      · exact fun inSeen => othersNew other inOthers (List.mem_cons_of_mem selector inSeen)

theorem readers_sound :
    (∀ context input, MessageSound context input) ∧
      (∀ input, PlaceholderSound input) ∧
      ∀ context seen input, BranchesSound context seen input :=
  readers_induction
    (fun _ _ => messageSound_step)
    (fun _ => placeholderSound_step)
    (fun _ _ _ => branchesSound_step)

end MessagePattern.Grammar
