import MessagePattern.Json.Value
import MessagePattern.Proofs.Json.Literal
import MessagePattern.Proofs.Text.Runs

/-!
# Writing and reading values

The text of a JSON value, in any layout that only adds spaces, is read back as the value.
-/

namespace MessagePattern.Json

/-- Whether a row of characters is what stands between the quotes of a string. -/
def IsLiteral (literal : List Char) : Prop :=
  ∀ rest, readLiteral? (literal ++ '"' :: rest) = some (literal, rest)

/-- Whether a row of characters is a number and nothing more. -/
def IsNumber (literal : List Char) : Prop :=
  isNumber literal = true ∧ ∀ c ∈ literal, isNumberChar c = true

mutual

/-- Whether all literals in a value are literals of their kind. -/
def HasLiterals : Json → Prop
  | null | bool _ => True
  | number literal => IsNumber literal
  | string literal => IsLiteral literal
  | array items => itemsHaveLiterals items
  | object members => membersHaveLiterals members

def itemsHaveLiterals : List Json → Prop
  | [] => True
  | item :: items => item.HasLiterals ∧ itemsHaveLiterals items

def membersHaveLiterals : List (Member Json) → Prop
  | [] => True
  | ⟨key, value⟩ :: members => IsLiteral key ∧ value.HasLiterals ∧ membersHaveLiterals members

end

/-! ## The tokens of a value -/

mutual

def tokensOf : Json → List Token
  | null => [.null]
  | bool value => [.bool value]
  | number literal => [.number literal]
  | string literal => [.string literal]
  | array [] => [.openArray, .closeArray]
  | array (item :: items) => .openArray :: tokensOf item ++ itemTokens items ++ [.closeArray]
  | object [] => [.openObject, .closeObject]
  | object (⟨key, value⟩ :: members) =>
    .openObject :: .string key :: .colon :: tokensOf value ++ memberTokens members ++ [.closeObject]

/-- The tokens of all items but the first. -/
def itemTokens : List Json → List Token
  | [] => []
  | item :: items => .comma :: tokensOf item ++ itemTokens items

/-- The tokens of all members but the first. -/
def memberTokens : List (Member Json) → List Token
  | [] => []
  | ⟨key, value⟩ :: members =>
    .comma :: .string key :: .colon :: tokensOf value ++ memberTokens members

end

theorem ne_closeArray_of_mem_head? (value : Json) (tokens : List Token) :
    ∀ token ∈ (tokensOf value ++ tokens).head?, token ≠ .closeArray := by
  unfold tokensOf
  split <;> simp

theorem readValue?_openArray
    {frames : List Frame} {tokens : List Token}
    (notEmpty : ∀ token ∈ tokens.head?, token ≠ .closeArray) :
    readValue? frames (.openArray :: tokens) = readValue? (.array [] :: frames) tokens := by
  rw [readValue?]
  rintro after rfl
  exact notEmpty _ rfl rfl

mutual

/-- The tokens of a value are read as the value, wherever it stands. -/
theorem readValue?_tokensOf (value : Json) (frames : List Frame) (tokens : List Token) :
    readValue? frames (tokensOf value ++ tokens) = readOn? value frames tokens := by
  match value with
  | null | bool _ | number _ | string _ | array [] | object [] =>
      simp only [tokensOf, List.cons_append, List.nil_append]
      rw [readValue?]
  | array (item :: items) =>
      have itemRead := readValue?_tokensOf item (.array [] :: frames)
        (itemTokens items ++ .closeArray :: tokens)
      have itemsRead := readOn?_itemTokens items item [] frames tokens
      simp only [tokensOf, List.cons_append, List.append_assoc, List.nil_append]
      rw [readValue?_openArray (ne_closeArray_of_mem_head? item _), itemRead, itemsRead]
      rfl
  | object (⟨key, value⟩ :: members) =>
      have valueRead := readValue?_tokensOf value (.object [] key :: frames)
        (memberTokens members ++ .closeObject :: tokens)
      have membersRead := readOn?_memberTokens members value [] key frames tokens
      simp only [tokensOf, List.cons_append, List.append_assoc, List.nil_append]
      rw [readValue?, valueRead, membersRead]
      rfl

theorem readOn?_itemTokens
    (items : List Json) (value : Json) (before : List Json) (frames : List Frame)
    (tokens : List Token) :
    readOn? value (.array before :: frames) (itemTokens items ++ .closeArray :: tokens) =
      readOn? (array ((value :: before).reverse ++ items)) frames tokens := by
  match items with
  | [] =>
      rw [itemTokens, List.nil_append, readOn?, List.append_nil]
  | item :: items =>
      have itemRead := readValue?_tokensOf item (.array (value :: before) :: frames)
        (itemTokens items ++ .closeArray :: tokens)
      have itemsRead := readOn?_itemTokens items item (value :: before) frames tokens
      rw [itemTokens, List.cons_append, List.cons_append, List.append_assoc, readOn?, itemRead,
        itemsRead]
      simp

theorem readOn?_memberTokens
    (members : List (Member Json)) (value : Json) (before : List (Member Json)) (key : List Char)
    (frames : List Frame) (tokens : List Token) :
    readOn? value (.object before key :: frames) (memberTokens members ++ .closeObject :: tokens) =
      readOn? (object ((⟨key, value⟩ :: before).reverse ++ members)) frames tokens := by
  match members with
  | [] =>
      rw [memberTokens, List.nil_append, readOn?, List.append_nil]
  | ⟨next, nextValue⟩ :: members =>
      have valueRead := readValue?_tokensOf nextValue
        (.object (⟨key, value⟩ :: before) next :: frames)
        (memberTokens members ++ .closeObject :: tokens)
      have membersRead :=
        readOn?_memberTokens members nextValue (⟨key, value⟩ :: before) next frames tokens
      simp only [memberTokens, List.cons_append, List.append_assoc]
      rw [readOn?, valueRead, membersRead]
      simp

end

section Tokens

variable {c : Char} {text after : List Char} {token : Token}

theorem tokens?_space
    (isBlank : isSpace c = true) (text : List Char) :
    tokens? (c :: text) = tokens? text := by
  rw [tokens?, if_pos isBlank]

theorem tokens?_spaces
    {blanks : List Char}
    (areSpaces : ∀ c ∈ blanks, isSpace c = true) (text : List Char) :
    tokens? (blanks ++ text) = tokens? text := by
  induction blanks with
  | nil =>
      rfl
  | cons c blanks inductionHypothesis =>
      obtain ⟨isBlank, othersAreSpaces⟩ := List.forall_mem_cons.mp areSpaces
      rw [List.cons_append, tokens?_space isBlank, inductionHypothesis othersAreSpaces]

theorem tokens?_token
    (notSpace : isSpace c = false)
    (isRead : readToken? (c :: text) = some (token, after)) :
    tokens? (c :: text) = (tokens? after).map (token :: ·) := by
  rw [tokens?, if_neg (Bool.eq_false_iff.mp notSpace)]
  split
  · next unread =>
      rw [isRead] at unread
      cases unread
  · next found =>
      rw [isRead] at found
      cases found
      rfl

theorem tokens?_openArray (text : List Char) :
    tokens? ('[' :: text) = (tokens? text).map (.openArray :: ·) :=
  tokens?_token rfl rfl

theorem tokens?_closeArray (text : List Char) :
    tokens? (']' :: text) = (tokens? text).map (.closeArray :: ·) :=
  tokens?_token rfl rfl

theorem tokens?_openObject (text : List Char) :
    tokens? ('{' :: text) = (tokens? text).map (.openObject :: ·) :=
  tokens?_token rfl rfl

theorem tokens?_closeObject (text : List Char) :
    tokens? ('}' :: text) = (tokens? text).map (.closeObject :: ·) :=
  tokens?_token rfl rfl

theorem tokens?_colon (text : List Char) :
    tokens? (':' :: text) = (tokens? text).map (.colon :: ·) :=
  tokens?_token rfl rfl

theorem tokens?_comma (text : List Char) :
    tokens? (',' :: text) = (tokens? text).map (.comma :: ·) :=
  tokens?_token rfl rfl

theorem tokens?_string
    {literal : List Char}
    (isLiteral : IsLiteral literal) (text : List Char) :
    tokens? ('"' :: (literal ++ '"' :: text)) = (tokens? text).map (.string literal :: ·) := by
  refine tokens?_token rfl ?_
  rw [readToken?, isLiteral]
  rfl

/-- Whether a text does not go on with a number. -/
def StopsNumber (text : List Char) : Prop :=
  ∀ c ∈ text.head?, isNumberChar c = false

theorem not_space_of_isNumberChar
    (isNumber : isNumberChar c = true) :
    isSpace c = false := by
  rw [Bool.eq_false_iff]
  intro isBlank
  simp only [isSpace, Bool.or_eq_true, beq_iff_eq] at isBlank
  obtain ((rfl | rfl) | rfl) | rfl := isBlank <;> cases isNumber

theorem readToken?_number
    (isNumber : isNumberChar c = true) (text : List Char) :
    readToken? (c :: text) =
      (readNumber? (c :: text)).map fun found => (.number found.1, found.2) := by
  -- All other tokens begin with a character that is in no number.
  unfold readToken?
  split
  case h_11 => rfl
  all_goals
    next equality =>
      cases equality
      cases isNumber

theorem tokens?_number
    {literal : List Char}
    (isNumber : IsNumber literal)
    (stops : StopsNumber text) :
    tokens? (literal ++ text) = (tokens? text).map (.number literal :: ·) := by
  obtain ⟨isWhole, areNumberChars⟩ := isNumber
  have isRead : readNumber? (literal ++ text) = some (literal, text) := by
    rw [readNumber?, takeWhile_run_append areNumberChars stops,
      dropWhile_run_append areNumberChars stops]
    exact if_pos isWhole
  cases literal with
  | nil =>
      cases isWhole
  | cons c literal =>
      have isNumberChar := areNumberChars c List.mem_cons_self
      rw [List.cons_append] at isRead ⊢
      refine tokens?_token (not_space_of_isNumberChar isNumberChar) ?_
      rw [readToken?_number isNumberChar, isRead]
      rfl

theorem stopsNumber_cons
    (notNumber : isNumberChar c = false) (text : List Char) :
    StopsNumber (c :: text) := by
  rintro _ ⟨⟩
  exact notNumber

theorem stopsNumber_spaces
    {blanks : List Char}
    (areSpaces : ∀ c ∈ blanks, isSpace c = true)
    (stops : StopsNumber text) :
    StopsNumber (blanks ++ text) := by
  cases blanks with
  | nil =>
      exact stops
  | cons c blanks =>
      refine stopsNumber_cons ?_ _
      rw [Bool.eq_false_iff]
      intro isNumber
      have isBlank := areSpaces c List.mem_cons_self
      rw [not_space_of_isNumberChar isNumber] at isBlank
      cases isBlank

end Tokens

/-! ## The text of a value -/

/-- Whether a layout adds nothing but spaces. -/
structure Spacing.IsBlank (spacing : Spacing) : Prop where
  newLine : ∀ level, ∀ c ∈ spacing.newLine level, isSpace c = true
  afterColon : ∀ c ∈ spacing.afterColon, isSpace c = true

theorem Spacing.isBlank_compact : compact.IsBlank where
  newLine _ := List.forall_mem_nil _
  afterColon := List.forall_mem_nil _

theorem Spacing.isBlank_pretty : pretty.IsBlank where
  newLine level := by
    refine List.forall_mem_cons.mpr ⟨rfl, ?_⟩
    intro c member
    rw [List.eq_of_mem_replicate member]
    rfl
  afterColon := List.forall_mem_singleton.mpr rfl

section Write

variable {spacing : Spacing}

theorem stopsNumber_writeItems
    {text : List Char}
    (level : Nat) (items : List Json)
    (stops : StopsNumber text) :
    StopsNumber (writeItems spacing level items ++ text) := by
  cases items with
  | nil => exact stops
  | cons => exact stopsNumber_cons rfl _

theorem stopsNumber_writeMembers
    {text : List Char}
    (level : Nat) (members : List (Member Json))
    (stops : StopsNumber text) :
    StopsNumber (writeMembers spacing level members ++ text) := by
  cases members with
  | nil => exact stops
  | cons => exact stopsNumber_cons rfl _

mutual

theorem tokens?_write
    (isBlank : spacing.IsBlank) (level : Nat) (value : Json)
    (hasLiterals : value.HasLiterals)
    {text : List Char}
    (stops : StopsNumber text) :
    tokens? (write spacing level value ++ text) =
      (tokens? text).map (tokensOf value ++ ·) := by
  match value with
  | null =>
      exact tokens?_token rfl rfl
  | bool true | bool false =>
      exact tokens?_token rfl rfl
  | number literal =>
      exact tokens?_number hasLiterals stops
  | string literal =>
      simp only [write, List.cons_append, List.append_assoc, List.nil_append]
      exact tokens?_string hasLiterals text
  | array [] =>
      rw [write, List.cons_append, List.singleton_append, tokens?_openArray, tokens?_closeArray,
        Option.map_map]
      rfl
  | array (item :: items) =>
      obtain ⟨itemHasLiterals, itemsHaveLiterals⟩ := hasLiterals
      have closes : StopsNumber (spacing.newLine level ++ ']' :: text) :=
        stopsNumber_spaces (isBlank.newLine level) (stopsNumber_cons rfl text)
      simp only [write, List.cons_append, List.append_assoc, List.nil_append]
      rw [tokens?_openArray, tokens?_spaces (isBlank.newLine _),
        tokens?_write isBlank (level + 1) item itemHasLiterals
          (stopsNumber_writeItems (level + 1) items closes),
        tokens?_writeItems isBlank (level + 1) items itemsHaveLiterals closes,
        tokens?_spaces (isBlank.newLine _), tokens?_closeArray]
      simp [tokensOf, Function.comp_def]
  | object [] =>
      rw [write, List.cons_append, List.singleton_append, tokens?_openObject, tokens?_closeObject,
        Option.map_map]
      rfl
  | object (⟨key, value⟩ :: members) =>
      obtain ⟨keyIsLiteral, valueHasLiterals, membersHaveLiterals⟩ := hasLiterals
      have closes : StopsNumber (spacing.newLine level ++ '}' :: text) :=
        stopsNumber_spaces (isBlank.newLine level) (stopsNumber_cons rfl text)
      simp only [write, List.cons_append, List.append_assoc, List.nil_append]
      rw [tokens?_openObject, tokens?_spaces (isBlank.newLine _), tokens?_string keyIsLiteral,
        tokens?_colon, tokens?_spaces isBlank.afterColon,
        tokens?_write isBlank (level + 1) value valueHasLiterals
          (stopsNumber_writeMembers (level + 1) members closes),
        tokens?_writeMembers isBlank (level + 1) members membersHaveLiterals closes,
        tokens?_spaces (isBlank.newLine _), tokens?_closeObject]
      simp [tokensOf, Function.comp_def]

theorem tokens?_writeItems
    (isBlank : spacing.IsBlank) (level : Nat) (items : List Json)
    (haveLiterals : itemsHaveLiterals items)
    {text : List Char}
    (stops : StopsNumber text) :
    tokens? (writeItems spacing level items ++ text) =
      (tokens? text).map (itemTokens items ++ ·) := by
  match items with
  | [] =>
      exact Option.map_id'.symm
  | item :: items =>
      obtain ⟨itemHasLiterals, itemsHaveLiterals⟩ := haveLiterals
      simp only [writeItems, List.cons_append, List.append_assoc]
      rw [tokens?_comma, tokens?_spaces (isBlank.newLine _),
        tokens?_write isBlank level item itemHasLiterals
          (stopsNumber_writeItems level items stops),
        tokens?_writeItems isBlank level items itemsHaveLiterals stops]
      simp [itemTokens, Function.comp_def]

theorem tokens?_writeMembers
    (isBlank : spacing.IsBlank) (level : Nat) (members : List (Member Json))
    (haveLiterals : membersHaveLiterals members)
    {text : List Char}
    (stops : StopsNumber text) :
    tokens? (writeMembers spacing level members ++ text) =
      (tokens? text).map (memberTokens members ++ ·) := by
  match members with
  | [] =>
      exact Option.map_id'.symm
  | ⟨key, value⟩ :: members =>
      obtain ⟨keyIsLiteral, valueHasLiterals, membersHaveLiterals⟩ := haveLiterals
      simp only [writeMembers, List.cons_append, List.append_assoc]
      rw [tokens?_comma, tokens?_spaces (isBlank.newLine _), tokens?_string keyIsLiteral,
        tokens?_colon, tokens?_spaces isBlank.afterColon,
        tokens?_write isBlank level value valueHasLiterals
          (stopsNumber_writeMembers level members stops),
        tokens?_writeMembers isBlank level members membersHaveLiterals stops]
      simp [memberTokens, Function.comp_def]

end

/-- A value is read back from its text, in any layout that only adds spaces. -/
theorem ofText?_toText
    (isBlank : spacing.IsBlank)
    {value : Json}
    (hasLiterals : value.HasLiterals) :
    ofText? (value.toText spacing) = some value := by
  have stops : StopsNumber [] := nofun
  have tokenized := tokens?_write isBlank 0 value hasLiterals stops
  have valueRead := readValue?_tokensOf value [] []
  rw [List.append_nil] at tokenized valueRead
  rw [ofText?, toText, String.toList_ofList, tokenized, tokens?]
  simp only [Option.map_some, List.append_nil, Option.bind_eq_bind, Option.bind_some]
  rw [valueRead]
  rfl

end Write

end MessagePattern.Json
