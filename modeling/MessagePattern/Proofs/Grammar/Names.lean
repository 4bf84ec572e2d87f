import MessagePattern.Proofs.Grammar.Recognition

/-!
# Names in a pattern

The keys and types of a message are words that stand in its pattern, each as long as its characters
go on. A number sign is one of these characters, also where it stands for a number in text.
-/

namespace MessagePattern.Grammar

open Pattern

/-- The key and the type of a placeholder, as far as it has them. -/
def nodeNames : Node → List String
  | .text _ | .number => []
  | .argument key => [key]
  | .styled key type _ | .choice key type _ => [key, type]
  | .plural key kind _ _ => [key, kind.typeName]

def nodeBranches : Node → Branches
  | .choice _ _ branches | .plural _ _ _ branches => branches
  | .text _ | .argument _ | .number | .styled _ _ _ => []

/-- Whether a name is a key or a type of a placeholder, at any depth of a message. -/
inductive Names (name : String) : Message → Prop
  | here {message : Message} {node : Node} :
      node ∈ message → name ∈ nodeNames node → Names name message
  | inBranch {message : Message} {node : Node} {branch : Branch Message} :
      node ∈ message → branch ∈ nodeBranches node → Names name branch.message →
        Names name message

/-- Whether a name is one of a node or of what is in its branches. -/
def NamesIn (name : String) (node : Node) : Prop :=
  name ∈ nodeNames node ∨ ∃ branch ∈ nodeBranches node, Names name branch.message

theorem names_iff {name : String} {message : Message} :
    Names name message ↔ ∃ node ∈ message, NamesIn name node := by
  constructor
  · rintro (⟨isNode, isName⟩ | ⟨isNode, isBranch, names⟩)
    · exact ⟨_, isNode, Or.inl isName⟩
    · exact ⟨_, isNode, Or.inr ⟨_, isBranch, names⟩⟩
  · rintro ⟨node, isNode, isName | ⟨branch, isBranch, names⟩⟩
    · exact .here isNode isName
    · exact .inBranch isNode isBranch names

theorem names_cons_iff {name : String} {node : Node} {nodes : Message} :
    Names name (node :: nodes) ↔ NamesIn name node ∨ Names name nodes := by
  simp only [names_iff, List.mem_cons, exists_eq_or_imp]

/-- Whether a word of a class stands in a text between characters that are not of the class. -/
def IsWholeRun (isInside : Char → Bool) (word : String) (text : List Char) : Prop :=
  IsWord isInside word ∧
    ∃ before after,
      text = before ++ word.toList ++ after ∧
        (∃ c ∈ before.getLast?, isInside c = false) ∧
        ∃ c ∈ after.head?, isInside c = false

theorem IsWholeRun.append
    {isInside : Char → Bool} {word : String} {text : List Char}
    (isWholeRun : IsWholeRun isInside word text) (left right : List Char) :
    IsWholeRun isInside word (left ++ text ++ right) := by
  obtain ⟨isWord, before, after, rfl, ⟨c, last, cOutside⟩, first⟩ := isWholeRun
  refine ⟨isWord, left ++ before, after ++ right, by simp, ⟨c, ?_, cOutside⟩,
    first_append first right⟩
  rw [List.getLast?_append, Option.mem_def.mp last]
  rfl

/-- A name between blanks stands alone between any two signs that are not of names. -/
theorem isWholeRun_of_padded
    {name : String} {source : List Char} {c d : Char}
    (padded : Padded isTokenChar name source)
    (cOutside : isTokenChar c = false)
    (dOutside : isTokenChar d = false) :
    IsWholeRun isTokenChar name ([c] ++ source ++ [d]) := by
  obtain ⟨beforeBlank, isWord, afterBlank⟩ := padded
  rename_i before after
  refine ⟨isWord, c :: before, after ++ [d], by simp, ?_, ?_⟩
  · cases last : before.getLast? with
    | none =>
        exact ⟨c, by simp [List.getLast?_cons, last], cOutside⟩
    | some e =>
        have blank := beforeBlank e (List.mem_of_mem_getLast? last)
        exact ⟨e, by simp [List.getLast?_cons, last], isTokenChar_of_isBlank blank⟩
  · cases after with
    | nil =>
        exact ⟨d, rfl, dOutside⟩
    | cons e after =>
        exact ⟨e, rfl, isTokenChar_of_isBlank (afterBlank e List.mem_cons_self)⟩

/-- Key and type stand alone at the front of a placeholder. -/
theorem isWholeRun_of_head
    {key type name : String} {keySource typeSource : List Char} {d : Char}
    (keyPadded : Padded isTokenChar key keySource)
    (typePadded : Padded isTokenChar type typeSource)
    (dOutside : isTokenChar d = false)
    (rest : List Char)
    (isName : name ∈ [key, type]) :
    IsWholeRun isTokenChar name ('{' :: keySource ++ ',' :: typeSource ++ d :: rest) := by
  have braceOutside : isTokenChar '{' = false := by decide
  have commaOutside : isTokenChar ',' = false := by decide
  rw [List.mem_cons, List.mem_singleton] at isName
  rcases isName with rfl | rfl
  · have stands := isWholeRun_of_padded keyPadded braceOutside commaOutside
    simpa using stands.append [] (typeSource ++ d :: rest)
  · have stands := isWholeRun_of_padded typePadded commaOutside dOutside
    simpa using stands.append ('{' :: keySource) rest

def Phrase.HasName (name : String) : Phrase → Prop
  | .message _ _ nodes => Names name nodes
  | .placeholder node => NamesIn name node
  | .branches _ entries => ∃ branch ∈ entries, Names name branch.message

/-- The names of a phrase are whole runs of the text that derives it. -/
theorem Derives.isWholeRun
    {source : List Char} {phrase : Phrase} {name : String}
    (derived : Derives source phrase)
    (hasName : phrase.HasName name) :
    IsWholeRun isTokenChar name source := by
  induction derived with
  | empty =>
      obtain ⟨_, isNode, _⟩ := names_iff.mp hasName
      cases isNode
  | @text _ _ source _ _ _ _ _ _ _ inNodes =>
      rcases names_cons_iff.mp hasName with isName | names
      · simp [NamesIn, nodeNames, nodeBranches] at isName
      · simpa using (inNodes names).append source []
  | number _ inNodes =>
      rcases names_cons_iff.mp hasName with isName | names
      · simp [NamesIn, nodeNames, nodeBranches] at isName
      · simpa using (inNodes names).append ['#'] []
  | @placeholder _ _ source rest _ _ _ _ inNode inNodes =>
      rcases names_cons_iff.mp hasName with isName | names
      · simpa using (inNode isName).append [] rest
      · simpa using (inNodes names).append source []
  | argument keyPadded =>
      have isName := hasName.resolve_right (by simp [nodeBranches])
      obtain rfl := List.mem_singleton.mp isName
      exact isWholeRun_of_padded keyPadded (by decide) (by decide)
  | unstyled keyPadded typePadded _ =>
      have isName := hasName.resolve_right (by simp [nodeBranches])
      exact isWholeRun_of_head keyPadded typePadded (by decide) [] isName
  | @styled _ _ styleSource _ _ _ keyPadded typePadded _ _ =>
      have isName := hasName.resolve_right (by simp [nodeBranches])
      have stands :=
        isWholeRun_of_head keyPadded typePadded (d := ',') (by decide) (styleSource ++ ['}']) isName
      simpa using stands
  | @choice keySource typeSource blanks source _ _ keyPadded typePadded _ _ _ _ inCases =>
      rcases hasName with isName | inBranch
      · have stands :=
          isWholeRun_of_head keyPadded typePadded (d := ',') (by decide)
            (blanks ++ source ++ ['}']) isName
        simpa using stands
      · have stands :=
          (inCases inBranch).append ('{' :: keySource ++ ',' :: typeSource ++ ',' :: blanks) ['}']
        simpa using stands
  | @plural keySource typeSource clause source _ _ _ _ keyPadded typePadded _ _ _ _ inBranches =>
      rcases hasName with isName | inBranch
      · have stands :=
          isWholeRun_of_head keyPadded typePadded (d := ',') (by decide)
            (clause ++ source ++ ['}']) isName
        simpa using stands
      · have stands :=
          (inBranches inBranch).append ('{' :: keySource ++ ',' :: typeSource ++ ',' :: clause) ['}']
        simpa using stands
  | noBranch =>
      obtain ⟨_, isBranch, _⟩ := hasName
      cases isBranch
  | @branch _ before body after rest selector _ _ _ _ _ _ _ inBody inRest =>
      obtain ⟨branch, isBranch, names⟩ := hasName
      rcases List.mem_cons.mp isBranch with rfl | isOther
      · have stands :=
          (inBody names).append (selector.toList ++ before ++ ['{']) ('}' :: after ++ rest)
        simpa using stands
      · have stands :=
          (inRest ⟨branch, isOther, names⟩).append
            (selector.toList ++ before ++ '{' :: body ++ '}' :: after) []
        simpa using stands

/-- A word of the class of names is the key of a pattern that consists of it and two braces. -/
theorem parse_argument
    {name : String}
    (isWord : IsWord isTokenChar name) :
    parse ("\x7b" ++ name ++ "\x7d") = .ok [.argument name] := by
  have padded : Padded isTokenChar name ([] ++ name.toList ++ []) :=
    .mk allBlank_nil isWord allBlank_nil
  have empty : Derives [] (.message .plain none []) := .empty
  apply parse_of_denotes
  simpa [Denotes] using (Derives.argument padded).placeholder empty

/-- The characters of names that stand for nothing else in a pattern. -/
def isNameChar (c : Char) : Bool :=
  !(isBlank c || c == ',' || c == '{' || c == '}' || c == '#')

theorem isWord_isNameChar_iff
    {name : String}
    (isWord : IsWord isTokenChar name) :
    IsWord isNameChar name ↔ '#' ∉ name.toList := by
  constructor
  · intro isName isMember
    have isNameChar := isName.inside '#' isMember
    revert isNameChar
    decide
  · refine fun noSign => ⟨isWord.nonempty, fun c member => ?_⟩
    have isToken := isWord.inside c member
    have notSign : c ≠ '#' := by
      rintro rfl
      exact noSign member
    simpa [isTokenChar, isNameChar, notSign] using isToken

/-- Any row of characters other than blanks, commas and braces can be a key or a type, and nothing
else can. -/
theorem exists_parse_names_iff {name : String} :
    (∃ pattern message, parse pattern = .ok message ∧ Names name message) ↔
      IsWord isTokenChar name := by
  constructor
  · rintro ⟨pattern, message, parsed, names⟩
    exact (Derives.isWholeRun (denotes_of_parse parsed) names).1
  · intro isWord
    exact ⟨_, _, parse_argument isWord, .here List.mem_cons_self List.mem_cons_self⟩

/-- The keys and types of a message are whole runs of such characters in its pattern. So names that
have no number sign are those of the messages without a number sign in a key or type. -/
theorem names_of_parse
    {pattern : String} {message : Message}
    (parsed : parse pattern = .ok message) :
    (∀ name, Names name message → IsWholeRun isTokenChar name pattern.toList) ∧
      ((∀ name, Names name message → IsWord isNameChar name) ↔
        ∀ name, Names name message → '#' ∉ name.toList) := by
  have standsIn : ∀ name, Names name message → IsWholeRun isTokenChar name pattern.toList :=
    fun _ names => Derives.isWholeRun (denotes_of_parse parsed) names
  refine ⟨standsIn, forall_congr' fun name => imp_congr_right fun names => ?_⟩
  exact isWord_isNameChar_iff (standsIn name names).1

/-- Keys with number signs in the branches of a plural, next to a style, which is none of the
names. -/
def signedKeys : String :=
  "\x7bn, plural, one\x7b\x7b#\x7d\x7d other\x7b\x7bd#1,date,#\x7d\x7d\x7d"

def signedKeysMessage : Message :=
  [.plural "n" .cardinal 0
    [⟨"one", [.argument "#"]⟩, ⟨"other", [.styled "d#1" "date" (some "#")]⟩]]

theorem names_of_parse_signed_keys :
    parse signedKeys = .ok signedKeysMessage ∧
      (∀ name,
        Names name signedKeysMessage → IsWholeRun isTokenChar name signedKeys.toList) ∧
      ¬ ∀ name, Names name signedKeysMessage → IsWord isNameChar name := by
  have parsed : parse signedKeys = .ok signedKeysMessage := by
    with_unfolding_all rfl
  have hasSign : Names "#" signedKeysMessage :=
    .inBranch List.mem_cons_self List.mem_cons_self (.here List.mem_cons_self List.mem_cons_self)
  obtain ⟨areWholeRuns, allNames_iff⟩ := names_of_parse parsed
  refine ⟨parsed, areWholeRuns, ?_⟩
  intro allNames
  exact allNames_iff.mp allNames "#" hasSign (by decide)

/-- A number sign alone is read as a key. -/
theorem parse_keeps_number_sign :
    parse "\x7b#\x7d" = .ok [.argument "#"] ∧
      Names "#" [.argument "#"] ∧
      ¬ IsWord isNameChar "#" := by
  refine ⟨?_, .here List.mem_cons_self List.mem_cons_self, by decide⟩
  with_unfolding_all rfl

end MessagePattern.Grammar
