import MessagePattern.Layout.Quoting
import MessagePattern.Proofs.Message.WellFormed

/-!
# The grammar of patterns

Which text stands for which message, said without a reader. A production puts together the text of
its parts; where it depends on what comes after, it looks at one character, `next`, which is `none`
at the end of the pattern.
-/

namespace MessagePattern.Grammar

open Layout Pattern

/-- A row of parts with the value that they make up together. `next` follows the last of them. -/
inductive Row (Part : Option Char → List Char → List Char → Prop) (next : Option Char) :
    List Char → List Char → Prop
  | nil :
      Row Part next [] []
  | cons {part value source values : List Char} :
      Part (source.head?.or next) part value →
      Row Part next source values →
      Row Part next (part ++ source) (value ++ values)

/-- The parts of literal text, and what they stand for. -/
inductive TextPart (context : Context) (next : Option Char) :
    List Char → List Char → Prop
  | char {c : Char} :
      c ≠ '\'' →
      context.isSyntax c = false →
      TextPart context next [c] [c]
  | doubled :
      TextPart context next ['\'', '\''] ['\'']
  | lone :
      (∀ c ∈ next, c ≠ '\'' ∧ context.isSyntax c = false) →
      TextPart context next ['\''] ['\'']
  | quoted {c : Char} {content : List Char} :
      context.isSyntax c = true →
      next ≠ some '\'' →
      TextPart context next ('\'' :: doubleApostrophes (c :: content) ++ ['\'']) (c :: content)

/-- The parts of a style, and what they stand for. -/
inductive StylePart (next : Option Char) :
    List Char → List Char → Prop
  | char {c : Char} :
      c ≠ '\'' →
      c ≠ '{' →
      c ≠ '}' →
      StylePart next [c] [c]
  | doubled :
      StylePart next ['\'', '\''] ['\'']
  | quoted {c : Char} {content : List Char} :
      c ≠ '\'' →
      next ≠ some '\'' →
      StylePart next ('\'' :: doubleApostrophes (c :: content) ++ ['\'']) (c :: content)

/-- A style between blanks, in front of the closing brace of its placeholder. -/
inductive StyleForm : List Char → String → Prop
  | mk {before source after : List Char} {style : String} :
      AllBlank before →
      Trimmed source →
      Row StylePart (after ++ ['}']).head? source style.toList →
      AllBlank after →
      StyleForm (before ++ source ++ after) style

/-- A word between blanks. -/
inductive Padded (isWordChar : Char → Bool) (word : String) : List Char → Prop
  | mk {before after : List Char} :
      AllBlank before →
      IsWord isWordChar word →
      AllBlank after →
      Padded isWordChar word (before ++ word.toList ++ after)

/-- Whether a text begins as an offset clause does. -/
def BeginsOffset (text : List Char) : Prop :=
  ∃ blanks digit rest,
    AllBlank blanks ∧
      digit.isDigit = true ∧
      text = offsetMark ++ blanks ++ digit :: rest

/-- What may stand in front of the branches of a plural, and the offset that it gives. -/
inductive OffsetForm (branches : List Char) : List Char → UInt32 → Prop
  | absent {blanks : List Char} :
      AllBlank blanks →
      ¬ BeginsOffset branches →
      OffsetForm branches blanks 0
  | present {before inside digits after : List Char} :
      AllBlank before →
      AllBlank inside →
      digits ≠ [] →
      (∀ c ∈ digits, c.isDigit = true) →
      digitsValue digits < UInt32.size →
      AllBlank after →
      (∀ c ∈ (after ++ branches).head?, c.isDigit = false) →
      OffsetForm branches (before ++ offsetMark ++ inside ++ digits ++ after)
        (.ofNat (digitsValue digits))

/-- What a text can stand for. -/
inductive Phrase where
  /-- A message in a context, up to the character `next`. -/
  | message (context : Context) (next : Option Char) (message : Message)
  /-- A placeholder in its braces. -/
  | placeholder (node : Node)
  /-- Branches, whose messages stand in the given context. -/
  | branches (context : Context) (branches : Branches)

/-- The text derives the phrase. -/
inductive Derives : List Char → Phrase → Prop
  | empty {context : Context} {next : Option Char} :
      Derives [] (.message context next [])
  | text {context : Context} {next : Option Char}
      {source rest : List Char} {content : String} {nodes : Message} :
      source ≠ [] →
      Row (TextPart context) (rest.head?.or next) source content.toList →
      -- Text goes on up to a syntax character.
      (∀ c ∈ rest.head?.or next, context.isSyntax c = true) →
      Derives rest (.message context next nodes) →
      Derives (source ++ rest) (.message context next (.text content :: nodes))
  | number {next : Option Char} {rest : List Char} {nodes : Message} :
      Derives rest (.message .counted next nodes) →
      Derives ('#' :: rest) (.message .counted next (.number :: nodes))
  | placeholder {context : Context} {next : Option Char}
      {source rest : List Char} {node : Node} {nodes : Message} :
      Derives source (.placeholder node) →
      Derives rest (.message context next nodes) →
      Derives (source ++ rest) (.message context next (node :: nodes))
  | argument {keySource : List Char} {key : String} :
      Padded isTokenChar key keySource →
      Derives ('{' :: keySource ++ ['}']) (.placeholder (.argument key))
  | unstyled {keySource typeSource : List Char} {key type : String} :
      Padded isTokenChar key keySource →
      Padded isTokenChar type typeSource →
      TakesStyle type →
      Derives ('{' :: keySource ++ ',' :: typeSource ++ ['}'])
        (.placeholder (.styled key type none))
  | styled {keySource typeSource styleSource : List Char} {key type style : String} :
      Padded isTokenChar key keySource →
      Padded isTokenChar type typeSource →
      TakesStyle type →
      StyleForm styleSource style →
      Derives ('{' :: keySource ++ ',' :: typeSource ++ ',' :: styleSource ++ ['}'])
        (.placeholder (.styled key type (if style = "" then none else some style)))
  | choice {keySource typeSource blanks source : List Char} {key : String}
      {cases : Branches} :
      Padded isTokenChar key keySource →
      Padded isTokenChar "select" typeSource →
      AllBlank blanks →
      Derives source (.branches .plain cases) →
      cases ≠ [] →
      (cases.map Branch.selector).Nodup →
      Derives ('{' :: keySource ++ ',' :: typeSource ++ ',' :: blanks ++ source ++ ['}'])
        (.placeholder (.choice key "select" cases))
  | plural {keySource typeSource clause source : List Char} {key : String}
      {kind : PluralKind} {offset : UInt32} {branches : Branches} :
      Padded isTokenChar key keySource →
      Padded isTokenChar kind.typeName typeSource →
      OffsetForm source clause offset →
      Derives source (.branches .counted branches) →
      branches ≠ [] →
      (branches.map Branch.selector).Nodup →
      Derives ('{' :: keySource ++ ',' :: typeSource ++ ',' :: clause ++ source ++ ['}'])
        (.placeholder (.plural key kind offset branches))
  | noBranch {context : Context} :
      Derives [] (.branches context [])
  | branch {context : Context} {before body after rest : List Char} {selector : String}
      {message : Message} {branches : Branches} :
      IsWord isSelectorChar selector →
      AllBlank before →
      Derives body (.message context (some '}') message) →
      AllBlank after →
      Derives rest (.branches context branches) →
      Derives (selector.toList ++ before ++ '{' :: body ++ '}' :: after ++ rest)
        (.branches context (⟨selector, message⟩ :: branches))

/-- The pattern stands for the message. -/
def Denotes (pattern : String) (message : Message) : Prop :=
  Derives pattern.toList (.message .plain none message)

end MessagePattern.Grammar
