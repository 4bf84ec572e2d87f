import MessagePattern.Plural.Keywords
import MessagePattern.Plural.Rules

/-!
Checking the plurals of a message against the rules of a locale.
-/

namespace MessagePattern.Plural

/-! ## Findings -/

/-- A selector that the rules of a locale never choose. -/
structure Finding where
  locale : String
  keyword : String
  kind : PluralKind
  deriving DecidableEq, Repr

def Finding.message (finding : Finding) : String :=
  finding.locale ++ " has no \"" ++ finding.keyword ++ "\" " ++
    (match finding.kind with
      | .cardinal => "cardinal"
      | .ordinal => "ordinal") ++ " plural rule"

/-- Whether a selector can be chosen in every locale: the general case, or an exact number. -/
def isAlwaysValid (keyword : String) : Bool :=
  keyword == "other" || keyword.toList.head? == some '='

/-! ## Checking -/

def findingsOfKind (rules : LocaleRules) (locale : String) (kind : PluralKind)
    (keywords : List String) : List Finding :=
  (keywords.filter fun keyword => !(isAlwaysValid keyword || rules.defines kind keyword)).map
    fun keyword => ⟨locale, keyword, kind⟩

/-- The findings in a message, those on counts first; none if nothing is known of the locale. -/
def check (message : Message) (locale : String) (table : RuleTable) : List Finding :=
  match table.rules? locale with
  | none => []
  | some rules =>
    let found := keywords message
    findingsOfKind rules locale .cardinal found.cardinal ++
      findingsOfKind rules locale .ordinal found.ordinal

def checkLog (locale : String) (table : RuleTable) : List String :=
  match table.rules? locale with
  | none => ["No plural rules for locale " ++ locale]
  | some _ => []

end MessagePattern.Plural
