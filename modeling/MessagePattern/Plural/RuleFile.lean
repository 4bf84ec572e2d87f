import MessagePattern.Plural.RuleText
import MessagePattern.Source.Access

/-!
Tables of plural rules in files.
-/

namespace MessagePattern.Plural

/-- Why there is no table of rules. -/
inductive RulesError where
  | unreadable (file details : String)
  | malformed
  deriving DecidableEq, Repr

def RulesError.message : RulesError → String
  | unreadable file details => "Failed reading plural rules: " ++ file ++ ": " ++ details
  | malformed => "Invalid plural rules: the text is not a table of categories by locale"

/-- The table that JSON text stands for, or the error that it stands for none. -/
def RuleTable.ofText (content : String) : Except RulesError RuleTable :=
  match RuleTable.ofText? content with
  | some table => .ok table
  | none => .error .malformed

def RuleTable.load (surroundings : Source.Surroundings) (file : String) :
    Except RulesError RuleTable :=
  match surroundings.readText file with
  | .ok content => RuleTable.ofText content
  | .error failure => .error (.unreadable file failure.description)

def RuleTable.loadLog (table : RuleTable) (file : String) : String :=
  "Loaded plural rules for " ++ toString table.size ++ " locales from " ++ file

end MessagePattern.Plural
