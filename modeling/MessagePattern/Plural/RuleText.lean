import MessagePattern.Json.Value
import MessagePattern.Plural.Rules

/-!
Tables of plural rules as JSON text: an object of locales, each with the categories of its two kinds
of plural.
-/

namespace MessagePattern.Plural

/-! ## Reading -/

/-- The categories that a value lists; a field that is not given lists none. -/
def categoriesOfJson? : Option Json → Option (List String)
  | none => some []
  | some value => value.texts?

def LocaleRules.ofJson? (value : Json) : Option LocaleRules := do
  match ← value.fields? ["cardinal", "ordinal"] 0 with
  | [cardinal, ordinal] => return ⟨← categoriesOfJson? cardinal, ← categoriesOfJson? ordinal⟩
  | _ => none

/-- The order of locales in which a table is built. -/
def entryLe (left right : String × LocaleRules) : Bool :=
  left.1 ≤ right.1

/-- The table of named rules, whatever their order: names are taken in alphabetical order, and of
several names of one locale the last counts. -/
def RuleTable.ofEntries (entries : List (String × LocaleRules)) : RuleTable :=
  .ofList (entries.mergeSort entryLe)

/-- The table that a value stands for. A name that is given again replaces its rules. -/
def RuleTable.ofJson? (value : Json) : Option RuleTable := do
  let members ← value.members?
  let entries ← members.mapM fun (name, rules) => return (name, ← LocaleRules.ofJson? rules)
  return .ofEntries <|
    entries.foldl (fun entries entry => RuleTable.setEntry entry.1 entry.2 entries) []

def RuleTable.ofText? (content : String) : Option RuleTable := do
  RuleTable.ofJson? (← Json.ofText? content)

end MessagePattern.Plural
