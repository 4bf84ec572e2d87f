import MessagePattern.Plural.Rules

/-!
Plural rules of common locales.
-/

namespace MessagePattern.Plural

/-- All the categories there are. -/
def allCategories : List String := ["zero", "one", "two", "few", "many", "other"]

/-- The rules for use without a table of one's own. -/
def RuleTable.builtin : RuleTable := .ofList
  [("ar", ⟨allCategories, ["other"]⟩),
    ("cy", ⟨allCategories, allCategories⟩),
    ("de", ⟨["one", "other"], ["other"]⟩),
    ("en", ⟨["one", "other"], ["one", "two", "few", "other"]⟩),
    ("es", ⟨["one", "many", "other"], ["other"]⟩),
    ("fr", ⟨["one", "many", "other"], ["one", "other"]⟩),
    ("it", ⟨["one", "many", "other"], ["many", "other"]⟩),
    ("ja", ⟨["other"], ["other"]⟩),
    ("pl", ⟨["one", "few", "many", "other"], ["other"]⟩),
    ("pt", ⟨["one", "many", "other"], ["other"]⟩),
    ("ru", ⟨["one", "few", "many", "other"], ["other"]⟩),
    ("zh", ⟨["other"], ["other"]⟩)]

end MessagePattern.Plural
