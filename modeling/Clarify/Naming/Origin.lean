import Clarify.Text.Case

/-!
# Origins

Where an entry of the mapping comes from, and the words for it.

Results:
* `ofText?_word`: the word of an origin is read back.
-/

namespace Clarify

/-- Where an entry comes from (`MappingOrigin`). -/
inductive Origin where
  | dictionary
  | manual
  | predicted
deriving Repr, DecidableEq

/-- The word for an origin (`MappingOrigin::as_str`). -/
def Origin.word : Origin → String
  | .dictionary => "dictionary"
  | .manual => "manual"
  | .predicted => "predicted"

namespace Origin

/-- Every origin. -/
def all : List Origin := [dictionary, manual, predicted]

/-- The origin that a text names, in whatever case (`MappingOrigin::from_str`). -/
def ofText? (text : String) : Option Origin :=
  let word := Text.lowerCase text
  all.find? fun o => o.word == word

/-- The wording for a text that names no origin. -/
def unknownMessage (text : String) : String :=
  "unknown mapping origin '" ++ Text.lowerCase text ++ "'"

theorem ofText?_word (o : Origin) : ofText? o.word = some o := by
  cases o <;> rfl

end Origin

end Clarify
