import Clarify.Naming.Origin
import Std.Data.TreeMap

/-!
# The mapping of old names to new ones

A table from old names to new names, each with the origin it came from. An automatic entry never
replaces one that is there; a manual one always does. Beside the entries the table counts, for
each new name, the old names that map to it.

Results:
* `get?_insertIfAbsent`, `get?_override`: what each operation does to every key.
-/

namespace Clarify

/-- A new name and its origin (`MappingEntry`). -/
structure Entry where
  newName : String
  origin : Origin
deriving Repr, DecidableEq

/-- The table of old and new names (`Table`). -/
structure Mapping where
  entries : Std.TreeMap String Entry
  /-- For each new name in use, how many old names map to it. -/
  targets : Std.TreeMap String Nat

namespace Mapping

/-- The table without entries (`MappingStore::new`). -/
def empty : Mapping := ⟨∅, ∅⟩

/-- The entry of an old name (`MappingStore::get`). -/
def get? (m : Mapping) (old : String) : Option Entry := m.entries[old]?

/-- The new name of an old one (`MappingStore::resolve`). -/
def resolve? (m : Mapping) (old : String) : Option String := (m.get? old).map Entry.newName

/-- Whether some old name maps to the given one (`MappingStore::is_target`). -/
def isTarget (m : Mapping) (name : String) : Bool := m.targets.contains name

/-- The number of entries (`MappingStore::len`). -/
def size (m : Mapping) : Nat := m.entries.size

/-- Whether there is no entry (`MappingStore::is_empty`). -/
def isEmpty (m : Mapping) : Bool := m.entries.isEmpty

/-- All entries, ordered by old name (`MappingStore::snapshot`). -/
def toList (m : Mapping) : List (String × Entry) := m.entries.toList

/-- One old name less for a new name; a name that none is left for is forgotten (part of
`Table::put`). -/
def release (targets : Std.TreeMap String Nat) (name : String) : Std.TreeMap String Nat :=
  match targets[name]? with
  | some (n + 2) => targets.insert name (n + 1)
  | _ => targets.erase name

/-- One old name more for a new name (part of `Table::put`). -/
def claim (targets : Std.TreeMap String Nat) (name : String) : Std.TreeMap String Nat :=
  targets.insert name ((targets[name]?).getD 0 + 1)

/-- The table with `entry` for `old`, whatever was there. -/
def put (m : Mapping) (old : String) (entry : Entry) : Mapping :=
  let released := match m.get? old with
    | some before => release m.targets before.newName
    | none => m.targets
  { entries := m.entries.insert old entry, targets := claim released entry.newName }

/-- Adds an entry unless the old name has one; tells the entry that is in force afterwards
(`MappingStore::insert_if_absent`). -/
def insertIfAbsent (m : Mapping) (old new : String) (origin : Origin) : Entry × Mapping :=
  match m.get? old with
  | some entry => (entry, m)
  | none => (⟨new, origin⟩, m.put old ⟨new, origin⟩)

/-- Sets a manual entry in place of whatever was there (`MappingStore::set_override`). -/
def override (m : Mapping) (old new : String) : Mapping := m.put old ⟨new, .manual⟩

/-- Takes over a stored entry: a manual one overrides, any other yields (part of
`MappingStore::load_from_db`). -/
def load (m : Mapping) (old new : String) (origin : Origin) : Mapping :=
  match origin with
  | .manual => m.override old new
  | origin => (m.insertIfAbsent old new origin).2

/-- The entries that every project begins with (`DEFAULT_DICTIONARY`). -/
def dictionary : List (String × String) := [
  ("zov", "isCritActive"),
  ("pisun", "isAttackActive"),
  ("vodka", "targetEntity"),
  ("forft", "unusedMethod")]

/-- The table of the dictionary (`MappingStore::with_defaults`). -/
def withDictionary : Mapping :=
  dictionary.foldl (fun m (old, new) => (m.insertIfAbsent old new .dictionary).2) empty

/-! ## What the operations do to the entries -/

theorem get?_put (m : Mapping) (old key : String) (entry : Entry) :
    (m.put old entry).get? key = if old = key then some entry else m.get? key := by
  simp [put, get?, Std.TreeMap.getElem?_insert]

theorem get?_override (m : Mapping) (old new key : String) :
    (m.override old new).get? key = if old = key then some ⟨new, .manual⟩ else m.get? key :=
  get?_put ..

theorem get?_insertIfAbsent (m : Mapping) (old new key : String) (origin : Origin) :
    (m.insertIfAbsent old new origin).2.get? key =
      if old = key then some ((m.get? old).getD ⟨new, origin⟩) else m.get? key := by
  unfold insertIfAbsent
  split
  · next entry h =>
    by_cases same : old = key
    · simp [← same, h]
    · simp [same]
  · next h => simp [get?_put, h]

theorem insertIfAbsent_fst (m : Mapping) (old new : String) (origin : Origin) :
    (m.insertIfAbsent old new origin).1 = (m.get? old).getD ⟨new, origin⟩ := by
  unfold insertIfAbsent
  split <;> next h => simp [h]

end Mapping

end Clarify
