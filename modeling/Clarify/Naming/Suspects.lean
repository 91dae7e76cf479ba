import Std.Data.TreeSet

/-!
# Suspects

The names of methods known to be junk.
-/

namespace Clarify

/-- A set of method names (`SuspectSet`). -/
structure Suspects where
  names : Std.TreeSet String

namespace Suspects

/-- No suspects (`SuspectSet::new`). -/
def empty : Suspects := ⟨∅⟩

/-- Whether a name is suspect. -/
def contains (s : Suspects) (name : String) : Bool := s.names.contains name

/-- The set with another name. -/
def insert (s : Suspects) (name : String) : Suspects := ⟨s.names.insert name⟩

/-- The set with more names (`SuspectSet::extend`). -/
def insertAll (s : Suspects) (names : List String) : Suspects := names.foldl insert s

/-- The number of names (`SuspectSet::len`). -/
def size (s : Suspects) : Nat := s.names.size

/-- Whether there is no name (`SuspectSet::is_empty`). -/
def isEmpty (s : Suspects) : Bool := s.names.isEmpty

/-- The names in order (`SuspectSet::iter`). -/
def toList (s : Suspects) : List String := s.names.toList

/-- The names that are suspect in every project (`DEFAULT_SUSPECTS`). -/
def builtIn : List String := ["unusedMethod"]

/-- The suspects of every project (`SuspectSet::with_defaults`). -/
def withBuiltIn : Suspects := empty.insertAll builtIn

end Suspects

end Clarify
