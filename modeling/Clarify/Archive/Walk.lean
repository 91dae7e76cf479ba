import Clarify.Archive.Container

/-!
# Walking through an archive

A run visits the entries of an archive in order and reads the bytecode units among them; all
other entries are only named. An entry that cannot even be opened is reported by its number, one
with bad contents by its name.

Results:
* `length_walk`: every entry is visited.
-/

namespace Clarify

/-- An entry that was visited, with its contents if it is a bytecode unit (`ArchiveEntry`). -/
structure VisitedEntry where
  index : Nat
  name : String
  kind : EntryKind
  bytes : Bytes
deriving Repr, DecidableEq

/-- An entry that could not be read, and the name that it is reported by (`EntryReadError`). -/
structure UnreadableEntry where
  index : Nat
  name : String
  cause : EntryError
deriving Repr, DecidableEq

namespace Archive

/-- Visits an entry (`ArchiveWalker::read_entry`). -/
def Entry.visit (e : Entry) (index : Nat) : Except UnreadableEntry VisitedEntry :=
  match e.obstacle? with
  | some cause => .error { index, name := s!"#{index}", cause }
  | none =>
    if e.kind = .bytecodeUnit then
      match e.unpacked with
      | .ok bytes => .ok { index, name := e.name, kind := e.kind, bytes }
      | .error cause => .error { index, name := e.name, cause }
    else .ok { index, name := e.name, kind := e.kind, bytes := [] }

/-- Visits all entries (`ArchiveWalker`). -/
def walk (a : Archive) : List (Except UnreadableEntry VisitedEntry) :=
  a.entries.zipIdx.map fun (e, index) => e.visit index

theorem length_walk (a : Archive) : a.walk.length = a.entries.length := by
  simp [walk]

end Archive

end Clarify
