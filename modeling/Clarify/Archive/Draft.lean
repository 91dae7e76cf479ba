import Clarify.Archive.Container

/-!
# An archive in the making

Entries are added one by one, copied from another archive or with new contents. A name is used
once: another entry with it is refused.

Results:
* `nodup_add?`: the names of a draft stay different.
-/

namespace Clarify.Archive

/-- The entries added so far, the latest first (`ArchiveAssembler`). -/
structure Draft where
  added : List Entry
deriving Repr, DecidableEq

namespace Draft

/-- The draft without entries. -/
def empty : Draft := ⟨[]⟩

/-- Whether a name is in use. -/
def contains (d : Draft) (name : String) : Bool := d.added.any fun e => e.name == name

/-- The draft with another entry, unless its name is in use (part of
`ArchiveAssembler::write_unit`). -/
def add? (d : Draft) (e : Entry) : Option Draft :=
  if d.contains e.name then none else some ⟨e :: d.added⟩

/-- The finished archive. -/
def archive (d : Draft) : Archive := ⟨d.added.reverse⟩

theorem contains_iff {d : Draft} {name : String} :
    d.contains name = true ↔ name ∈ d.archive.names := by
  simp [contains, archive, names]

theorem nodup_add? {d d' : Draft} {e : Entry} (h : d.add? e = some d')
    (different : d.archive.names.Nodup) : d'.archive.names.Nodup := by
  unfold add? at h
  split at h
  · contradiction
  · next unused =>
    injection h with h
    subst h
    have unused : e.name ∉ d.archive.names := fun used => unused (contains_iff.2 used)
    simp only [archive, names, List.reverse_cons, List.map_append, List.map_cons, List.map_nil]
      at different unused ⊢
    rw [List.nodup_append]
    refine ⟨different, by simp, ?_⟩
    intro name isThere other isNew same
    rw [List.mem_singleton] at isNew
    exact unused (isNew ▸ same ▸ isThere)

end Draft

end Clarify.Archive
