import Clarify.Proofs.Naming.Calls
import Clarify.Proofs.Naming.Targets
import Clarify.Proofs.Project.Rows

/-!
# Counts of new names

A mapping is changed by the calls of its workers and by taking in the table of a project. That is a
row of calls as well, one for each row of the table, so it does no harm if calls of workers fall in
between. No call miscounts, whatever was done before, so in every mapping that comes about, the
count of a new name is the number of its old names.

Results:
* `loadInto_eq_after`: taking in a table is a row of calls.
* `Counted.change`: no change miscounts.
* `Counted.getElem?_targets`: the count of a name is the number of entries that have it.
* `targets_changed`: the counts after any row of changes.
-/

namespace Clarify.Mapping

/-! ## Specification -/

/-- What changes a mapping. -/
inductive Change where
  | call (call : Call)
  /-- The table of a project is taken in. -/
  | load (d : Database)

/-- The mapping after a change. A table that cannot be listed changes nothing. -/
def change (m : Mapping) : Change → Mapping
  | .call call => (m.perform call).2
  | .load d =>
    match d.loadInto m with
    | .ok (_, m') => m'
    | .error _ => m

/-- The mapping after a row of changes. -/
def changed (m : Mapping) (changes : List Change) : Mapping := changes.foldl change m

/-- The old names with the given new one, in order. -/
def oldNames (m : Mapping) (name : String) : List String :=
  (m.toList.filter fun x => x.2.newName = name).map Prod.fst

variable {m : Mapping} {name : String}

theorem mem_oldNames_iff {old : String} : old ∈ m.oldNames name ↔ m.resolve? old = some name := by
  rw [oldNames, List.mem_map, resolve?, Option.map_eq_some_iff]
  constructor
  · rintro ⟨⟨old, entry⟩, mem, rfl⟩
    obtain ⟨listed, same⟩ := List.mem_filter.1 mem
    exact ⟨entry, m.mem_toList_iff.1 listed, of_decide_eq_true same⟩
  · rintro ⟨entry, here, same⟩
    exact ⟨(old, entry), List.mem_filter.2 ⟨m.mem_toList_iff.2 here, decide_eq_true same⟩, rfl⟩

theorem nodup_oldNames (m : Mapping) (name : String) : (m.oldNames name).Nodup :=
  m.nodup_toList.sublist (List.filter_sublist.map Prod.fst)

/-! ## One change -/

/-- The call that takes in a row of a table. -/
def Call.ofRecord (r : MappingRecord) : Call :=
  match r.origin with
  | .manual => .override r.oldName r.newName
  | origin => .insert r.oldName r.newName origin

theorem perform_ofRecord (m : Mapping) (r : MappingRecord) :
    (m.perform (.ofRecord r)).2 = m.load r.oldName r.newName r.origin := by
  unfold Call.ofRecord Mapping.load
  cases r.origin <;> rfl

/-- Taking in a table is a row of calls, one for each of its rows. -/
theorem loadInto_eq_after {d : Database} {n : Nat} {m' : Mapping}
    (loaded : d.loadInto m = .ok (n, m')) :
    ∃ records, d.listMappings = .ok records ∧
      m' = m.after (records.map fun r => (r.oldName, Call.ofRecord r)) := by
  obtain ⟨records, listed, eq⟩ := Except.bind_eq_ok_iff.1 loaded
  cases eq
  refine ⟨records, listed, ?_⟩
  rw [after, List.foldl_map]
  congr 1
  funext m r
  exact (m.perform_ofRecord r).symm

theorem Counted.perform (h : m.Counted) (call : Call) : (m.perform call).2.Counted := by
  cases call with
  | insert old new origin => exact h.insertIfAbsent old new origin
  | override old new => exact h.override old new

theorem Counted.after {ι : Type} (h : m.Counted) (calls : List (ι × Call)) :
    (m.after calls).Counted := by
  apply List.foldlRecOn calls _ h
  intro m h x _
  exact h.perform x.2

/-- No change miscounts. -/
theorem Counted.change (h : m.Counted) (c : Change) : (m.change c).Counted := by
  cases c with
  | call call => exact h.perform call
  | load d =>
    rw [Mapping.change]
    split
    · next loaded =>
      obtain ⟨records, -, rfl⟩ := loadInto_eq_after loaded
      exact h.after _
    · exact h

/-- The count of a name is the number of entries that have it. -/
theorem Counted.getElem?_targets (h : m.Counted) (name : String) :
    m.targets[name]? = countEntry (m.oldNames name).length := by
  obtain ⟨olds, mem, count⟩ := h name
  have same : olds = (m.oldNames name).toFinset := by
    ext old
    rw [mem, List.mem_toFinset, mem_oldNames_iff]
  rw [count, same, List.toFinset_card_of_nodup (m.nodup_oldNames name)]

/-! ## Rows of changes -/

theorem Counted.changed (h : m.Counted) (changes : List Change) : (m.changed changes).Counted := by
  induction changes generalizing m with
  | nil => exact h
  | cons c changes ih => exact ih (h.change c)

/-- After any row of changes to a new mapping, the count of each name is the number of old names
that are mapped to it, no count is 0, and a name is a target just if some old name is mapped to it.
-/
theorem targets_changed {start : Mapping} (new : start = empty ∨ start = withDictionary)
    (changes : List Change) (name : String) :
    ((start.changed changes).targets[name]?).getD 0 =
      ((start.changed changes).oldNames name).length ∧
    (start.changed changes).targets[name]? ≠ some 0 ∧
    ((start.changed changes).isTarget name = true ↔
      ∃ old, (start.changed changes).resolve? old = some name) := by
  have counted : start.Counted := by
    obtain rfl | rfl := new
    · exact counted_empty
    · exact counted_withDictionary
  have after := counted.changed changes
  rw [after.getElem?_targets name]
  exact ⟨getD_countEntry _, countEntry_ne_zero _, after.isTarget_iff⟩

/-- Two names come to share a new one with a name of the dictionary; then one of them is given the
same new name again, and another one after that. -/
def shuffled : List Change := [
  .call (.insert "a" "targetEntity" .predicted),
  .load (Database.blank.upsert ⟨"b", "targetEntity", .manual, "t0"⟩).2,
  .call (.override "a" "targetEntity"),
  .call (.override "b" "moveTarget")]

theorem targets_changed_shuffled :
    (withDictionary.changed shuffled).oldNames "targetEntity" = ["a", "vodka"] ∧
      ((withDictionary.changed shuffled).targets["targetEntity"]?).getD 0 = 2 ∧
      (withDictionary.changed shuffled).isTarget "moveTarget" = true := by
  have shared : (withDictionary.changed shuffled).oldNames "targetEntity" = ["a", "vodka"] := by
    decide +kernel
  have moved : (withDictionary.changed shuffled).resolve? "b" = some "moveTarget" := by
    decide +kernel
  obtain ⟨count, -, -⟩ := targets_changed (.inr rfl) shuffled "targetEntity"
  obtain ⟨-, -, target⟩ := targets_changed (.inr rfl) shuffled "moveTarget"
  rw [shared] at count
  exact ⟨shared, count, target.2 ⟨"b", moved⟩⟩

end Clarify.Mapping
