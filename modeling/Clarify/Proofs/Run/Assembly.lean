import Clarify.Run.ArchiveRun

/-!
# From an old archive to a new one

The parts of a run by name, and what becomes of each entry. The classes of a run are gathered from
entries of different names, so the result of a class is found by its name, and goes to the place of
the entry that the class was read from.

Results:
* `Archive.nodup_names_of_read?`: every archive that is read has different names.
* `nodup_units`, `exists_entry_of_mem_units`: the classes and the entries that they are read from.
* `outcome_eq_ok_iff`: which classes are clarified.
* `entries_assemble`: the entries of the new archive.
* `entry_run`: what becomes of the entry of a class.
-/

namespace Clarify

/-- The entries of an archive that was read have different names. -/
theorem Archive.nodup_names_of_read? {file : Bytes} {a : Archive} (h : read? file = some a) :
    a.names.Nodup := by
  have last (count : Nat) (h : lastArchive? file.toArray count = some a) : a.names.Nodup := by
    induction count with
    | zero => cases h
    | succ place ih =>
      rw [lastArchive?] at h
      split at h
      · next found =>
        cases h
        simp only [archiveAt?, Option.bind_eq_bind, Option.bind_eq_some_iff] at found
        obtain ⟨directory, -, entries, -, same⟩ := found
        cases same
        exact names_ofEntries_nodup entries
      · exact ih h
  exact last _ h

namespace ArchiveRun

/-! ## The parts of a run -/

/-- The classes of an archive. -/
def units (a : Archive) : List UnitSource := (gather a).1

section Parts

variable (d : Disturbance) (setup : RunSetup) (store : Mapping) (a : Archive)

/-- The surveys that came to an end. -/
def surveys : List Survey :=
  (units a).filterMap fun u => (surveyOutcome d store setup.policy u).toOption

/-- What the classes are clarified with. -/
def context : PassContext :=
  let settled := Settled.ofSurveys store (surveys d setup store a)
  ⟨settled.store, settled.plan, setup.suspects⟩

/-- What became of a class in the end. -/
def outcome (u : UnitSource) : Except UnitError UnitOutput :=
  (clarifyOutcome d (context d setup store a) (surveyOutcome d store setup.policy u) u).1

/-- What became of all classes. -/
def results : Results := (units a).map fun u => (u.name, outcome d setup store a u)

theorem archive_run :
    (run d setup store a).archive = (assemble (results d setup store a) a).draft.archive := by
  simp only [run, results, outcome, context, surveys, units, List.map_map, List.filterMap_map]
  rfl

theorem counted_run :
    (run d setup store a).transformed = (assemble (results d setup store a) a).transformed ∧
    (run d setup store a).skipped = (assemble (results d setup store a) a).skipped ∧
    (run d setup store a).counts = (assemble (results d setup store a) a).counts := by
  simp only [run, results, outcome, context, surveys, units, List.map_map, List.filterMap_map]
  exact ⟨rfl, rfl, rfl⟩

theorem fault?_run : (run d setup store a).fault? = a.entries.findSome? Archive.Entry.gap? := rfl

end Parts

/-- A class is clarified if its survey is not lost to a panic or to the deadline, it is not lost
itself, and it can be clarified on its own. -/
theorem outcome_eq_ok_iff {d : Disturbance} {setup : RunSetup} {store : Mapping} {a : Archive}
    {u : UnitSource} {out : UnitOutput} :
    outcome d setup store a u = .ok out ↔
      surveyOutcome d store setup.policy u ≠ .error .timeout ∧
      (∀ reason, surveyOutcome d store setup.policy u ≠ .error (.crashed reason)) ∧
      d.clarify u.name = none ∧
      (clarifyUnit (context d setup store a) u.name u.bytes).1 = .ok out := by
  have kept : excluded? (surveyOutcome d store setup.policy u) = none ↔
      surveyOutcome d store setup.policy u ≠ .error .timeout ∧
      ∀ reason, surveyOutcome d store setup.policy u ≠ .error (.crashed reason) := by
    rcases surveyOutcome d store setup.policy u with cause | survey
    · cases cause <;> simp [excluded?]
    · simp [excluded?]
  rw [← and_assoc, ← kept, outcome, clarifyOutcome]
  cases excluded? (surveyOutcome d store setup.policy u) with
  | some cause => simp
  | none => cases d.clarify u.name <;> simp

/-! ## Gathering the classes -/

section Gathering

variable {g : Gathered} {visited : Except UnreadableEntry VisitedEntry} {u : UnitSource}

theorem Gathered.mem_add (h : u ∈ (g.add visited).units) :
    u ∈ g.units ∨ ∃ v, visited = .ok v ∧ v.kind = .bytecodeUnit ∧ u = ⟨v.name, v.bytes⟩ := by
  unfold Gathered.add at h
  split at h
  · exact .inl h
  · next v =>
    split at h
    · exact .inl h
    · next isUnit =>
      split at h
      · exact .inl h
      · obtain new | old := List.mem_cons.1 h
        · exact .inr ⟨v, rfl, Decidable.of_not_not isUnit, new⟩
        · exact .inl old

theorem Gathered.nodup_add (h : (g.units.map UnitSource.name).Nodup) :
    ((g.add visited).units.map UnitSource.name).Nodup := by
  unfold Gathered.add
  split
  · exact h
  · next v =>
    split
    · exact h
    · split
      · exact h
      · next unused =>
        rw [List.map_cons, List.nodup_cons]
        refine ⟨fun used => unused ?_, h⟩
        obtain ⟨u, mem, same⟩ := List.mem_map.1 used
        exact List.any_eq_true.2 ⟨u, mem, beq_iff_eq.2 same⟩

/-- The classes have different names. -/
theorem nodup_units (a : Archive) : ((units a).map UnitSource.name).Nodup := by
  have fold (rest : List (Except UnreadableEntry VisitedEntry)) (g : Gathered)
      (h : (g.units.map UnitSource.name).Nodup) :
      ((rest.foldl Gathered.add g).units.map UnitSource.name).Nodup := by
    induction rest generalizing g with
    | nil => exact h
    | cons visited rest ih => exact ih _ (Gathered.nodup_add h)
  show ((a.walk.foldl Gathered.add ⟨[], []⟩).units.reverse.map UnitSource.name).Nodup
  rw [List.map_reverse, (List.reverse_perm _).nodup_iff]
  exact fold a.walk _ List.nodup_nil

/-- What a visit to an entry with a class finds. -/
theorem content_of_visit {e : Archive.Entry} {index : Nat} {v : VisitedEntry}
    (h : e.visit index = .ok v) (isUnit : v.kind = .bytecodeUnit) :
    e.name = v.name ∧ e.kind = .bytecodeUnit ∧ e.content = .ok v.bytes := by
  unfold Archive.Entry.visit at h
  split at h
  · cases h
  · next free =>
    split at h
    · next isUnit =>
      split at h
      · next bytes unpacked =>
        cases h
        refine ⟨rfl, isUnit, ?_⟩
        rw [Archive.Entry.content, free]
        exact unpacked
      · cases h
    · next other =>
      cases h
      exact absurd isUnit other

/-- Each class is read from an entry of its name. -/
theorem exists_entry_of_mem_units {a : Archive} (h : u ∈ units a) :
    ∃ e ∈ a.entries, e.name = u.name ∧ e.kind = .bytecodeUnit ∧ e.content = .ok u.bytes := by
  have fold (rest : List (Except UnreadableEntry VisitedEntry)) (g : Gathered)
      (h : u ∈ (rest.foldl Gathered.add g).units) :
      u ∈ g.units ∨ ∃ v, .ok v ∈ rest ∧ v.kind = .bytecodeUnit ∧ u = ⟨v.name, v.bytes⟩ := by
    induction rest generalizing g with
    | nil => exact .inl h
    | cons visited rest ih =>
      obtain here | ⟨v, mem, found⟩ := ih _ h
      · refine (Gathered.mem_add here).imp_right fun ⟨v, same, found⟩ => ⟨v, ?_, found⟩
        exact same ▸ .head _
      · exact .inr ⟨v, .tail _ mem, found⟩
  have mem : u ∈ (a.walk.foldl Gathered.add ⟨[], []⟩).units := List.mem_reverse.1 h
  obtain none | ⟨v, visited, isUnit, rfl⟩ := fold a.walk _ mem
  · cases none
  · obtain ⟨⟨e, index⟩, inside, visit⟩ := List.mem_map.1 visited
    obtain ⟨name, kind, content⟩ := content_of_visit visit isUnit
    exact ⟨e, List.fst_mem_of_mem_zipIdx inside, name, kind, content⟩

/-- An entry with a class has the name of one. -/
theorem ofName_of_kind {e : Archive.Entry} (h : e.kind = .bytecodeUnit) :
    EntryKind.ofName e.name = .bytecodeUnit := by
  unfold Archive.Entry.kind at h
  split at h
  · cases h
  · exact h

theorem lookup_results (d : Disturbance) (setup : RunSetup) (store : Mapping) {a : Archive}
    (h : u ∈ units a) :
    (results d setup store a).lookup u.name = some (outcome d setup store a u) := by
  have row (units : List UnitSource) (different : (units.map UnitSource.name).Nodup)
      (h : u ∈ units) : (units.map fun u => (u.name, outcome d setup store a u)).lookup u.name =
        some (outcome d setup store a u) := by
    induction units with
    | nil => cases h
    | cons w units ih =>
      rw [List.map_cons, List.nodup_cons] at different
      rw [List.map_cons, List.lookup_cons]
      obtain rfl | h := List.mem_cons.1 h
      · rw [beq_self_eq_true]
      · have ne : (u.name == w.name) = false :=
          beq_false_of_ne fun same => different.1 (same ▸ List.mem_map_of_mem h)
        rw [ne]
        exact ih different.2 h
  exact row (units a) (nodup_units a) h

end Gathering

/-! ## Putting the new archive together -/

/-- What an entry becomes: a class that was clarified is replaced, everything else is copied. -/
def carried (results : Results) (e : Archive.Entry) : Archive.Entry :=
  match results.lookup e.name with
  | some (.ok out) =>
    if EntryKind.ofName e.name = .bytecodeUnit then e.withContent out.bytes else e
  | _ => e

section Assembling

variable {results : Results}

theorem Assembled.entries_pass {s : Assembled} {e : Archive.Entry}
    (unused : s.draft.contains e.name = false) :
    (s.pass e).draft.archive.entries = s.draft.archive.entries ++ [e] := by
  simp [pass, Archive.Draft.add?, unused, Archive.Draft.archive]

theorem Assembled.entries_add (results : Results) {s : Assembled} {e : Archive.Entry}
    (unused : s.draft.contains e.name = false) :
    (s.add results e).draft.archive.entries = s.draft.archive.entries ++ [carried results e] := by
  unfold add carried
  by_cases isUnit : EntryKind.ofName e.name = .bytecodeUnit
  · rw [if_pos ⟨isUnit, unused⟩]
    rcases results.lookup e.name with _ | cause | out
    · exact entries_pass unused
    · exact entries_pass unused
    · dsimp only
      rw [if_pos isUnit]
      exact entries_pass unused
  · rw [if_neg fun both => isUnit both.1]
    rcases results.lookup e.name with _ | cause | out
    · exact entries_pass unused
    · exact entries_pass unused
    · dsimp only
      rw [if_neg isUnit]
      exact entries_pass unused

/-- The new archive has the entries of the old one, in the same order. -/
theorem entries_assemble {a : Archive} (different : a.names.Nodup)
    (copied : ∀ e ∈ a.entries, e.gap? = none) :
    (assemble results a).draft.archive.entries = a.entries.map (carried results) := by
  refine assemble_induction (motive := fun before s =>
    s.draft.archive.entries = before.map (carried results)) different copied rfl ?_
  intro before s e _ unused same
  rw [Assembled.entries_add results unused, same, List.map_append]
  rfl

/-- The entry of a class stays where it is. It has the class in its new form if it was clarified,
and is copied otherwise. -/
theorem entry_run (d : Disturbance) (setup : RunSetup) (store : Mapping) {a : Archive}
    {u : UnitSource} (h : u ∈ units a) :
    ∃ (i : Nat) (e : Archive.Entry), a.entries[i]? = some e ∧ e.name = u.name ∧
      e.content = .ok u.bytes ∧ (a.names.Nodup → (run d setup store a).fault? = none →
        (run d setup store a).archive.entries[i]? = some
          (match outcome d setup store a u with
            | .ok out => e.withContent out.bytes
            | .error _ => e)) := by
  obtain ⟨e, mem, name, kind, content⟩ := exists_entry_of_mem_units h
  obtain ⟨i, here⟩ := List.mem_iff_getElem?.1 mem
  refine ⟨i, e, here, name, content, fun different complete => ?_⟩
  rw [fault?_run, List.findSome?_eq_none_iff] at complete
  rw [archive_run, entries_assemble different complete, List.getElem?_map, here, Option.map_some,
    carried, name, lookup_results d setup store h, ← name, ofName_of_kind kind]
  cases outcome d setup store a u <;> rfl

end Assembling

end ArchiveRun

end Clarify
