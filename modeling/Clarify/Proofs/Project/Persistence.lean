import Clarify.Proofs.Naming.Calls
import Clarify.Proofs.Project.Rows

/-!
# Names from run to run

A run takes its mapping from the table and writes it back. Of a name in the dictionary the table
may hold an entry that is not manual; it yields when the table is taken in, and is replaced when
the mapping is written. So the next run begins with the very mapping that this one ended with.

A row is manual here if it has the word of that origin as it is written. Another spelling of the
word is understood when the table is read, and protects nothing.

Results:
* `row?_saveFrom_of_upholds`: the table after the mapping of a run was written.
* `row?_perform_of_manual`: a manual row stays under every write that does not replace it.
* `names_survive`: a mapping that is written is taken in again, and manual rows stay.
-/

namespace Clarify

/-! ## Writing and taking in again -/

/-- The mapping says what it took in from the table and from the dictionary, or has a manual entry
in its place. -/
structure Mapping.Upholds (m : Mapping) (d : Database) : Prop where
  stored : ∀ key entry, d.stored? key = some entry →
    ∃ entry', m.get? key = some entry' ∧ (entry.origin = .manual → entry'.origin = .manual)
  dictionary : ∀ key entry, Mapping.withDictionary.get? key = some entry →
    ∃ entry', m.get? key = some entry' ∧ (entry' = entry ∨ entry'.origin = .manual)

namespace Database

variable {d : Database} {m : Mapping}

theorem upholds_of_loadInto {n : Nat} (loaded : d.loadInto .withDictionary = .ok (n, m)) :
    m.Upholds d where
  stored key entry here := by
    refine ⟨entry.over (Mapping.withDictionary.get? key), ?_, fun manual => ?_⟩
    · rw [get?_loadInto loaded, here]
      rfl
    · rw [Entry.over, if_pos manual]
      exact manual
  dictionary key entry here := by
    rw [get?_loadInto loaded, here]
    cases d.stored? key with
    | none => exact ⟨entry, rfl, .inl rfl⟩
    | some stored =>
      refine ⟨stored.over (some entry), rfl, ?_⟩
      unfold Entry.over
      split
      · next manual => exact .inr manual
      · exact .inl rfl

end Database

namespace Mapping.Upholds

variable {d : Database} {m : Mapping} {ι : Type}

/-- What a mapping upholds, it upholds after every row of calls. -/
theorem after (h : m.Upholds d) (calls : List (ι × Call)) : (m.after calls).Upholds d where
  stored key entry here := by
    obtain ⟨entry', there, manual⟩ := h.stored key entry here
    obtain ⟨entry'', later, same | manual'⟩ := m.exists_get?_after there calls
    · exact ⟨entry'', later, same ▸ manual⟩
    · exact ⟨entry'', later, fun _ => manual'⟩
  dictionary key entry here := by
    obtain ⟨entry', there, same⟩ := h.dictionary key entry here
    obtain ⟨entry'', later, same' | manual'⟩ := m.exists_get?_after there calls
    · exact ⟨entry'', later, same' ▸ same⟩
    · exact ⟨entry'', later, .inr manual'⟩

/-- An entry of the mapping is what it would be if it were taken in behind the dictionary. -/
theorem over_eq (h : m.Upholds d) {key : String} {entry : Entry} (here : m.get? key = some entry) :
    entry.over (withDictionary.get? key) = entry := by
  unfold Entry.over
  split
  · rfl
  · next notManual =>
    cases known : withDictionary.get? key with
    | none => rfl
    | some entry' =>
      obtain ⟨entry'', there, same⟩ := h.dictionary key entry' known
      rw [here] at there
      cases there
      exact (same.resolve_right notManual).symm

end Mapping.Upholds

namespace Database

variable {d : Database} {m : Mapping}

/-- Every row of a table whose mapping is written becomes the row of an entry. -/
theorem row?_saveFrom_of_upholds (readable : d.Readable) (h : m.Upholds d) (time key : String) :
    (d.saveFrom m time).2.row? key =
      (m.get? key).map fun entry => rowOf ⟨key, entry.newName, entry.origin, time⟩ := by
  have stored {row : MappingRow} (here : d.row? key = some row) :
      ∃ origin, Origin.ofText? row.origin = some origin ∧
        ∃ entry, m.get? key = some entry ∧ (origin = .manual → entry.origin = .manual) := by
    obtain ⟨origin, understood⟩ := readable key row here
    refine ⟨origin, understood, h.stored key ⟨row.newName, origin⟩ ?_⟩
    rw [stored?, here, Option.bind_some, understood]
    rfl
  rw [row?_saveFrom]
  cases held : m.get? key with
  | none =>
    cases here : d.row? key with
    | none => rfl
    | some row =>
      obtain ⟨origin, -, entry, held', -⟩ := stored here
      rw [held] at held'
      cases held'
  | some entry =>
    refine congrArg some (written_eq fun row here manual => ?_)
    obtain ⟨origin, understood, entry', held', keeps⟩ := stored here
    rw [held] at held'
    cases held'
    rw [manual, Origin.ofText?_word] at understood
    exact keeps (Option.some.inj understood).symm

/-- A table that a mapping was written to is understood, and says what the mapping says. -/
theorem stored?_saveFrom (readable : d.Readable) (h : m.Upholds d) (time : String) :
    (d.saveFrom m time).2.Readable ∧
      ∀ key, (d.saveFrom m time).2.stored? key = m.get? key := by
  constructor
  · intro key row here
    rw [row?_saveFrom_of_upholds readable h] at here
    obtain ⟨entry, -, rfl⟩ := Option.map_eq_some_iff.1 here
    exact ⟨entry.origin, Origin.ofText?_word entry.origin⟩
  · intro key
    rw [stored?, row?_saveFrom_of_upholds readable h]
    cases m.get? key with
    | none => rfl
    | some entry =>
      show (Origin.ofText? entry.origin.word).map _ = _
      rw [Origin.ofText?_word]
      rfl

/-- A mapping that was written is what the next run begins with. -/
theorem loadInto_saveFrom (readable : d.Readable) (h : m.Upholds d) (time : String) :
    ∃ n again, (d.saveFrom m time).2.loadInto .withDictionary = .ok (n, again) ∧
      again.toList = m.toList := by
  obtain ⟨readable', agrees⟩ := stored?_saveFrom readable h time
  obtain ⟨n, again, loaded⟩ := exists_loadInto_iff.2 readable'
  refine ⟨n, again, loaded, Mapping.toList_congr fun key => ?_⟩
  rw [get?_loadInto loaded, agrees]
  cases held : m.get? key with
  | none =>
    cases known : Mapping.withDictionary.get? key with
    | none => rfl
    | some entry =>
      obtain ⟨entry', held', -⟩ := h.dictionary key entry known
      rw [held] at held'
      cases held'
  | some entry => exact congrArg some (h.over_eq held)

/-! ## Manual rows -/

/-- A write to the table of the mapping. -/
inductive Write where
  | upsert (r : MappingRecord)
  | save (records : List MappingRecord)
  | delete (old : String)
deriving Repr, DecidableEq

/-- The table after a write. -/
def perform (d : Database) : Write → Database
  | .upsert r => (d.upsert r).2
  | .save records => (d.save records).2
  | .delete old => (d.delete old).2

/-- The write deletes a row, or has a manual entry for its name. -/
def Write.Replaces (old : String) : Write → Prop
  | .upsert r => r.oldName = old ∧ r.origin = .manual
  | .save records => ∃ r ∈ records, r.oldName = old ∧ r.origin = .manual
  | .delete name => name = old

/-- A manual row stays under every write that does not replace it. -/
theorem row?_perform_of_manual {old : String} {row : MappingRow} (here : d.row? old = some row)
    (manual : row.origin = Origin.manual.word) {w : Write} (h : ¬ w.Replaces old) :
    (d.perform w).row? old = some row := by
  have refused (d : Database) (here : d.row? old = some row) (r : MappingRecord)
      (h : ¬ (r.oldName = old ∧ r.origin = .manual)) : (d.upsert r).2.row? old = some row := by
    rw [row?_upsert]
    split
    · next same =>
      subst same
      rw [here, written, if_pos ⟨manual, fun same => h ⟨rfl, same⟩⟩]
    · exact here
  cases w with
  | upsert r => exact refused d here r h
  | save records =>
    show (d.save records).2.row? old = some row
    rw [save_eq_foldl]
    induction records generalizing d with
    | nil => exact here
    | cons r records ih =>
      refine ih (refused d here r fun same => h ⟨r, by simp, same⟩) ?_
      rintro ⟨r', mem, same⟩
      exact h ⟨r', List.mem_cons_of_mem r mem, same⟩
  | delete name =>
    show (d.mappings.erase name)[old]? = some row
    rw [Std.TreeMap.getElem?_erase, if_neg fun same => h (Std.compare_eq_iff_eq.1 same)]
    exact here

theorem readable_blank : blank.Readable := by
  intro old row here
  cases here

/-- A table stays understood under every write. -/
theorem Readable.perform (h : d.Readable) (w : Write) : (d.perform w).Readable := by
  have upsert (d : Database) (h : d.Readable) (r : MappingRecord) : (d.upsert r).2.Readable := by
    intro old row here
    rw [row?_upsert] at here
    split at here
    · cases here
      unfold written
      split
      · next row before =>
        split
        · exact h _ row before
        · exact ⟨r.origin, Origin.ofText?_word r.origin⟩
      · exact ⟨r.origin, Origin.ofText?_word r.origin⟩
    · exact h old row here
  cases w with
  | upsert r => exact upsert d h r
  | save records =>
    show (d.save records).2.Readable
    rw [save_eq_foldl]
    exact List.foldlRecOn records _ h fun d h r _ => upsert d h r
  | delete name =>
    intro old row here
    change (d.mappings.erase name)[old]? = some row at here
    rw [Std.TreeMap.getElem?_erase] at here
    split at here
    · cases here
    · exact h old row here

/-- A table that is understood can be taken in, and whatever calls the mapping gets then, the
mapping is taken in again once it was written to that table. A manual row stays under every row of
writes, until one of them replaces it. -/
theorem names_survive (d : Database) {ι : Type} :
    (d.Readable → ∃ n m, d.loadInto .withDictionary = .ok (n, m) ∧
      ∀ (calls : List (ι × Mapping.Call)) (time : String), ∃ n' again,
        (d.saveFrom (m.after calls) time).2.loadInto .withDictionary = .ok (n', again) ∧
        again.toList = (m.after calls).toList) ∧
    ∀ (writes : List Write) (old : String) (row : MappingRow), d.row? old = some row →
      row.origin = Origin.manual.word → (∀ w ∈ writes, ¬ w.Replaces old) →
      (writes.foldl perform d).row? old = some row := by
  constructor
  · intro readable
    obtain ⟨n, m, loaded⟩ := exists_loadInto_iff.2 readable
    refine ⟨n, m, loaded, fun calls time => ?_⟩
    exact loadInto_saveFrom readable ((upholds_of_loadInto loaded).after calls) time
  · intro writes old row here manual kept
    induction writes generalizing d with
    | nil => exact here
    | cons w writes ih =>
      obtain ⟨first, rest⟩ := List.forall_mem_cons.1 kept
      exact ih _ (row?_perform_of_manual here manual first) rest

/-- A table with a manual row and with a predicted one for a name of the dictionary. -/
def shared : Database :=
  (blank.perform (.upsert ⟨"a", "attackTarget", .manual, "t0"⟩)).perform
    (.upsert ⟨"vodka", "fieldA", .predicted, "t0"⟩)

theorem names_survive_shared : ∃ n m, shared.loadInto .withDictionary = .ok (n, m) ∧
    (∃ n' again, (shared.saveFrom (m.after [(1, .insert "b" "methodB" .predicted),
        (2, .override "zov" "isZov")]) "t1").2.loadInto .withDictionary = .ok (n', again) ∧
      again.toList = (m.after [(1, .insert "b" "methodB" .predicted),
        (2, .override "zov" "isZov")]).toList) ∧
    ([.save [⟨"a", "methodA", .predicted, "t1"⟩], .delete "vodka"].foldl perform shared).row? "a" =
      some ⟨"attackTarget", "manual", "t0"⟩ := by
  obtain ⟨survives, stays⟩ := names_survive shared (ι := Nat)
  obtain ⟨n, m, loaded, again⟩ := survives ((readable_blank.perform _).perform _)
  exact ⟨n, m, loaded, again _ "t1",
    stays _ "a" ⟨"attackTarget", "manual", "t0"⟩ (by decide +kernel) rfl (by simp [Write.Replaces])⟩

end Database

end Clarify
