import Clarify.Project.Database
import Clarify.Proofs.Except

/-!
# Rows and entries

How a mapping and the table that it is kept in say the same. Old names are different from each
other in both, so writing a mapping to the table is one write for each name, and taking in the
table is one load for each row. Which of two entries wins is decided name by name: a row that is
manual yields only to a manual entry (`written`), and an entry of a mapping yields only to a row
that is manual (`Entry.over`).

Results:
* `row?_upsert`, `row?_saveFrom`: the row of each name after a write, and after writing a mapping.
* `get?_load`, `get?_loadInto`: the entry of each name once a row or the table is taken in.
* `exists_loadInto_iff`: a table can be taken in exactly if its origins are understood.
-/

namespace Clarify

/-! ## Rows of items with different keys -/

section Keyed

variable {σ ι κ β : Type} {step : σ → ι → σ} (look : σ → κ → β) (about : ι → κ)

/-- What none of the items is about stays as it is. -/
theorem look_foldl_of_not_mem
    (other : ∀ s x key, about x ≠ key → look (step s x) key = look s key) {row : List ι} {key : κ}
    (h : key ∉ row.map about) (s : σ) : look (row.foldl step s) key = look s key := by
  induction row generalizing s with
  | nil => rfl
  | cons x row ih =>
    rw [List.map_cons, List.mem_cons, not_or] at h
    rw [List.foldl_cons, ih h.2, other s x key (Ne.symm h.1)]

/-- What an item is about is changed by this item alone. -/
theorem look_foldl_of_mem (update : ι → β → β)
    (self : ∀ s x, look (step s x) (about x) = update x (look s (about x)))
    (other : ∀ s x key, about x ≠ key → look (step s x) key = look s key) {row : List ι}
    (different : (row.map about).Nodup) {x : ι} (mem : x ∈ row) (s : σ) :
    look (row.foldl step s) (about x) = update x (look s (about x)) := by
  induction row generalizing s with
  | nil => cases mem
  | cons y row ih =>
    obtain ⟨fresh, different⟩ := List.nodup_cons.1 different
    rw [List.foldl_cons]
    obtain rfl | mem := List.mem_cons.1 mem
    · rw [look_foldl_of_not_mem look about other fresh, self]
    · have ne : about y ≠ about x := fun same => fresh (same ▸ List.mem_map_of_mem mem)
      rw [ih different mem, other s y _ ne]

end Keyed

namespace Mapping

variable (m : Mapping)

theorem mem_toList_iff {old : String} {entry : Entry} :
    (old, entry) ∈ m.toList ↔ m.get? old = some entry :=
  Std.TreeMap.mem_toList_iff_getElem?_eq_some

theorem nodup_toList : (m.toList.map Prod.fst).Nodup := by
  rw [toList, Std.TreeMap.map_fst_toList_eq_keys]
  exact Std.TreeMap.nodup_keys

/-- Mappings with the same entries list them alike. -/
theorem toList_congr {m m' : Mapping} (h : ∀ key, m.get? key = m'.get? key) :
    m.toList = m'.toList :=
  Std.TreeMap.Equiv.toList_eq (Std.TreeMap.Equiv.of_forall_constGet?_eq h)

end Mapping

/-- The entry of a name once a stored entry for it was taken in. -/
def Entry.over (stored : Entry) (there : Option Entry) : Entry :=
  if stored.origin = .manual then stored else there.getD stored

theorem Mapping.get?_load (m : Mapping) (old new key : String) (origin : Origin) :
    (m.load old new origin).get? key =
      if old = key then some (Entry.over ⟨new, origin⟩ (m.get? old)) else m.get? key := by
  unfold Mapping.load
  split
  · rw [get?_override]
    rfl
  · next notManual =>
    rw [get?_insertIfAbsent, Entry.over, if_neg notManual]

namespace Database

variable (d : Database)

/-! ## What is written -/

/-- The row of a name once an entry for it was written, or was refused. -/
def written (before : Option MappingRow) (r : MappingRecord) : MappingRow :=
  match before with
  | some row => if row.origin = Origin.manual.word ∧ r.origin ≠ .manual then row else rowOf r
  | none => rowOf r

theorem row?_upsert (r : MappingRecord) (key : String) : (d.upsert r).2.row? key =
    if r.oldName = key then some (written (d.row? r.oldName) r) else d.row? key := by
  split
  · next here =>
    subst here
    rw [row_upsert_self, mayWrite]
    cases d.row? r.oldName with
    | none => rfl
    | some row =>
      by_cases manual : row.origin = Origin.manual.word <;> by_cases same : r.origin = .manual <;>
        simp [written, manual, same]
  · next ne => exact row_upsert_of_ne d r ne

/-- A written row is the row of the entry, unless a manual row stands against it. -/
theorem written_eq {before : Option MappingRow} {r : MappingRecord}
    (h : ∀ row, before = some row → row.origin = Origin.manual.word → r.origin = .manual) :
    written before r = rowOf r := by
  cases before with
  | none => rfl
  | some row => exact if_neg fun refused => refused.2 (h row rfl refused.1)

theorem save_eq_foldl (records : List MappingRecord) :
    (d.save records).2 = records.foldl (fun d r => (d.upsert r).2) d := by
  unfold save
  exact (List.foldl_hom Prod.snd fun _ _ => rfl).symm

section Saved

variable {d : Database} {records : List MappingRecord}

/-- What is not written stays as it is. -/
theorem row?_save_of_not_mem {key : String} (h : key ∉ records.map MappingRecord.oldName) :
    (d.save records).2.row? key = d.row? key := by
  rw [save_eq_foldl]
  exact look_foldl_of_not_mem row? MappingRecord.oldName (fun d r _ => row_upsert_of_ne d r) h d

/-- Of entries with different old names, each is written to its own row. -/
theorem row?_save_of_mem (different : (records.map MappingRecord.oldName).Nodup)
    {r : MappingRecord} (mem : r ∈ records) :
    (d.save records).2.row? r.oldName = some (written (d.row? r.oldName) r) := by
  have self (d : Database) (r : MappingRecord) : (d.upsert r).2.row? r.oldName =
      some (written (d.row? r.oldName) r) := by
    rw [row?_upsert, if_pos rfl]
  rw [save_eq_foldl]
  exact look_foldl_of_mem row? MappingRecord.oldName (fun r before => some (written before r))
    self (fun d r _ => row_upsert_of_ne d r) different mem d

end Saved

/-- The row of each name after a mapping was written. -/
theorem row?_saveFrom (m : Mapping) (time key : String) :
    (d.saveFrom m time).2.row? key = ((m.get? key).map fun entry =>
      written (d.row? key) ⟨key, entry.newName, entry.origin, time⟩).or (d.row? key) := by
  rw [saveFrom]
  cases here : m.get? key with
  | none =>
    refine row?_save_of_not_mem fun mem => ?_
    rw [List.map_map] at mem
    obtain ⟨⟨key, entry⟩, listed, rfl⟩ := List.mem_map.1 mem
    cases (m.mem_toList_iff.1 listed).symm.trans here
  | some entry =>
    refine row?_save_of_mem (r := ⟨key, entry.newName, entry.origin, time⟩) ?_ ?_
    · rw [List.map_map]
      exact m.nodup_toList
    · exact List.mem_map.2 ⟨(key, entry), m.mem_toList_iff.2 here, rfl⟩

/-! ## What is taken in -/

/-- The entry that the row of a name stands for. -/
def stored? (old : String) : Option Entry :=
  (d.row? old).bind fun row => (Origin.ofText? row.origin).map (⟨row.newName, ·⟩)

/-- The origin in every row of the mapping is understood. -/
def Readable : Prop := ∀ old row, d.row? old = some row → ∃ o, Origin.ofText? row.origin = some o

variable {d}

theorem mem_mappings_iff {old : String} {row : MappingRow} :
    (old, row) ∈ d.mappings.toList ↔ d.row? old = some row :=
  Std.TreeMap.mem_toList_iff_getElem?_eq_some

/-- The record of a row, unless the origin in it is not understood. -/
def record (x : String × MappingRow) : Except DatabaseError MappingRecord :=
  match Origin.ofText? x.2.origin with
  | some origin => .ok ⟨x.1, x.2.newName, origin, x.2.updatedAt⟩
  | none => .error (.unknownOrigin x.2.origin)

theorem listMappings_eq (d : Database) : d.listMappings = d.mappings.toList.mapM record := rfl

theorem record_eq_ok_iff {old : String} {row : MappingRow} {r : MappingRecord} :
    record (old, row) = .ok r ↔ ∃ origin, Origin.ofText? row.origin = some origin ∧
      r = ⟨old, row.newName, origin, row.updatedAt⟩ := by
  unfold record
  cases understood : Origin.ofText? row.origin with
  | none => simp
  | some origin => simp [eq_comm]

/-- A table can be listed exactly if its origins are understood. -/
theorem exists_listMappings_iff : (∃ records, d.listMappings = .ok records) ↔ d.Readable := by
  rw [listMappings_eq]
  constructor
  · rintro ⟨records, listed⟩ old row here
    obtain ⟨k, place⟩ := List.getElem?_of_mem (mem_mappings_iff.2 here)
    obtain ⟨r, -, read⟩ := Except.getElem?_of_mapM listed place
    obtain ⟨origin, understood, -⟩ := record_eq_ok_iff.1 read
    exact ⟨origin, understood⟩
  · intro readable
    refine Except.exists_mapM fun (old, row) mem => ?_
    obtain ⟨origin, understood⟩ := readable old row (mem_mappings_iff.1 mem)
    exact ⟨_, record_eq_ok_iff.2 ⟨origin, understood, rfl⟩⟩

section Listed

variable {records : List MappingRecord} (listed : d.listMappings = .ok records)
include listed

theorem nodup_listed : (records.map MappingRecord.oldName).Nodup := by
  have names : records.map MappingRecord.oldName = d.mappings.toList.map Prod.fst := by
    refine Except.map_eq_of_mapM (fun (old, row) r read => ?_) listed
    obtain ⟨origin, -, rfl⟩ := record_eq_ok_iff.1 read
    rfl
  rw [names, Std.TreeMap.map_fst_toList_eq_keys]
  exact Std.TreeMap.nodup_keys

theorem stored?_of_listed {r : MappingRecord} (mem : r ∈ records) :
    d.stored? r.oldName = some ⟨r.newName, r.origin⟩ := by
  obtain ⟨⟨old, row⟩, stored, read⟩ := Except.exists_of_mem_mapM listed mem
  obtain ⟨origin, understood, rfl⟩ := record_eq_ok_iff.1 read
  show (d.row? old).bind _ = _
  rw [mem_mappings_iff.1 stored, Option.bind_some, understood]
  rfl

theorem exists_listed {old : String} {entry : Entry} (h : d.stored? old = some entry) :
    ∃ r ∈ records, r.oldName = old ∧ entry = ⟨r.newName, r.origin⟩ := by
  obtain ⟨row, here, -⟩ := Option.bind_eq_some_iff.1 h
  obtain ⟨k, place⟩ := List.getElem?_of_mem (mem_mappings_iff.2 here)
  obtain ⟨r, place', read⟩ := Except.getElem?_of_mapM listed place
  obtain ⟨origin, -, rfl⟩ := record_eq_ok_iff.1 read
  have mem := List.mem_of_getElem? place'
  refine ⟨_, mem, rfl, ?_⟩
  have entry' := stored?_of_listed listed mem
  rw [h] at entry'
  exact Option.some.inj entry'

end Listed

/-- A table can be taken in exactly if its origins are understood. -/
theorem exists_loadInto_iff {m : Mapping} :
    (∃ n m', d.loadInto m = .ok (n, m')) ↔ d.Readable := by
  rw [← exists_listMappings_iff]
  constructor
  · rintro ⟨n, m', loaded⟩
    obtain ⟨records, listed, -⟩ := Except.bind_eq_ok_iff.1 loaded
    exact ⟨records, listed⟩
  · rintro ⟨records, listed⟩
    exact ⟨_, _, Except.bind_eq_ok_iff.2 ⟨records, listed, rfl⟩⟩

/-- The entry of each name after the table was taken in. -/
theorem get?_loadInto {m m' : Mapping} {n : Nat} (loaded : d.loadInto m = .ok (n, m'))
    (key : String) :
    m'.get? key = ((d.stored? key).map fun entry => entry.over (m.get? key)).or (m.get? key) := by
  obtain ⟨records, listed, eq⟩ := Except.bind_eq_ok_iff.1 loaded
  cases eq
  have self (m : Mapping) (r : MappingRecord) :
      (m.load r.oldName r.newName r.origin).get? r.oldName =
        some (Entry.over ⟨r.newName, r.origin⟩ (m.get? r.oldName)) := by
    rw [Mapping.get?_load, if_pos rfl]
  have other (m : Mapping) (r : MappingRecord) (key : String) (ne : r.oldName ≠ key) :
      (m.load r.oldName r.newName r.origin).get? key = m.get? key := by
    rw [Mapping.get?_load, if_neg ne]
  cases here : d.stored? key with
  | none =>
    refine look_foldl_of_not_mem Mapping.get? MappingRecord.oldName other (fun mem => ?_) m
    obtain ⟨r, stored, rfl⟩ := List.mem_map.1 mem
    rw [stored?_of_listed listed stored] at here
    cases here
  | some entry =>
    obtain ⟨r, mem, rfl, rfl⟩ := exists_listed listed here
    exact look_foldl_of_mem Mapping.get? MappingRecord.oldName
      (fun r there => some (Entry.over ⟨r.newName, r.origin⟩ there)) self other
      (nodup_listed listed) mem m

end Database

end Clarify
