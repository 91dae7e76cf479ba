import Clarify.Project.MappingFile
import Clarify.Proofs.Json.RoundTrip
import Clarify.Proofs.Naming.Proposed
import Clarify.Proofs.Project.Persistence
import Clarify.Proofs.Text.Reading

/-!
# Mappings that can be exchanged

The table of a project is filled by hand, from files, from the dictionary and by runs. What is set
by hand or comes from a file is checked first, and all else is valid from the start. So every entry
that can get into the table passes that check again: the file that a table is written to is taken
in by any project, and there every old name has the new name of the table, as a manual entry.

The tables are followed from a project that was just made, through everything that changes the
mapping. A run writes its mapping back even if it fails; one that is refused before it begins, or
broken off, changes nothing.

Results:
* `exists_write`: every step is a write of entries that could be set by hand.
* `Exportable.step`: one step keeps a table that can be written to a file.
* `parse?_print`: a file of entries is read back.
* `row?_takeIn`: the row of each name after a file was taken in.
* `exchangeable`: whatever was done to a project, its entries can be taken in anywhere.
-/

namespace Clarify

/-! ## Files of entries -/

namespace MappingFile

theorem isStorable_iff (old new : String) : isStorable old new = true ↔ Name.Storable old new := by
  rw [isStorable, Bool.and_eq_true, Bool.not_eq_true', Name.Storable, String.isEmpty_eq_false_iff]

/-- No entry of a file is refused exactly if each could be set by hand. -/
theorem refused?_eq_none_iff {entries : Std.TreeMap String String} :
    refused? entries = none ↔ ∀ old new, entries[old]? = some new → Name.Storable old new := by
  rw [refused?, List.find?_eq_none]
  constructor
  · intro passed old new here
    have mem := Std.TreeMap.mem_toList_iff_getElem?_eq_some.2 here
    exact (isStorable_iff old new).1 (by simpa using passed (old, new) mem)
  · rintro passed ⟨old, new⟩ mem
    have here := Std.TreeMap.mem_toList_iff_getElem?_eq_some.1 mem
    simp [(isStorable_iff old new).2 (passed old new here)]

/-- The names of entries, old and new. -/
def names (records : List MappingRecord) : List (String × String) :=
  records.map fun r => (r.oldName, r.newName)

/-- A file of entries is read back. -/
theorem parse?_print (records : List MappingRecord) :
    parse? (print records) = some (.ofList (names records)) := by
  have texts (rows : List (String × String)) :
      (rows.map fun row => (row.1, Json.string row.2)).mapM (fun x =>
        x.2.text?.bind fun new => pure (x.1, new)) = some rows := by
    induction rows with
    | nil => rfl
    | cons row rows ih =>
      rw [List.map_cons, List.mapM_cons, ih]
      rfl
  have printed : print records = (Json.textsOf (names records)).pretty := by
    rw [print, Json.textsOf, names, List.map_map]
    rfl
  rw [parse?, printed, Json.parse?_pretty_textsOf]
  simp only [Option.bind_eq_bind, Option.bind_some]
  rw [texts]
  rfl

/-- In a table of rows with different keys, each key has the value that stands beside it. -/
theorem getElem?_ofList_iff {rows : List (String × String)} (different : (rows.map Prod.fst).Nodup)
    {key value : String} :
    (Std.TreeMap.ofList rows)[key]? = some value ↔ (key, value) ∈ rows := by
  have distinct : rows.Pairwise fun a b => ¬ compare a.1 b.1 = .eq := by
    refine (List.pairwise_map.1 different).imp fun ne same => ne (Std.compare_eq_iff_eq.1 same)
  have found {key value : String} (mem : (key, value) ∈ rows) :
      (Std.TreeMap.ofList rows)[key]? = some value :=
    Std.TreeMap.getElem?_ofList_of_mem (Std.compare_self) distinct mem
  refine ⟨fun here => ?_, found⟩
  have known : key ∈ rows.map Prod.fst := by
    by_contra unknown
    rw [Std.TreeMap.getElem?_ofList_of_contains_eq_false (by simpa using unknown)] at here
    cases here
  obtain ⟨⟨_, other⟩, mem, rfl⟩ := List.mem_map.1 known
  rw [found mem] at here
  cases here
  exact mem

end MappingFile

namespace Database

variable {d : Database}

/-! ## Rows that could be set by hand -/

/-- Every row could be set by hand. -/
def Storable (d : Database) : Prop :=
  ∀ old row, d.row? old = some row → Name.Storable old row.newName

/-- Every entry that is written could be set by hand. -/
def Write.Fit : Write → Prop
  | .upsert r => Name.Storable r.oldName r.newName
  | .save records => ∀ r ∈ records, Name.Storable r.oldName r.newName
  | .delete _ => True

namespace Storable

theorem upsert (h : d.Storable) {r : MappingRecord} (fit : Name.Storable r.oldName r.newName) :
    (d.upsert r).2.Storable := by
  intro old row here
  rw [row?_upsert] at here
  split at here
  · next same =>
    subst same
    cases here
    unfold written
    split
    · next row before =>
      split
      · exact h _ row before
      · exact fit
    · exact fit
  · exact h old row here

theorem perform (h : d.Storable) {w : Write} (fit : w.Fit) : (d.perform w).Storable := by
  cases w with
  | upsert r => exact h.upsert fit
  | save records =>
    show (d.save records).2.Storable
    rw [save_eq_foldl]
    exact List.foldlRecOn records _ h fun d h r mem => h.upsert (fit r mem)
  | delete name =>
    intro old row here
    change (d.mappings.erase name)[old]? = some row at here
    rw [Std.TreeMap.getElem?_erase] at here
    split at here
    · cases here
    · exact h old row here

/-- A mapping that takes in the table has entries only that could be set by hand. -/
theorem loadInto (h : d.Storable) {m m' : Mapping} (fit : m.Storable) {n : Nat}
    (loaded : d.loadInto m = .ok (n, m')) : m'.Storable := by
  have stored {old : String} {entry : Entry} (here : d.stored? old = some entry) :
      Name.Storable old entry.newName := by
    obtain ⟨row, there, named⟩ := Option.bind_eq_some_iff.1 here
    obtain ⟨origin, -, rfl⟩ := Option.map_eq_some_iff.1 named
    exact h old row there
  intro old entry here
  rw [get?_loadInto loaded] at here
  cases there : d.stored? old with
  | none =>
    rw [there] at here
    exact fit old entry here
  | some entry' =>
    rw [there, Option.map_some, Option.some_or, Option.some_inj] at here
    subst here
    unfold Entry.over
    split
    · exact stored there
    · cases held : m.get? old with
      | none => exact stored there
      | some entry => exact fit old entry held

end Storable

/-- The table can be written to a file that is taken in anywhere. -/
structure Exportable (d : Database) : Prop where
  storable : d.Storable
  readable : d.Readable
  whole : d.fault? .mappings = none

/-! ## What is done to a project -/

/-- The tables of a project that was just made. -/
def created : Database :=
  { blank with version := DatabaseError.currentVersion, fault? := fun _ => none }

theorem migrate_blank : blank.migrate = .ok created := rfl

/-- What changes the mapping of a project. -/
inductive Step where
  /-- An entry is set by hand. -/
  | set (old new time : String)
  /-- The entries in the text of a file are taken in. -/
  | takeIn (text time : String)
  | delete (old : String)
  /-- A run, which fails if there is no archive, and the record of it. -/
  | run (disturbance : Disturbance) (setup : RunSetup) (archive : Option Archive)
      (record : RunRecord) (time : String)

/-- The mapping that a run ends with. -/
def ended (disturbance : Disturbance) (setup : RunSetup) (m : Mapping) : Option Archive → Mapping
  | some archive => (ArchiveRun.run disturbance setup m archive).store
  | none => m

/-- The tables after a step. What is refused leaves them as they are. -/
def step (d : Database) : Step → Database
  | .set old new time => if MappingFile.isStorable old new then (d.setManual old new time).2 else d
  | .takeIn text time =>
    match MappingFile.parse? text with
    | some entries =>
      if (MappingFile.refused? entries).isNone then (d.takeIn entries time).2 else d
    | none => d
  | .delete old => (d.delete old).2
  | .run disturbance setup archive record time =>
    match d.loadInto .withDictionary with
    | .ok (_, m) => ((d.saveFrom (ended disturbance setup m archive) time).2.insertRun record).2
    | .error _ => d

/-- The tables of a project after all that was done to it. -/
def after (steps : List Step) : Database := steps.foldl step created

theorem storable_ended {m : Mapping} (h : m.Storable) (disturbance : Disturbance)
    (setup : RunSetup) (archive : Option Archive) :
    (ended disturbance setup m archive).Storable := by
  cases archive with
  | none => exact h
  | some archive => exact h.run disturbance setup archive

theorem fault?_perform (w : Write) : (d.perform w).fault? = d.fault? := by
  have upsert (d : Database) (r : MappingRecord) : (d.upsert r).2.fault? = d.fault? := by
    rw [Database.upsert]
    split <;> rfl
  cases w with
  | upsert r => exact upsert d r
  | save records =>
    show (d.save records).2.fault? = d.fault?
    rw [save_eq_foldl]
    exact List.foldlRecOn (motive := fun d' : Database => d'.fault? = d.fault?) records _ rfl
      fun d' same r _ => (upsert d' r).trans same
  | delete old => rfl

/-- A step is a write to the mapping, and what it writes could be set by hand. -/
theorem exists_write (h : d.Storable) (s : Step) :
    ∃ w : Write, w.Fit ∧ (d.step s).mappings = (d.perform w).mappings ∧
      (d.step s).fault? = d.fault? := by
  have nothing : ∃ w : Write, w.Fit ∧ d.mappings = (d.perform w).mappings ∧ d.fault? = d.fault? :=
    ⟨.save [], by simp [Write.Fit], rfl, rfl⟩
  cases s with
  | set old new time =>
    rw [step]
    split
    · next fit =>
      exact ⟨.upsert ⟨old, new, .manual, time⟩, (MappingFile.isStorable_iff old new).1 fit, rfl,
        fault?_perform (.upsert _)⟩
    · exact nothing
  | takeIn text time =>
    rw [step]
    split
    · next entries _ =>
      split
      · next accepted =>
        have passed := MappingFile.refused?_eq_none_iff.1 (Option.isNone_iff_eq_none.1 accepted)
        refine ⟨.save _, fun r mem => ?_, rfl, fault?_perform (.save _)⟩
        obtain ⟨⟨old, new⟩, listed, rfl⟩ := List.mem_map.1 mem
        exact passed old new (Std.TreeMap.mem_toList_iff_getElem?_eq_some.1 listed)
      · exact nothing
    · exact nothing
  | delete old => exact ⟨.delete old, trivial, rfl, rfl⟩
  | run disturbance setup archive record time =>
    rw [step]
    split
    · next n m loaded =>
      have fit := storable_ended (h.loadInto Mapping.storable_withDictionary loaded) disturbance
        setup archive
      refine ⟨.save _, fun r mem => ?_, rfl, fault?_perform (.save _)⟩
      obtain ⟨⟨old, entry⟩, listed, rfl⟩ := List.mem_map.1 mem
      exact fit old entry ((Mapping.mem_toList_iff _).1 listed)
    · exact nothing

/-- One step keeps what can be written to a file. -/
theorem Exportable.step (h : d.Exportable) (s : Step) : (d.step s).Exportable := by
  obtain ⟨w, fit, same, fault⟩ := exists_write h.storable s
  have rows (old : String) : (d.step s).row? old = (d.perform w).row? old := by
    rw [row?, same, row?]
  have storable := h.storable.perform fit
  have readable := h.readable.perform w
  exact {
    storable := fun old row here => storable old row (rows old ▸ here)
    readable := fun old row here => readable old row (rows old ▸ here)
    whole := fault ▸ h.whole }

theorem exportable_created : created.Exportable where
  storable := by
    intro old row here
    cases here
  readable := by
    intro old row here
    cases here
  whole := rfl

theorem exportable_after (steps : List Step) : (after steps).Exportable :=
  List.foldlRecOn steps step exportable_created fun _ h s _ => h.step s

/-! ## Files that are taken in -/

/-- The row of each name after a file was taken in. -/
theorem row?_takeIn (entries : Std.TreeMap String String) (time key : String) :
    (d.takeIn entries time).2.row? key =
      ((entries[key]?).map fun new => ⟨new, Origin.manual.word, time⟩).or (d.row? key) := by
  rw [takeIn]
  cases here : entries[key]? with
  | none =>
    refine row?_save_of_not_mem fun mem => ?_
    rw [List.map_map] at mem
    obtain ⟨⟨key, new⟩, listed, rfl⟩ := List.mem_map.1 mem
    cases (Std.TreeMap.mem_toList_iff_getElem?_eq_some.1 listed).symm.trans here
  | some new =>
    have different : (entries.toList.map Prod.fst).Nodup := by
      rw [Std.TreeMap.map_fst_toList_eq_keys]
      exact Std.TreeMap.nodup_keys
    refine (row?_save_of_mem (r := ⟨key, new, .manual, time⟩) ?_ ?_).trans ?_
    · rw [List.map_map]
      exact different
    · exact List.mem_map.2 ⟨(key, new), Std.TreeMap.mem_toList_iff_getElem?_eq_some.2 here, rfl⟩
    · rw [written_eq fun _ _ _ => rfl]
      rfl

/-- The names in a file are those of the rows. -/
theorem mem_names_iff {records : List MappingRecord} (listed : d.listMappings = .ok records)
    {old new : String} :
    (old, new) ∈ MappingFile.names records ↔ (d.row? old).map MappingRow.newName = some new := by
  have same : MappingFile.names records = d.mappings.toList.map fun x => (x.1, x.2.newName) := by
    refine Except.map_eq_of_mapM (fun (old, row) r read => ?_) listed
    obtain ⟨origin, -, rfl⟩ := record_eq_ok_iff.1 read
    rfl
  rw [same, List.mem_map, Option.map_eq_some_iff]
  constructor
  · rintro ⟨⟨_, row⟩, mem, names⟩
    cases names
    exact ⟨row, mem_mappings_iff.1 mem, rfl⟩
  · rintro ⟨row, here, rfl⟩
    exact ⟨(old, row), mem_mappings_iff.2 here, rfl⟩

/-- A table that can be written to a file is taken in by any project. -/
theorem Exportable.exists_records (h : d.Exportable) :
    ∃ records, d.listMappings = .ok records ∧
      MappingFile.refused? (.ofList (MappingFile.names records)) = none ∧
      ∀ (d' : Database) (time old new : String), (old, new) ∈ MappingFile.names records →
        (d'.takeIn (.ofList (MappingFile.names records)) time).2.row? old =
          some ⟨new, Origin.manual.word, time⟩ := by
  obtain ⟨records, listed⟩ := exists_listMappings_iff.2 h.readable
  have different : ((MappingFile.names records).map Prod.fst).Nodup := by
    rw [MappingFile.names, List.map_map]
    exact nodup_listed listed
  refine ⟨records, listed, MappingFile.refused?_eq_none_iff.2 fun old new here => ?_,
    fun d' time old new mem => ?_⟩
  · have mem := (MappingFile.getElem?_ofList_iff different).1 here
    obtain ⟨row, there, rfl⟩ := Option.map_eq_some_iff.1 ((mem_names_iff listed).1 mem)
    exact h.storable old row there
  · rw [row?_takeIn, (MappingFile.getElem?_ofList_iff different).2 mem]
    rfl

/-- Whatever was done to a project since it was made, every row of its table has an old name that is
not empty and a new name that is valid. The table can be listed, and the file that it is written to
is taken in by any project, where every old name then has its new name as a manual entry. -/
theorem exchangeable (steps : List Step) :
    (∀ old row, (after steps).row? old = some row →
      old ≠ "" ∧ Name.isValid row.newName = true) ∧
    (after steps).fault? .mappings = none ∧
    ∃ records, (after steps).listMappings = .ok records ∧
      (∀ old new, (old, new) ∈ MappingFile.names records ↔
        ((after steps).row? old).map MappingRow.newName = some new) ∧
      ∃ entries, (Utf8.decode (Utf8.encode (MappingFile.print records))).toOption.bind
          MappingFile.parse? = some entries ∧
        MappingFile.refused? entries = none ∧
        ∀ (d : Database) (time old new : String), (old, new) ∈ MappingFile.names records →
          (d.takeIn entries time).2.row? old = some ⟨new, Origin.manual.word, time⟩ := by
  have h := exportable_after steps
  obtain ⟨records, listed, accepted, imported⟩ := h.exists_records
  refine ⟨h.storable, h.whole, records, listed, fun old new => mem_names_iff listed, _, ?_,
    accepted, imported⟩
  rw [Utf8.decode_encode]
  exact MappingFile.parse?_print records

/-- An entry that is set, a file that is taken in, a run, and an entry that is deleted. -/
def history : List Step := [
  .set "c" "attackTarget" "t0",
  .takeIn "\x7b\"b\": \"isB\", \"vodka\": \"target\"\x7d" "t1",
  .run .none ⟨.empty, ⟨.silent, 0, 2⟩, 1, 64, 60⟩ (some ⟨[]⟩)
    (.ofFailure "in.jar" "out.jar" "t2" "t3") "t3",
  .delete "c"]

/-- Of the dictionary, `pisun` is written by the run, and `vodka` has the name of the file. -/
theorem exchangeable_history : ∃ records entries,
    (after history).listMappings = .ok records ∧
    MappingFile.refused? entries = none ∧
    (created.takeIn entries "t4").2.row? "pisun" = some ⟨"isAttackActive", "manual", "t4"⟩ ∧
    (created.takeIn entries "t4").2.row? "vodka" = some ⟨"target", "manual", "t4"⟩ := by
  obtain ⟨-, -, records, listed, names, entries, -, accepted, imported⟩ := exchangeable history
  have fromRun : (after history).row? "pisun" = some ⟨"isAttackActive", "dictionary", "t3"⟩ := by
    decide +kernel
  have fromFile : (after history).row? "vodka" = some ⟨"target", "manual", "t3"⟩ := by
    decide +kernel
  refine ⟨records, entries, listed, accepted, ?_, ?_⟩
  · exact imported created "t4" "pisun" "isAttackActive" ((names _ _).2 (by rw [fromRun]; rfl))
  · exact imported created "t4" "vodka" "target" ((names _ _).2 (by rw [fromFile]; rfl))

end Database

end Clarify
