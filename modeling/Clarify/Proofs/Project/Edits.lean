import Clarify.Proofs.Naming.Again
import Clarify.Proofs.Naming.Calls
import Clarify.Proofs.Project.Rows
import Clarify.Run.ArchiveRun

/-!
# Edits while a run is working

A run takes in the table at its start and writes its whole mapping back at its end. In between,
other processes may set manual mappings. What they set stays, unless the run took in a manual entry
of the same name: it writes that entry back, and a manual entry replaces a manual row, however old
it is.

Results:
* `exists_calls_run`: a run over an archive does nothing to its mapping but insert predicted names.
* `run?_working`: the mapping and the table after any row of events between the two ends of a run.
* `row?_saved`: the row of a name that was edited, once the run is over.
* `exists_undone`: a run can undo an edit.
-/

namespace Clarify

/-! ## What a run does to its mapping -/

namespace Mapping

/-- The call inserts an entry that is not manual. -/
def Call.IsAutomatic : Call → Prop
  | .insert _ _ origin => origin ≠ .manual
  | .override _ _ => False

/-- Committing proposals is a row of calls. -/
theorem exists_calls_foldl_commit (row : List Proposal) (c : Commitment) :
    ∃ calls : List (Unit × Call), (∀ x ∈ calls, x.2.IsAutomatic) ∧
      (row.foldl Commitment.commit c).store = c.store.after calls := by
  induction row generalizing c with
  | nil => exact ⟨[], by simp, rfl⟩
  | cons p row ih =>
    obtain ⟨calls, automatic, eq⟩ := ih (c.commit p)
    obtain ⟨same, -⟩ | ⟨store, -⟩ := c.commit_eq p
    · refine ⟨calls, automatic, eq.trans ?_⟩
      rw [same]
    · refine ⟨((), .insert p.oldName p.newName .predicted) :: calls, ?_, eq.trans ?_⟩
      · exact List.forall_mem_cons.2 ⟨by simp [Call.IsAutomatic], automatic⟩
      · rw [store]
        rfl

theorem exists_calls_run (d : Disturbance) (setup : RunSetup) (m : Mapping) (a : Archive) :
    ∃ calls : List (Unit × Call), (∀ x ∈ calls, x.2.IsAutomatic) ∧
      (ArchiveRun.run d setup m a).store = m.after calls :=
  exists_calls_foldl_commit _ _

end Mapping

/-! ## Manual entries -/

/-- The new name of an entry, if it is manual. -/
def Entry.manual? (entry : Entry) : Option String :=
  if entry.origin = .manual then some entry.newName else none

namespace Mapping

/-- The new name that a name has by a manual entry. -/
def manual? (m : Mapping) (key : String) : Option String := (m.get? key).bind Entry.manual?

theorem manual?_insertIfAbsent (m : Mapping) (old new key : String) {origin : Origin}
    (automatic : origin ≠ .manual) :
    (m.insertIfAbsent old new origin).2.manual? key = m.manual? key := by
  rw [manual?, get?_insertIfAbsent, manual?]
  split
  · next here =>
    subst here
    cases m.get? old with
    | none => exact if_neg automatic
    | some entry => rfl
  · rfl

theorem manual?_withDictionary (key : String) : withDictionary.manual? key = none := by
  refine withDictionary_induction (P := fun m => m.manual? key = none) rfl ?_
  intro m old new none
  exact (m.manual?_insertIfAbsent old new key (by decide)).trans none

/-- Calls that are not manual leave the manual entries as they are. -/
theorem manual?_after {ι : Type} (m : Mapping) {calls : List (ι × Call)}
    (automatic : ∀ x ∈ calls, x.2.IsAutomatic) (key : String) :
    (m.after calls).manual? key = m.manual? key := by
  induction calls generalizing m with
  | nil => rfl
  | cons x calls ih =>
    obtain ⟨inserts, automatic⟩ := List.forall_mem_cons.1 automatic
    refine (ih _ automatic).trans ?_
    rcases x with ⟨worker, ⟨old, new, origin⟩ | _⟩
    · exact m.manual?_insertIfAbsent old new key inserts
    · exact inserts.elim

end Mapping

namespace Database

variable {d : Database} {m : Mapping}

/-- The new name that a name has by a manual row. -/
def manual? (d : Database) (key : String) : Option String := (d.stored? key).bind Entry.manual?

theorem manual?_loadInto {m' : Mapping} {n : Nat} (loaded : d.loadInto m = .ok (n, m'))
    (key : String) : m'.manual? key = (d.manual? key).or (m.manual? key) := by
  rw [Mapping.manual?, get?_loadInto loaded, manual?, Mapping.manual?]
  cases d.stored? key with
  | none => rfl
  | some entry =>
    show (entry.over (m.get? key)).manual? = entry.manual?.or _
    by_cases manual : entry.origin = .manual
    · rw [Entry.over, if_pos manual, Entry.manual?, if_pos manual, Option.some_or]
    · have automatic : entry.manual? = none := if_neg manual
      rw [Entry.over, if_neg manual, automatic, Option.none_or]
      cases m.get? key with
      | none => exact automatic
      | some there => rfl

/-- A manual entry is always written. -/
theorem row?_upsert_of_manual (old new time key : String) :
    (d.upsert ⟨old, new, .manual, time⟩).2.row? key =
      if old = key then some ⟨new, Origin.manual.word, time⟩ else d.row? key := by
  rw [row?_upsert, written_eq fun _ _ _ => rfl]
  rfl

/-- A manual row is replaced by a manual entry of the mapping that is written, and by no other. -/
theorem row?_saveFrom_of_manual {key : String} {row : MappingRow} (here : d.row? key = some row)
    (manual : row.origin = Origin.manual.word) (time : String) :
    (d.saveFrom m time).2.row? key = some ((m.manual? key).elim row fun earlier =>
      ⟨earlier, Origin.manual.word, time⟩) := by
  rw [row?_saveFrom, here, Mapping.manual?]
  cases m.get? key with
  | none => rfl
  | some entry =>
    show some (written (some row) ⟨key, entry.newName, entry.origin, time⟩) =
      some (entry.manual?.elim row _)
    by_cases same : entry.origin = .manual
    · rw [written_eq fun _ _ _ => same, Entry.manual?, if_pos same, rowOf, same]
      rfl
    · rw [Entry.manual?, if_neg same, written, if_pos ⟨manual, same⟩]
      rfl

end Database

/-! ## A run among other processes -/

/-- The table that all processes share, and the mapping of a run that has taken it in and has not
written it back yet. -/
structure Scene where
  database : Database
  held : Option Mapping

namespace Scene

/-- What may happen. -/
inductive Event where
  /-- Another process sets a manual mapping. -/
  | set (old new time : String)
  /-- The run takes in the table. -/
  | load
  /-- The run works on an archive. -/
  | work (disturbance : Disturbance) (setup : RunSetup) (archive : Archive)
  /-- The run writes its mapping back. -/
  | save (time : String)

/-- The scene after an event, if it can happen. -/
def step? (s : Scene) : Event → Option Scene
  | .set old new time =>
    some { s with database := (s.database.upsert ⟨old, new, .manual, time⟩).2 }
  | .load =>
    match s.held, s.database.loadInto .withDictionary with
    | none, .ok (_, m) => some { s with held := some m }
    | _, _ => none
  | .work d setup a =>
    s.held.map fun m => { s with held := some (ArchiveRun.run d setup m a).store }
  | .save time => s.held.map fun m => ⟨(s.database.saveFrom m time).2, none⟩

/-- The scene after a row of events, if they can happen one after the other. -/
def run? (s : Scene) : List Event → Option Scene
  | [] => some s
  | e :: events => (s.step? e).bind fun s => s.run? events

/-- The row that an event sets for a name. -/
def Event.row? (key : String) : Event → Option MappingRow
  | .set old new time => if old = key then some ⟨new, Origin.manual.word, time⟩ else none
  | _ => none

theorem Event.row?_eq_some_iff {key : String} {e : Event} {row : MappingRow} :
    e.row? key = some row ↔ ∃ new time, e = .set key new time ∧
      row = ⟨new, Origin.manual.word, time⟩ := by
  cases e with
  | set old new time => simp [Event.row?, eq_comm]
  | _ => simp [Event.row?]

/-- The row that was set last for a name. -/
def latest? (key : String) (events : List Event) : Option MappingRow :=
  events.reverse.findSome? (Event.row? key)

variable {s s' : Scene} {events : List Event}

theorem run?_append (s : Scene) (events more : List Event) :
    s.run? (events ++ more) = (s.run? events).bind fun s => s.run? more := by
  induction events generalizing s with
  | nil => rfl
  | cons e events ih =>
    show (s.step? e).bind (fun s => s.run? (events ++ more)) = _
    simp only [ih, run?, Option.bind_assoc]

theorem latest?_cons (key : String) (e : Event) (events : List Event) :
    latest? key (e :: events) = (latest? key events).or (e.row? key) := by
  rw [latest?, List.reverse_cons, List.findSome?_append, List.findSome?_singleton]
  rfl

theorem origin_of_latest? {key : String} {row : MappingRow} (h : latest? key events = some row) :
    row.origin = Origin.manual.word := by
  obtain ⟨e, -, sets⟩ := List.exists_of_findSome?_eq_some h
  obtain ⟨new, time, -, rfl⟩ := Event.row?_eq_some_iff.1 sets
  rfl

/-- One event while a run is working: its manual entries stay, and each row is the one that was
set. -/
theorem step?_working {m : Mapping} (held : s.held = some m) {e : Event}
    (unsaved : ∀ time, e ≠ .save time) (h : s.step? e = some s') :
    ∃ m', s'.held = some m' ∧ ∀ key, m'.manual? key = m.manual? key ∧
      s'.database.row? key = (e.row? key).or (s.database.row? key) := by
  cases e with
  | set old new time =>
    cases h
    refine ⟨m, held, fun key => ⟨rfl, ?_⟩⟩
    show (s.database.upsert ⟨old, new, .manual, time⟩).2.row? key = _
    rw [Database.row?_upsert_of_manual, Event.row?]
    split <;> rfl
  | load =>
    rw [step?, held] at h
    cases h
  | work d setup a =>
    rw [step?, held] at h
    cases h
    obtain ⟨calls, automatic, eq⟩ := Mapping.exists_calls_run d setup m a
    refine ⟨_, rfl, fun key => ⟨?_, rfl⟩⟩
    rw [eq, Mapping.manual?_after m automatic]
  | save time => exact absurd rfl (unsaved time)

/-- A row of events while a run is working. -/
theorem run?_working {m : Mapping} (held : s.held = some m)
    (unsaved : ∀ time, Event.save time ∉ events) (h : s.run? events = some s') :
    ∃ m', s'.held = some m' ∧ ∀ key, m'.manual? key = m.manual? key ∧
      s'.database.row? key = (latest? key events).or (s.database.row? key) := by
  induction events generalizing s m with
  | nil =>
    cases h
    exact ⟨m, held, fun key => ⟨rfl, rfl⟩⟩
  | cons e events ih =>
    obtain ⟨s₁, first, rest⟩ := Option.bind_eq_some_iff.1 h
    obtain ⟨m₁, held₁, step⟩ := step?_working held
      (fun time same => unsaved time (same ▸ List.mem_cons_self)) first
    obtain ⟨m', held', steps⟩ := ih held₁
      (fun time mem => unsaved time (List.mem_cons_of_mem e mem)) rest
    refine ⟨m', held', fun key => ?_⟩
    obtain ⟨manual, row⟩ := step key
    obtain ⟨manual', row'⟩ := steps key
    refine ⟨manual'.trans manual, ?_⟩
    rw [row', row, latest?_cons, Option.or_assoc]

/-- Of a name that was edited while a run was working, the row after the run is the one that was
set last, unless the run had taken in a manual entry of that name, which is there again then. So
the latest new name stands exactly if the run took in no other manual name. -/
theorem row?_saved {d : Database} {time : String}
    (course : (⟨d, none⟩ : Scene).run? (.load :: events ++ [.save time]) = some s)
    (unsaved : ∀ time, Event.save time ∉ events) {key : String} {row : MappingRow}
    (edited : latest? key events = some row) :
    s.database.row? key = some ((d.manual? key).elim row fun earlier =>
        ⟨earlier, Origin.manual.word, time⟩) ∧
      ((s.database.row? key).map MappingRow.newName = some row.newName ↔
        ∀ earlier, d.manual? key = some earlier → earlier = row.newName) := by
  rw [run?_append] at course
  obtain ⟨s₂, course, saved⟩ := Option.bind_eq_some_iff.1 course
  obtain ⟨s₁, loaded, working⟩ := Option.bind_eq_some_iff.1 course
  have start : ∃ n m, d.loadInto .withDictionary = .ok (n, m) ∧ s₁ = ⟨d, some m⟩ := by
    rw [step?] at loaded
    split at loaded
    · next n m _ taken =>
      cases loaded
      exact ⟨n, m, taken, rfl⟩
    · cases loaded
  obtain ⟨n, m, taken, rfl⟩ := start
  obtain ⟨m', held, steps⟩ := run?_working rfl unsaved working
  obtain ⟨manual, here⟩ := steps key
  rw [edited, Option.some_or] at here
  rw [Database.manual?_loadInto taken, Mapping.manual?_withDictionary, Option.or_none] at manual
  have result : s.database.row? key = some ((d.manual? key).elim row fun earlier =>
      ⟨earlier, Origin.manual.word, time⟩) := by
    rw [run?, step?, held] at saved
    cases saved
    show (s₂.database.saveFrom m' time).2.row? key = _
    rw [Database.row?_saveFrom_of_manual here (origin_of_latest? edited), manual]
  refine ⟨result, ?_⟩
  rw [result, Option.map_some, Option.some_inj]
  cases d.manual? key with
  | none => simp
  | some earlier => simp

/-- A table with a manual row. -/
def oneManual : Database := (Database.blank.upsert ⟨"k", "attackTarget", .manual, "t0"⟩).2

/-- Two edits, before and after the run works on an archive. -/
def twoEdits : List Event := [.set "k" "moveTarget" "t1",
  .work .none ⟨.empty, ⟨.silent, 0, 2⟩, 1, 64, 60⟩ ⟨[]⟩, .set "zov" "isZov" "t2"]

theorem row?_saved_twoEdits :
    ∃ s, (⟨oneManual, none⟩ : Scene).run? (.load :: twoEdits ++ [.save "t3"]) = some s ∧
      s.database.row? "zov" = some ⟨"isZov", "manual", "t2"⟩ := by
  have ends : ((⟨oneManual, none⟩ : Scene).run? (.load :: twoEdits ++ [.save "t3"])).isSome := by
    decide +kernel
  obtain ⟨s, course⟩ := Option.isSome_iff_exists.1 ends
  have automatic : oneManual.manual? "zov" = none := by decide +kernel
  have edited : latest? "zov" twoEdits = some ⟨"isZov", "manual", "t2"⟩ := rfl
  obtain ⟨row, -⟩ := row?_saved course (by simp [twoEdits]) edited
  rw [automatic] at row
  exact ⟨s, course, row⟩

/-- A run can undo an edit: it took in a manual entry of that name and writes it back. -/
theorem exists_undone :
    ∃ s, (⟨oneManual, none⟩ : Scene).run? (.load :: twoEdits ++ [.save "t3"]) = some s ∧
      latest? "k" twoEdits = some ⟨"moveTarget", "manual", "t1"⟩ ∧
      s.database.row? "k" = some ⟨"attackTarget", "manual", "t3"⟩ := by
  have undone : ((⟨oneManual, none⟩ : Scene).run? (.load :: twoEdits ++ [.save "t3"])).bind
      (fun s => s.database.row? "k") = some ⟨"attackTarget", "manual", "t3"⟩ := by
    decide +kernel
  obtain ⟨s, course, row⟩ := Option.bind_eq_some_iff.1 undone
  exact ⟨s, course, rfl, row⟩

end Scene

end Clarify
