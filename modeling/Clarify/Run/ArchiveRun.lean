import Clarify.Archive.Draft
import Clarify.Archive.Walk
import Clarify.Run.Report
import Clarify.Run.Settled

/-!
# A run over an archive

A run reads the classes of an archive twice. The first time it surveys them and settles all
names; the second time it clarifies each class on its own. Then the new archive is put together in
the order of the old one: a class that was clarified is replaced, everything else is copied. A
class that is lost to a panic or to the deadline, in either pass, is copied as well, and so is one
that cannot be read or clarified. An entry that has no bytes to copy puts an end to the new
archive.

Results:
* `assemble_induction`: what is kept with every entry holds of the new archive.
* `names_assembled`: the new archive has the names of the old one, in the same order.
-/

namespace Clarify

/-- What a run works with (`Deobfuscator`). -/
structure RunSetup where
  suspects : Suspects
  policy : NamingPolicy
  workers : Nat
  queueCapacity : Nat
  timeoutSeconds : Nat

/-- The classes that are lost in each pass whatever is in them, by the names of their entries. -/
structure Disturbance where
  survey : String → Option UnitError
  clarify : String → Option UnitError

/-- Nothing is lost. -/
def Disturbance.none : Disturbance := ⟨fun _ => Option.none, fun _ => Option.none⟩

/-- A class to be clarified. -/
structure UnitSource where
  /-- The name of the entry. -/
  name : String
  bytes : Bytes
deriving Repr, DecidableEq

namespace ArchiveRun

/-! ## Gathering the classes -/

/-- The classes gathered and what was logged about the others, the latest first. -/
structure Gathered where
  units : List UnitSource
  notes : List Note

/-- Takes in a visited entry if it is a class. Of several classes under one name the first
counts. -/
def Gathered.add (g : Gathered) : Except UnreadableEntry VisitedEntry → Gathered
  | .error e =>
    { g with notes := ⟨.warn, s!"{e.name}: could not read entry: {e.cause.message}"⟩ :: g.notes }
  | .ok v =>
    if v.kind ≠ .bytecodeUnit then g
    else if g.units.any fun u => u.name == v.name then
      { g with notes := ⟨.warn, s!"{v.name}: duplicate entry, keeping the first one"⟩ :: g.notes }
    else { g with units := ⟨v.name, v.bytes⟩ :: g.units }

/-- The classes of an archive in order, and what is logged about entries that are left out
(`unit_entries`). -/
def gather (a : Archive) : List UnitSource × List Note :=
  let g := a.walk.foldl Gathered.add ⟨[], []⟩
  (g.units.reverse, g.notes.reverse)

/-! ## The two passes -/

/-- Surveys a class (`survey_unit`). -/
def surveyUnit (store : Mapping) (policy : NamingPolicy) (bytes : Bytes) :
    Except UnitError Survey :=
  match ClassFile.parse bytes with
  | .ok c => .ok (c.survey store policy)
  | .error e => .error (.malformed e)

/-- What became of a class in the first pass. -/
def surveyOutcome (d : Disturbance) (store : Mapping) (policy : NamingPolicy) (u : UnitSource) :
    Except UnitError Survey :=
  match d.survey u.name with
  | some lost => .error lost
  | none => surveyUnit store policy u.bytes

/-- The cause for which a class does not get into the second pass: its survey did not come to an
end. -/
def excluded? : Except UnitError Survey → Option UnitError
  | .error .timeout => some .timeout
  | .error (.crashed reason) => some (.crashed reason)
  | _ => none

/-- What became of a class in the end, and what is logged about it. -/
def clarifyOutcome (d : Disturbance) (ctx : PassContext)
    (surveyed : Except UnitError Survey) (u : UnitSource) :
    Except UnitError UnitOutput × List Note :=
  match excluded? surveyed with
  | some cause => (.error cause, [])
  | none =>
    match d.clarify u.name with
    | some lost => (.error lost, [])
    | none => clarifyUnit ctx u.name u.bytes

/-! ## Putting the new archive together -/

/-- What became of each class. -/
abbrev Results := List (String × Except UnitError UnitOutput)

/-- The new archive so far. -/
structure Assembled where
  draft : Archive.Draft
  counts : ChangeCounts
  transformed : Nat
  skipped : Nat
  /-- What is logged, the latest first. -/
  notes : List Note

namespace Assembled

/-- Before the first entry. -/
def empty : Assembled := ⟨.empty, .zero, 0, 0, []⟩

/-- With another entry, unless its name is in use. -/
def pass (a : Assembled) (e : Archive.Entry) : Assembled :=
  match a.draft.add? e with
  | some draft => { a with draft }
  | none => { a with notes := ⟨.warn, s!"{e.name}: duplicate entry skipped"⟩ :: a.notes }

/-- With a class that is copied as it was. -/
def skip (a : Assembled) (e : Archive.Entry) (reason : String) : Assembled :=
  { a with
    skipped := a.skipped + 1
    notes := ⟨.warn, s!"{e.name}: passed through untransformed{reason}"⟩ :: a.notes }.pass e

/-- With a class in its new form. -/
def replace (a : Assembled) (e : Archive.Entry) (out : UnitOutput) : Assembled :=
  { a with transformed := a.transformed + 1, counts := a.counts + out.counts }.pass
    (e.withContent out.bytes)

/-- With the next entry of the old archive. -/
def add (results : Results) (a : Assembled) (e : Archive.Entry) : Assembled :=
  if EntryKind.ofName e.name = .bytecodeUnit ∧ a.draft.contains e.name = false then
    match results.lookup e.name with
    | some (.ok out) => a.replace e out
    | some (.error cause) => a.skip e (": " ++ cause.message)
    | none => a.skip e ""
  else a.pass e

end Assembled

/-- The entries in front of the first one that cannot be copied. -/
def whole (a : Archive) : List Archive.Entry := a.entries.takeWhile fun e => e.gap?.isNone

/-- The new archive for the results of all classes, as far as it gets (part of
`Deobfuscator::run_inner`). -/
def assemble (results : Results) (a : Archive) : Assembled :=
  (whole a).foldl (Assembled.add results) .empty

/-! ## The run -/

/-- What a run leads to. -/
structure Outcome where
  archive : Archive
  store : Mapping
  units : Nat
  transformed : Nat
  skipped : Nat
  predicted : Nat
  collisions : Nat
  timedOut : Bool
  counts : ChangeCounts
  /-- Why the new archive is not complete, if it is not. -/
  fault? : Option EntryError
  /-- What is logged between the first and the last line. -/
  notes : List Note

/-- What is logged if the deadline passed. -/
def deadlineNote (seconds : Nat) : Note :=
  ⟨.warn, s!"run deadline of {seconds}s elapsed; unfinished units are passed through"⟩

/-- Runs over an archive (`Deobfuscator::run_inner`). -/
def run (d : Disturbance) (setup : RunSetup) (store : Mapping) (a : Archive) : Outcome :=
  let (units, problems) := gather a
  let surveyed := units.map fun u => (u, surveyOutcome d store setup.policy u)
  let settled := Settled.ofSurveys store (surveyed.filterMap fun s => s.2.toOption)
  let ctx : PassContext := ⟨settled.store, settled.plan, setup.suspects⟩
  let clarified := surveyed.map fun (u, s) => (u.name, clarifyOutcome d ctx s u)
  let results := clarified.map fun (name, r) => (name, r.1)
  let timedOut := results.any fun (_, r) => r matches .error .timeout
  let assembled := assemble results a
  { archive := assembled.draft.archive, store := settled.store, units := units.length
    transformed := assembled.transformed, skipped := assembled.skipped
    predicted := settled.predicted, collisions := settled.collisions, timedOut
    counts := assembled.counts, fault? := a.entries.findSome? Archive.Entry.gap?
    notes := problems ++ settled.notes ++ clarified.flatMap (fun (_, r) => r.2)
      ++ (if timedOut then [deadlineNote setup.timeoutSeconds] else [])
      ++ assembled.notes.reverse }

/-- How a run that reached its end is rated. -/
def Outcome.status (o : Outcome) : RunStatus := if o.skipped = 0 then .completed else .degraded

/-! ## Names are kept -/

namespace Assembled

theorem archive_pass_of_unused {a : Assembled} {e : Archive.Entry}
    (unused : a.draft.contains e.name = false) :
    (a.pass e).draft.archive.names = a.draft.archive.names ++ [e.name] := by
  simp [pass, Archive.Draft.add?, unused, Archive.Draft.archive, Archive.names]

theorem names_add_of_unused (results : Results) {a : Assembled} {e : Archive.Entry}
    (unused : a.draft.contains e.name = false) :
    (a.add results e).draft.archive.names = a.draft.archive.names ++ [e.name] := by
  unfold add
  split
  · split
    · exact archive_pass_of_unused unused
    · exact archive_pass_of_unused unused
    · exact archive_pass_of_unused unused
  · exact archive_pass_of_unused unused

end Assembled

theorem whole_eq {a : Archive} (copied : ∀ e ∈ a.entries, e.gap? = none) : whole a = a.entries := by
  have kept := @List.takeWhile_append_of_pos _ (fun e => e.gap?.isNone) a.entries [] fun e mem => by
    simp [copied e mem]
  simpa [whole] using kept

/-- What holds before the first entry and is kept with every entry of a name not yet in use holds of
the new archive. -/
theorem assemble_induction {results : Results} {a : Archive}
    {motive : List Archive.Entry → Assembled → Prop} (different : a.names.Nodup)
    (copied : ∀ e ∈ a.entries, e.gap? = none) (start : motive [] .empty)
    (step : ∀ {before : List Archive.Entry} {s : Assembled} {e : Archive.Entry},
      e ∈ a.entries → s.draft.contains e.name = false → motive before s →
      motive (before ++ [e]) (s.add results e)) :
    motive a.entries (assemble results a) := by
  have fold (rest before : List Archive.Entry) (s : Assembled) (all : before ++ rest = a.entries)
      (names : s.draft.archive.names = before.map Archive.Entry.name) (kept : motive before s) :
      motive a.entries (rest.foldl (Assembled.add results) s) := by
    induction rest generalizing before s with
    | nil => rwa [← all, List.append_nil]
    | cons e rest ih =>
      have unused : s.draft.contains e.name = false := by
        rw [Bool.eq_false_iff, ne_eq, Archive.Draft.contains_iff, names]
        intro used
        rw [Archive.names, ← all, List.map_append] at different
        exact (List.nodup_append.1 different).2.2 e.name used e.name (by simp) rfl
      have inside : e ∈ a.entries := by simp [← all]
      refine ih (before ++ [e]) (s.add results e) (by simp [← all]) ?_ (step inside unused kept)
      rw [Assembled.names_add_of_unused results unused, names, List.map_append]
      rfl
  rw [assemble, whole_eq copied]
  exact fold a.entries [] .empty rfl rfl start

theorem names_assembled {results : Results} {a : Archive} (different : a.names.Nodup)
    (copied : ∀ e ∈ a.entries, e.gap? = none) :
    (assemble results a).draft.archive.names = a.names := by
  refine assemble_induction (motive := fun before s =>
    s.draft.archive.names = before.map Archive.Entry.name) different copied rfl ?_
  intro before s e _ unused same
  rw [Assembled.names_add_of_unused results unused, same, List.map_append]
  rfl

end ArchiveRun

end Clarify
