import Clarify.Proofs.Archive.Contents
import Clarify.Proofs.Run.Links
import Clarify.Run.FileRun
import Mathlib.Data.List.Nodup

/-!
# Failures stay with their entries

Every entry of an archive gets to its place in the new one, whatever is lost on the way: a class
that cannot be read or parsed, whose survey is lost, or that cannot be clarified, is copied as it
was. What a class becomes is found by its name, so the results reach the entries they belong to
because the names are different.

Results:
* `units_eq`: the classes of an archive of different names.
* `lookup_results_eq`: what is found under the name of an entry.
* `newForm?_congr`: a class that is lost in the second pass makes no difference for the others.
* `Assembled.add_cases`, `tallied_assemble`: what happens to an entry, and what is counted.
* `isolated_run`: what becomes of all entries, and what is reported.
-/

namespace Clarify.ArchiveRun

/-! ## The classes of an archive -/

/-- The class in an entry, if it can be read. -/
def unit? (e : Archive.Entry) : Option UnitSource :=
  if e.name.endsWith ".class" then e.content.toOption.map fun bytes => ⟨e.name, bytes⟩ else none

section Gathering

variable {e : Archive.Entry} {u : UnitSource}

theorem unit?_eq_some_iff : unit? e = some u ↔
    e.name.endsWith ".class" = true ∧ u.name = e.name ∧ e.content = .ok u.bytes := by
  unfold unit?
  split
  · next isUnit =>
    rw [Option.map_eq_some_iff]
    constructor
    · rintro ⟨bytes, read, rfl⟩
      exact ⟨isUnit, rfl, Except.eq_ok_of_toOption read⟩
    · rintro ⟨-, name, read⟩
      exact ⟨u.bytes, by rw [read]; rfl, by rw [← name]⟩
  · next other => exact iff_of_false (by simp) fun both => other both.1

/-- A visited entry is gathered if there is a class in it, unless there was one of its name. -/
theorem Gathered.units_add_visit {g : Gathered} {index : Nat}
    (unused : ∀ u ∈ g.units, u.name ≠ e.name) :
    (g.add (e.visit index)).units = (unit? e).toList ++ g.units := by
  unfold Archive.Entry.visit unit? Archive.Entry.content
  by_cases isUnit : e.kind = .bytecodeUnit
  · have free : (g.units.any fun u => u.name == e.name) = false := by
      simpa using unused
    rw [if_pos (Archive.Entry.kind_eq_bytecodeUnit_iff.1 isUnit)]
    cases e.obstacle? with
    | some cause => rfl
    | none =>
      dsimp only
      rw [if_pos isUnit]
      cases e.unpacked with
      | error cause => rfl
      | ok bytes => simp [add, isUnit, free, Except.toOption]
  · rw [if_neg (mt Archive.Entry.kind_eq_bytecodeUnit_iff.2 isUnit)]
    cases e.obstacle? with
    | some cause => rfl
    | none => simp [add, isUnit]

/-- The classes of an archive of different names are those of all entries that can be read. -/
theorem units_eq {a : Archive} (different : a.names.Nodup) :
    units a = a.entries.filterMap unit? := by
  have fold (rest : List Archive.Entry) (start : Nat) (g : Gathered)
      (different : (g.units.map UnitSource.name ++ rest.map Archive.Entry.name).Nodup) :
      (((rest.zipIdx start).map fun v => v.1.visit v.2).foldl Gathered.add g).units.reverse
        = g.units.reverse ++ rest.filterMap unit? := by
    induction rest generalizing start g with
    | nil => simp
    | cons e rest ih =>
      have unused : ∀ u ∈ g.units, u.name ≠ e.name := fun u mem same =>
        (List.nodup_append.1 different).2.2 u.name (List.mem_map_of_mem mem) e.name (by simp) same
      have step := @Gathered.units_add_visit e g start unused
      rw [List.zipIdx_cons, List.map_cons, List.foldl_cons]
      cases found : unit? e with
      | none =>
        rw [found] at step
        rw [ih _ _ (by rw [step]; exact different.sublist (by simp)), step,
          List.filterMap_cons_none found]
        rfl
      | some u =>
        rw [found] at step
        have grown : ((g.add (e.visit start)).units.map UnitSource.name ++
            rest.map Archive.Entry.name).Nodup := by
          rw [step, Option.toList_some, List.singleton_append, List.map_cons,
            (unit?_eq_some_iff.1 found).2.1]
          exact List.perm_middle.nodup_iff.1 different
        rw [ih _ _ grown, step, List.filterMap_cons_some found]
        simp
  exact fold a.entries 0 ⟨[], []⟩ different

end Gathering

/-! ## The results by name -/

section Results

variable (d : Disturbance) (setup : RunSetup) (store : Mapping) {a : Archive} {e : Archive.Entry}

/-- Under the name of an entry there is what became of the class in this entry, if there is one. -/
theorem lookup_results_eq (different : a.names.Nodup) (mem : e ∈ a.entries) :
    (results d setup store a).lookup e.name = (unit? e).map (outcome d setup store a) := by
  cases found : unit? e with
  | some u =>
    have inside : u ∈ units a := by
      rw [units_eq different]
      exact List.mem_filterMap.2 ⟨e, mem, found⟩
    rw [← (unit?_eq_some_iff.1 found).2.1]
    exact lookup_results d setup store inside
  | none =>
    rw [Option.map_none, List.lookup_eq_none_iff]
    intro row inside
    obtain ⟨u, isUnit, rfl⟩ := List.mem_map.1 inside
    rw [units_eq different] at isUnit
    obtain ⟨e', mem', found'⟩ := List.mem_filterMap.1 isUnit
    refine bne_iff_ne.2 fun same => ?_
    rw [List.inj_on_of_nodup_map different mem mem' (same.trans (unit?_eq_some_iff.1 found').2.1),
      found'] at found
    cases found

/-- The new form of the class in an entry, if there is one. -/
def newForm? (a : Archive) (e : Archive.Entry) : Option UnitOutput :=
  (unit? e).bind fun u => (outcome d setup store a u).toOption

variable {d setup store} in
theorem newForm?_eq_some_iff {out : UnitOutput} : newForm? d setup store a e = some out ↔
    e.name.endsWith ".class" = true ∧ ∃ bytes, e.content = .ok bytes ∧
      surveyOutcome d store setup.policy ⟨e.name, bytes⟩ ≠ .error .timeout ∧
      (∀ reason, surveyOutcome d store setup.policy ⟨e.name, bytes⟩ ≠ .error (.crashed reason)) ∧
      d.clarify e.name = none ∧
      (clarifyUnit (context d setup store a) e.name bytes).1 = .ok out := by
  rw [newForm?, Option.bind_eq_some_iff]
  constructor
  · rintro ⟨⟨name, bytes⟩, found, clarified⟩
    obtain ⟨isUnit, rfl, read⟩ := unit?_eq_some_iff.1 found
    exact ⟨isUnit, bytes, read, outcome_eq_ok_iff.1 (Except.eq_ok_of_toOption clarified)⟩
  · rintro ⟨isUnit, bytes, read, clarified⟩
    refine ⟨⟨e.name, bytes⟩, unit?_eq_some_iff.2 ⟨isUnit, rfl, read⟩, ?_⟩
    rw [outcome_eq_ok_iff.2 clarified]
    rfl

/-- What a class becomes depends on all surveys, but on the second pass only as far as the class
itself is concerned. -/
theorem newForm?_congr {d' : Disturbance} (survey : d'.survey = d.survey)
    (clarify : d'.clarify e.name = d.clarify e.name) :
    newForm? d' setup store a e = newForm? d setup store a e := by
  have surveyed : surveyOutcome d' = surveyOutcome d := by
    unfold surveyOutcome
    rw [survey]
  have context : context d' setup store a = context d setup store a := by
    unfold context surveys
    rw [surveyed]
  refine Option.bind_congr fun u found => ?_
  have lost : d'.clarify u.name = d.clarify u.name := by
    rw [(unit?_eq_some_iff.1 found).2.1, clarify]
  rw [outcome, outcome, clarifyOutcome, clarifyOutcome, surveyed, lost, context]

theorem carried_results (different : a.names.Nodup) (mem : e ∈ a.entries) :
    carried (results d setup store a) e =
      (newForm? d setup store a e).elim e fun out => e.withContent out.bytes := by
  unfold carried newForm?
  rw [lookup_results_eq d setup store different mem]
  cases found : unit? e with
  | none => rfl
  | some u =>
    have isUnit := EntryKind.ofName_eq_bytecodeUnit_iff.2 (unit?_eq_some_iff.1 found).1
    rw [Option.map_some, Option.bind_some]
    cases outcome d setup store a u with
    | error cause => rfl
    | ok out => exact if_pos isUnit

end Results

/-! ## What is counted -/

section Counting

variable (d : Disturbance) (setup : RunSetup) (store : Mapping) {a : Archive}

namespace Assembled

variable {s : Assembled} {e : Archive.Entry}

@[simp] theorem transformed_pass : (s.pass e).transformed = s.transformed := by
  unfold pass
  split <;> rfl

@[simp] theorem skipped_pass : (s.pass e).skipped = s.skipped := by
  unfold pass
  split <;> rfl

@[simp] theorem counts_pass : (s.pass e).counts = s.counts := by
  unfold pass
  split <;> rfl

/-- An entry of a name not yet in use is replaced, skipped or passed on. -/
theorem add_cases (different : a.names.Nodup) (mem : e ∈ a.entries)
    (unused : s.draft.contains e.name = false) :
    (∃ out, newForm? d setup store a e = some out ∧
      s.add (results d setup store a) e = s.replace e out) ∨
    (newForm? d setup store a e = none ∧ e.name.endsWith ".class" = true ∧
      ∃ reason, s.add (results d setup store a) e = s.skip e reason) ∨
    (newForm? d setup store a e = none ∧ e.name.endsWith ".class" = false ∧
      s.add (results d setup store a) e = s.pass e) := by
  have row := lookup_results_eq d setup store different mem
  have kind := @EntryKind.ofName_eq_bytecodeUnit_iff e.name
  unfold newForm? add
  rw [row]
  cases found : unit? e with
  | none =>
    by_cases isUnit : e.name.endsWith ".class" = true
    · exact .inr (.inl ⟨rfl, isUnit, "", if_pos ⟨kind.2 isUnit, unused⟩⟩)
    · refine .inr (.inr ⟨rfl, Bool.eq_false_iff.2 isUnit, if_neg fun both => isUnit ?_⟩)
      exact kind.1 both.1
  | some u =>
    have isUnit := (unit?_eq_some_iff.1 found).1
    rw [Option.map_some, Option.bind_some, if_pos ⟨kind.2 isUnit, unused⟩]
    cases outcome d setup store a u with
    | error cause => exact .inr (.inl ⟨rfl, isUnit, _, rfl⟩)
    | ok out => exact .inl ⟨out, rfl, rfl⟩

end Assembled

/-- The counts are those of the entries so far. -/
structure Tallied (a : Archive) (before : List Archive.Entry) (s : Assembled) : Prop where
  transformed : s.transformed = (before.filterMap (newForm? d setup store a)).length
  skipped : s.skipped = before.countP fun e =>
    e.name.endsWith ".class" && (newForm? d setup store a e).isNone
  counts : s.counts =
    (before.filterMap (newForm? d setup store a)).foldl (fun n out => n + out.counts) .zero

variable {d setup store} in
theorem Tallied.add {before : List Archive.Entry} {s : Assembled} {e : Archive.Entry}
    (h : Tallied d setup store a before s) (different : a.names.Nodup) (mem : e ∈ a.entries)
    (unused : s.draft.contains e.name = false) :
    Tallied d setup store a (before ++ [e]) (s.add (results d setup store a) e) := by
  obtain ⟨out, new, step⟩ | ⟨old, isUnit, reason, step⟩ | ⟨old, other, step⟩ :=
    Assembled.add_cases d setup store different mem unused
  · rw [step, Assembled.replace]
    constructor
    · simp [h.transformed, new]
    · simp [h.skipped, new]
    · simp [h.counts, new]
  · rw [step, Assembled.skip]
    constructor
    · simp [h.transformed, old]
    · simp [h.skipped, old, isUnit]
    · simp [h.counts, old]
  · rw [step]
    constructor
    · simp [h.transformed, old]
    · simp [h.skipped, other]
    · simp [h.counts, old]

theorem tallied_assemble (different : a.names.Nodup) (copied : ∀ e ∈ a.entries, e.gap? = none) :
    Tallied d setup store a a.entries (assemble (results d setup store a) a) :=
  assemble_induction (motive := Tallied d setup store a) different copied ⟨rfl, rfl, rfl⟩
    fun mem unused h => h.add different mem unused

end Counting

/-! ## A whole run -/

/-- A run over entries of different names that can all be copied comes to its end. Each entry keeps
its name and its place. It gets the bytes that the class in it was clarified to, on its own, if this
succeeded and the survey of the class was not lost to a panic or to the deadline; otherwise it is
copied. What else is lost in the second pass makes no difference. What is reported agrees with what
was replaced. -/
theorem isolated_run (d : Disturbance) (setup : RunSetup) (store : Mapping) {a : Archive}
    (different : a.names.Nodup) (copied : ∀ e ∈ a.entries, e.gap? = none) :
    (run d setup store a).fault? = none ∧
    (run d setup store a).archive.names = a.names ∧
    (∀ (i : Nat) (e : Archive.Entry), a.entries[i]? = some e →
      (newForm? d setup store a e = none → (run d setup store a).archive.entries[i]? = some e) ∧
      ∀ out, newForm? d setup store a e = some out →
        ∃ e', (run d setup store a).archive.entries[i]? = some e' ∧ e'.name = e.name ∧
          e'.content = .ok out.bytes) ∧
    (∀ (e : Archive.Entry) (out : UnitOutput), newForm? d setup store a e = some out ↔
      e.name.endsWith ".class" = true ∧ ∃ bytes, e.content = .ok bytes ∧
        surveyOutcome d store setup.policy ⟨e.name, bytes⟩ ≠ .error .timeout ∧
        (∀ reason, surveyOutcome d store setup.policy ⟨e.name, bytes⟩ ≠ .error (.crashed reason)) ∧
        d.clarify e.name = none ∧
        (clarifyUnit (context d setup store a) e.name bytes).1 = .ok out) ∧
    (∀ (d' : Disturbance) (e : Archive.Entry), d'.survey = d.survey →
      d'.clarify e.name = d.clarify e.name →
      newForm? d' setup store a e = newForm? d setup store a e) ∧
    ∀ (input output startedAt finishedAt : String) (log : Option String),
      let r := FileRun.report input output log a (run d setup store a) startedAt finishedAt
      r.transformed = (a.entries.filterMap (newForm? d setup store a)).length ∧
      (r.skipped = a.entries.countP fun e =>
        e.name.endsWith ".class" && (newForm? d setup store a e).isNone) ∧
      (r.status = .completed ↔ r.skipped = 0) ∧
      r.counts = (a.entries.filterMap (newForm? d setup store a)).foldl
        (fun n out => n + out.counts) .zero := by
  have tallied := tallied_assemble d setup store different copied
  obtain ⟨transformed, skipped, counts⟩ := counted_run d setup store a
  refine ⟨?_, ?_, fun i e here => ?_, fun e out => newForm?_eq_some_iff,
    fun d' e => newForm?_congr d setup store,
    fun input output startedAt finishedAt log => ⟨?_, ?_, ?_, ?_⟩⟩
  · rw [fault?_run, List.findSome?_eq_none_iff]
    exact copied
  · rw [archive_run, names_assembled different copied]
  · have place : (run d setup store a).archive.entries[i]? =
        some ((newForm? d setup store a e).elim e fun out => e.withContent out.bytes) := by
      rw [archive_run, entries_assemble different copied, List.getElem?_map, here, Option.map_some,
        carried_results d setup store different (List.mem_of_getElem? here)]
    refine ⟨fun old => ?_, fun out new => ?_⟩
    · rw [place, old]
      rfl
    · rw [new] at place
      exact ⟨_, place, rfl, e.content_withContent out.bytes⟩
  · exact transformed.trans tallied.transformed
  · exact skipped.trans tallied.skipped
  · show (if (run d setup store a).skipped = 0 then RunStatus.completed else .degraded) = _ ↔ _
    split
    · next none => exact iff_of_true rfl none
    · next some => exact iff_of_false (by simp) some
  · exact counts.trans tallied.counts

theorem unit?_ofContent_stored {name : String} {bytes : Bytes}
    (isUnit : name.endsWith ".class" = true) :
    unit? (.ofContent name .stored bytes) = some ⟨name, bytes⟩ :=
  unit?_eq_some_iff.2 ⟨isUnit, rfl, Archive.Entry.content_ofContent_stored name bytes⟩

/-- The class `A` misses the deadline, and `B` is clarified nevertheless. -/
theorem isolated_run_late : ∃ out : UnitOutput,
    outcome late silentSetup otherNames pair ⟨"B.class", caller.write⟩ = .ok out ∧
    (run late silentSetup otherNames pair).archive.entries[0]? = pair.entries[0]? ∧
    (∃ e, (run late silentSetup otherNames pair).archive.entries[1]? = some e ∧
      e.content = .ok out.bytes) ∧
    (FileRun.report "in.jar" "out.jar" none pair (run late silentSetup otherNames pair) ""
      "").transformed = 1 ∧
    (FileRun.report "in.jar" "out.jar" none pair (run late silentSetup otherNames pair) ""
      "").skipped = 1 := by
  obtain ⟨-, out, -, clarified, -⟩ := clarified_pair
  obtain ⟨-, -, places, -, -, reported⟩ :=
    isolated_run late silentSetup otherNames (a := pair) (by decide) (by decide)
  obtain ⟨transformed, skipped, -, -⟩ := reported "in.jar" "out.jar" "" "" none
  have old : newForm? late silentSetup otherNames pair
      (.ofContent "A.class" .stored (ClassFile.sampleBytes [3])) = none := by
    rw [newForm?, unit?_ofContent_stored (by decide +kernel), Option.bind_some, lost_pair]
    rfl
  have new : newForm? late silentSetup otherNames pair
      (.ofContent "B.class" .stored caller.write) = some out := by
    rw [newForm?, unit?_ofContent_stored (by decide +kernel), Option.bind_some, clarified]
    rfl
  obtain ⟨e, here, -, content⟩ := (places 1 _ rfl).2 out new
  have entries : pair.entries = [.ofContent "A.class" .stored (ClassFile.sampleBytes [3]),
      .ofContent "B.class" .stored caller.write] := rfl
  refine ⟨out, clarified, (places 0 _ rfl).1 old, ⟨e, here, content⟩, transformed.trans ?_,
    skipped.trans ?_⟩
  · rw [entries, List.filterMap_cons_none old, List.filterMap_cons_some new]
    rfl
  · have isUnit : (Archive.Entry.ofContent "A.class" .stored
        (ClassFile.sampleBytes [3])).name.endsWith ".class" = true := by decide +kernel
    simp [entries, old, new, isUnit]

end Clarify.ArchiveRun
