import Clarify.Proofs.Run.Assembly
import Clarify.Proofs.Unit.Links

/-!
# Links to classes that are lost

All names are settled before any class is clarified, and each class is clarified on its own. So a
class that is lost after its survey keeps its members as they were, while the references to them get
new names all the same. Where no survey of a class of its name came to an end, the references stay.

Results:
* `isRenamedOwner_context_iff`: whose members a run renames.
* `linked?_of_lost`: where references to a lost class lead.
-/

namespace Clarify

/-- The class that an entry contains. -/
def Archive.Entry.Holds (e : Archive.Entry) (c : ClassFile) : Prop :=
  ∃ bytes, e.content = .ok bytes ∧ ClassFile.parse bytes = .ok c

namespace ClassFile

variable {t : ClassFile} {x : MemberRef} {p : Nat}

/-- A reference under another name does not lead to the same member. -/
theorem findMember?_withName_iff (declared : t.findMember? x.symbol = some p) (name : String) :
    t.findMember? (MemberRef.symbol { x with name }) = some p ↔ name = x.name := by
  constructor
  · intro found
    have here := (findMember?_eq_some_iff.1 declared).1
    have here' := (findMember?_eq_some_iff.1 found).1
    rw [show (MemberRef.symbol { x with name }).kind = x.symbol.kind from rfl, here] at here'
    exact (congrArg Symbol.name (Option.some.inj here')).symm
  · rintro rfl
    exact declared

end ClassFile

namespace ArchiveRun

variable {d : Disturbance} {setup : RunSetup} {store : Mapping} {a : Archive}

/-- A run renames the members of a class in the class itself, and in all classes if the survey of a
class of that name came to an end. -/
theorem isRenamedOwner_context_iff {c : ClassFile} {owner : String} :
    Rename.isRenamedOwner (context d setup store a).plan c owner = true ↔
      owner = c.className ∨ ∃ w ∈ units a, ∃ survey,
        surveyOutcome d store setup.policy w = .ok survey ∧ survey.className = owner := by
  have mem (survey : Survey) : survey ∈ surveys d setup store a ↔
      ∃ w ∈ units a, surveyOutcome d store setup.policy w = .ok survey := by
    rw [surveys, List.mem_filterMap]
    refine exists_congr fun w => and_congr_right fun _ => ?_
    cases surveyOutcome d store setup.policy w <;> simp [Except.toOption]
  have classes : (context d setup store a).plan.classes.contains owner = true ↔
      ∃ survey ∈ surveys d setup store a, survey.className = owner :=
    Plan.contains_classes_build_iff
  rw [Rename.isRenamedOwner, Bool.or_eq_true, beq_iff_eq, classes]
  refine or_congr_right ⟨?_, ?_⟩
  · rintro ⟨survey, inside, same⟩
    obtain ⟨w, hw, surveyed⟩ := (mem survey).1 inside
    exact ⟨w, hw, survey, surveyed, same⟩
  · rintro ⟨w, hw, survey, surveyed, same⟩
    exact ⟨survey, (mem survey).2 ⟨w, hw, surveyed⟩, same⟩

theorem clarifyUnit_of_outcome {u : UnitSource} {out : UnitOutput}
    (h : outcome d setup store a u = .ok out) :
    (clarifyUnit (context d setup store a) u.name u.bytes).1 = .ok out :=
  (outcome_eq_ok_iff.1 h).2.2.2

/-! ## A class that is late -/

/-- A class `B` that refers to the method `a` of the class `A`. -/
def caller : ClassFile where
  minorVersion := 0
  majorVersion := 52
  pool := ⟨#[none, some (.utf8 [0x42]), some (.classRef 1), some (.utf8 [0x41]),
    some (.classRef 3), some (.utf8 [0x61]), some (.utf8 [0x28, 0x29, 0x56]),
    some (.nameAndType 5 6), some (.memberRef .method 4 7)]⟩
  access := 1
  thisClass := 2
  superClass := 0
  interfaces := []
  fields := #[]
  methods := #[]
  attributes := []

theorem parse_caller : ClassFile.parse caller.write = .ok caller :=
  Except.eq_ok_of_toOption (by decide +kernel)

theorem parse_callee :
    ClassFile.parse (ClassFile.sampleBytes [3]) = .ok (ClassFile.sample [3]) :=
  Except.eq_ok_of_toOption (by decide +kernel)

/-- The class `A`, which declares the method, and `B`. -/
def pair : Archive :=
  ⟨[.ofContent "A.class" .stored (ClassFile.sampleBytes [3]),
    .ofContent "B.class" .stored caller.write]⟩

/-- The class `A` misses the deadline after its survey. -/
def late : Disturbance :=
  ⟨fun _ => none, fun name => if name = "A.class" then some .timeout else none⟩

/-- Names are not proposed. -/
def silentSetup : RunSetup := ⟨.empty, ⟨.silent, 0, 0⟩, 1, 0, 1⟩

theorem visit_ofContent_stored {name : String} {bytes : Bytes} {index : Nat}
    (isUnit : (Archive.Entry.ofContent name .stored bytes).kind = .bytecodeUnit) :
    (Archive.Entry.ofContent name .stored bytes).visit index =
      .ok ⟨index, name, .bytecodeUnit, bytes⟩ := by
  have content := Archive.Entry.content_ofContent_stored name bytes
  have free : (Archive.Entry.ofContent name .stored bytes).obstacle? = none := rfl
  rw [Archive.Entry.content, free] at content
  rw [Archive.Entry.visit, free]
  dsimp only at content ⊢
  rw [if_pos isUnit, content, isUnit]
  rfl

theorem units_pair :
    units pair = [⟨"A.class", ClassFile.sampleBytes [3]⟩, ⟨"B.class", caller.write⟩] := by
  have walk : pair.walk = [.ok ⟨0, "A.class", .bytecodeUnit, ClassFile.sampleBytes [3]⟩,
      .ok ⟨1, "B.class", .bytecodeUnit, caller.write⟩] := by
    show [Archive.Entry.visit _ 0, Archive.Entry.visit _ 1] = _
    rw [visit_ofContent_stored (by decide +kernel), visit_ofContent_stored (by decide +kernel)]
  rw [units, gather, walk]
  decide +kernel

/-- The method is to be called `b`. -/
def otherNames : Mapping := Mapping.empty.override "a" "b"

theorem context_pair : context late silentSetup otherNames pair =
    ⟨otherNames, Plan.ofClasses [ClassFile.sample [3], caller] otherNames silentSetup.policy
      otherNames, .empty⟩ := by
  have surveyed : surveys late silentSetup otherNames pair =
      [ClassFile.sample [3], caller].map fun c => c.survey otherNames silentSetup.policy := by
    rw [surveys, units_pair]
    simp only [surveyOutcome, late, surveyUnit, parse_callee, parse_caller, List.filterMap_cons,
      List.filterMap_nil, Except.toOption, List.map_cons, List.map_nil]
  have silent : ([ClassFile.sample [3], caller].map fun c =>
      c.survey otherNames silentSetup.policy).flatMap Survey.proposals = [] := by
    rw [← List.isEmpty_iff]
    decide +kernel
  rw [context, surveyed, Settled.ofSurveys, silent]
  rfl

theorem lost_pair : outcome late silentSetup otherNames pair
    ⟨"A.class", ClassFile.sampleBytes [3]⟩ = .error .timeout := by
  rw [outcome, clarifyOutcome, surveyOutcome]
  dsimp only [late]
  rw [surveyUnit, parse_callee]
  rfl

theorem clarified_pair : ∃ r out,
    Clarified.ofClass (context late silentSetup otherNames pair) caller = .ok r ∧
    outcome late silentSetup otherNames pair ⟨"B.class", caller.write⟩ = .ok out ∧
    out.bytes = r.file.write ∧ r.file.pool.Short ∧
    r.file.linked? (.entry 8) = some ⟨.method, "A", "b", "()V"⟩ := by
  have passed : outcome late silentSetup otherNames pair ⟨"B.class", caller.write⟩ =
      (clarifyUnit (context late silentSetup otherNames pair) "B.class" caller.write).1 := by
    rw [outcome, clarifyOutcome, surveyOutcome]
    dsimp only [late, String.reduceEq]
    rw [surveyUnit, parse_caller]
    rfl
  obtain ⟨r, clarified, facts⟩ := ClassFile.exists_ok_of_map_toOption
    (f := fun r : Clarified => (r.file.linked? (.entry 8),
      r.file.pool.slots.all fun slot => slot.all fun c : Constant => decide c.Fits))
    (b := (some ⟨.method, "A", "b", "()V"⟩, true))
    (show (Clarified.ofClass ⟨otherNames, Plan.ofClasses [ClassFile.sample [3], caller] otherNames
      silentSetup.policy otherNames, .empty⟩ caller).toOption.map _ = _ by decide +kernel)
  rw [← context_pair] at clarified
  obtain ⟨linked, fits⟩ := Prod.mk.inj facts
  rw [passed, clarifyUnit, parse_caller]
  dsimp only
  rw [clarifyClass, clarified]
  exact ⟨r, _, rfl, rfl, rfl, Pool.short_of_all fits, linked⟩

theorem mem_units_pair : ⟨"A.class", ClassFile.sampleBytes [3]⟩ ∈ units pair ∧
    ⟨"B.class", caller.write⟩ ∈ units pair := by
  rw [units_pair]
  exact ⟨.head _, .tail _ (.head _)⟩

/-! ## References to lost classes -/

/-- A reference of a clarified class to a member that a lost class declares gets the name that is
settled for the member, if members of the class are renamed at all, and still leads to the member
exactly if this is the old name. The entry of the lost class, which holds the member, is copied. As
all archives that are read, this one has different names (`Archive.nodup_names_of_read?`). -/
theorem linked?_of_lost {u v : UnitSource} (hu : u ∈ units a) (hv : v ∈ units a)
    {out : UnitOutput} {cause : UnitError} (clarified : outcome d setup store a u = .ok out)
    (lost : outcome d setup store a v = .error cause) {t : ClassFile}
    (parsed : ClassFile.parse v.bytes = .ok t) :
    ∃ c file : ClassFile, ClassFile.parse u.bytes = .ok c ∧ out.bytes = file.write ∧
      (file.pool.Short → ClassFile.parse out.bytes = .ok file) ∧
      (∀ l x p, c.linked? l = some x → x.owner = t.className → t.findMember? x.symbol = some p →
        ∃ newName, newName = (if Rename.isRenamedOwner (context d setup store a).plan c t.className
            then (context d setup store a).plan.finalName (context d setup store a).store x.symbol
            else x.name) ∧
          file.linked? l = some { x with name := newName } ∧
          (t.findMember? (MemberRef.symbol { x with name := newName }) = some p ↔
            newName = x.name)) ∧
      (Rename.isRenamedOwner (context d setup store a).plan c t.className = true ↔
        t.className = c.className ∨ ∃ w ∈ units a, ∃ survey,
          surveyOutcome d store setup.policy w = .ok survey ∧ survey.className = t.className) ∧
      (∃ (i : Nat) (e : Archive.Entry), a.entries[i]? = some e ∧ e.name = u.name ∧
        e.content = .ok u.bytes ∧ (a.names.Nodup → (run d setup store a).fault? = none →
          (run d setup store a).archive.entries[i]? = some (e.withContent out.bytes))) ∧
      ∃ (i : Nat) (e : Archive.Entry), a.entries[i]? = some e ∧ e.name = v.name ∧ e.Holds t ∧
        (a.names.Nodup → (run d setup store a).fault? = none →
          (run d setup store a).archive.entries[i]? = some e) := by
  obtain ⟨c, r, parsed', passed, written⟩ := clarifyUnit_eq_ok (clarifyUnit_of_outcome clarified)
  have replaced := entry_run d setup store hu
  obtain ⟨i, e, here, name, content, copied⟩ := entry_run d setup store hv
  simp only [clarified] at replaced
  simp only [lost] at copied
  refine ⟨c, r.file, parsed', written, fun short => ?_, fun l x p found owner declared => ?_,
    isRenamedOwner_context_iff, replaced, i, e, here, name, ⟨v.bytes, content, parsed⟩, copied⟩
  · rw [written]
    exact Clarified.parse_write parsed' passed short
  · refine ⟨_, rfl, ?_, ClassFile.findMember?_withName_iff declared _⟩
    rw [Clarified.linked?_ofClass parsed' passed found, Rename.linkName_eq, owner]

/-- The entry of `A` is copied, and the reference of `B` has the name that is settled. -/
theorem linked?_of_lost_late : ∃ (file : ClassFile) (out : UnitOutput) (newName : String),
    outcome late silentSetup otherNames pair ⟨"B.class", caller.write⟩ = .ok out ∧
    out.bytes = file.write ∧ file.linked? (.entry 8) = some ⟨.method, "A", newName, "()V"⟩ ∧
    ((ClassFile.sample [3]).findMember? ⟨.method, newName, "()V"⟩ = some 0 ↔ newName = "a") ∧
    ∃ (i : Nat) (e : Archive.Entry), e.name = "A.class" ∧ e.Holds (ClassFile.sample [3]) ∧
      (run late silentSetup otherNames pair).archive.entries[i]? = some e := by
  obtain ⟨-, out, -, clarified, -⟩ := clarified_pair
  obtain ⟨c, file, parsed, written, -, links, -, -, i, e, -, name, holds, copied⟩ :=
    linked?_of_lost mem_units_pair.2 mem_units_pair.1 clarified lost_pair parse_callee
  cases parse_caller.symm.trans parsed
  obtain ⟨newName, -, linked, found⟩ := links (.entry 8) ⟨.method, "A", "a", "()V"⟩ 0
    (by decide +kernel) (by decide +kernel) (by decide +kernel)
  exact ⟨file, out, newName, clarified, written, linked, found, i, e, name, holds,
    copied (by decide) rfl⟩

/-- The reference of `B` is to `b` afterwards, and `A` has no such method. -/
theorem exists_unlinked : ∃ (d : Disturbance) (setup : RunSetup) (store : Mapping) (a : Archive)
    (u v : UnitSource) (out : UnitOutput) (c t file : ClassFile) (l : Link) (x x' : MemberRef),
    a.names.Nodup ∧ (run d setup store a).fault? = none ∧ u ∈ units a ∧ v ∈ units a ∧
    outcome d setup store a u = .ok out ∧ outcome d setup store a v = .error .timeout ∧
    ClassFile.parse u.bytes = .ok c ∧ ClassFile.parse v.bytes = .ok t ∧
    ClassFile.parse out.bytes = .ok file ∧ c.linked? l = some x ∧ x.owner = t.className ∧
    t.findMember? x.symbol = some 0 ∧ file.linked? l = some x' ∧ x'.name ≠ x.name ∧
    t.findMember? x'.symbol = none := by
  obtain ⟨r, out, passed, clarified, written, short, linked⟩ := clarified_pair
  refine ⟨late, silentSetup, otherNames, pair, ⟨"B.class", caller.write⟩,
    ⟨"A.class", ClassFile.sampleBytes [3]⟩, out, caller, ClassFile.sample [3], r.file, .entry 8,
    ⟨.method, "A", "a", "()V"⟩, ⟨.method, "A", "b", "()V"⟩, by decide, rfl, mem_units_pair.2,
    mem_units_pair.1, clarified, lost_pair, parse_caller, parse_callee, ?_, by decide +kernel,
    by decide +kernel, by decide +kernel, linked, by decide, by decide +kernel⟩
  rw [written]
  exact Clarified.parse_write parse_caller passed short

end ArchiveRun

end Clarify
