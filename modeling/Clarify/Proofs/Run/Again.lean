import Clarify.Proofs.Run.Links
import Clarify.Proofs.Unit.Again

/-!
# A second run

What a run has made of the classes of an archive goes through a second run, with the mapping that
the first one has settled. The mapping stays as it is, as long as no new name is an old one, too.
Most classes stay as they are, but not all. The flow of control is simplified in one round, and a
branch that is taken out can leave another one idle. Where methods have been removed or branches
taken out, a rename that was blocked can be free, and a literal within reach.

Results:
* `context_none`, `outcome_none`: a run in which no class is lost.
* `rewritten_eq_self_iff`: which classes a second run leaves as they are.
-/

namespace Clarify

namespace ArchiveRun

/-! ## Runs in which no class is lost -/

/-- The surveys of the classes that can be read. -/
def surveysOf (store : Mapping) (policy : NamingPolicy) (us : List UnitSource) : List Survey :=
  us.filterMap fun u => (surveyUnit store policy u.bytes).toOption

/-- What the classes are clarified with. -/
def settle (setup : RunSetup) (store : Mapping) (us : List UnitSource) : PassContext :=
  let settled := Settled.ofSurveys store (surveysOf store setup.policy us)
  ⟨settled.store, settled.plan, setup.suspects⟩

/-- A class as the new archive has it: clarified, or copied where that fails. -/
def rewritten (ctx : PassContext) (u : UnitSource) : UnitSource :=
  match (clarifyUnit ctx u.name u.bytes).1 with
  | .ok out => { u with bytes := out.bytes }
  | .error _ => u

/-- What the classes are clarified with in a second run. -/
def settleAgain (setup : RunSetup) (store : Mapping) (us : List UnitSource) : PassContext :=
  let first := settle setup store us
  settle setup first.store (us.map (rewritten first))

section None

variable (setup : RunSetup) (store : Mapping) (a : Archive)

theorem context_none : context .none setup store a = settle setup store (units a) := rfl

theorem outcome_none (u : UnitSource) : outcome .none setup store a u =
    (clarifyUnit (settle setup store (units a)) u.name u.bytes).1 := by
  have done : excluded? (surveyOutcome .none store setup.policy u) = none := by
    show excluded? (surveyUnit store setup.policy u.bytes) = none
    unfold surveyUnit
    split <;> rfl
  rw [outcome, clarifyOutcome, done, context_none]
  rfl

end None

/-! ## The names of a second run -/

section Again

variable {setup : RunSetup} {store : Mapping} {us : List UnitSource} {policy : NamingPolicy}
  {u : UnitSource} {c d : ClassFile} {out : UnitOutput} {ctx : PassContext}

theorem mem_surveysOf_iff {survey : Survey} : survey ∈ surveysOf store policy us ↔
    ∃ u ∈ us, ∃ c, ClassFile.parse u.bytes = .ok c ∧ survey = c.survey store policy := by
  rw [surveysOf, List.mem_filterMap]
  refine exists_congr fun u => and_congr_right fun _ => ?_
  unfold surveyUnit
  split
  · next c parsed => simp [parsed, Except.toOption, eq_comm]
  · next e failed => simp [failed, Except.toOption]

theorem contains_classes_settle {name : String} :
    (settle setup store us).plan.classes.contains name = true ↔
      ∃ survey ∈ surveysOf store setup.policy us, survey.className = name :=
  Plan.contains_classes_build_iff

/-- An output that can be read is read as the class that was written. -/
def ReadBack (ctx : PassContext) (us : List UnitSource) : Prop :=
  ∀ u ∈ us, ∀ c r d, ClassFile.parse u.bytes = .ok c → Clarified.ofClass ctx c = .ok r →
    ClassFile.parse r.file.write = .ok d → d = r.file

/-- No method is removed from a class that is clarified, and what is written is read as it was. -/
def Intact (ctx : PassContext) (us : List UnitSource) : Prop :=
  ∀ u ∈ us, ∀ c r, ClassFile.parse u.bytes = .ok c → Clarified.ofClass ctx c = .ok r →
    r.junk.removed = [] ∧ ClassFile.parse r.file.write = .ok r.file

theorem Intact.readBack (intact : Intact ctx us) : ReadBack ctx us := by
  intro u mem c r d parsed clarified again
  exact (Except.ok.inj ((intact u mem c r parsed clarified).2.symm.trans again)).symm

/-- A class of a second run is what became of a class of the first one. -/
theorem exists_of_parse_rewritten (readBack : ReadBack ctx us) (mem : u ∈ us)
    (parsed : ∃ c, ClassFile.parse u.bytes = .ok c)
    (again : ClassFile.parse (rewritten ctx u).bytes = .ok d) :
    ∃ c, ClassFile.parse u.bytes = .ok c ∧ (d = c ∨ Became ctx.store ctx.plan c d) := by
  obtain ⟨c, parsed⟩ := parsed
  refine ⟨c, parsed, ?_⟩
  unfold rewritten at again
  split at again
  · next out ok =>
    obtain ⟨c', r, parsed', clarified, written⟩ := clarifyUnit_eq_ok ok
    cases parsed.symm.trans parsed'
    have again : ClassFile.parse r.file.write = .ok d := written ▸ again
    rw [readBack u mem c r d parsed clarified again]
    exact .inr (Clarified.became_ofClass parsed clarified)
  · cases parsed.symm.trans again
    exact .inl rfl

/-- Where no method is removed, a class of a second run has all members of the first one. -/
theorem exists_follows (intact : Intact ctx us) (mem : u ∈ us)
    (parsed : ClassFile.parse u.bytes = .ok c) :
    ∃ d, ClassFile.parse (rewritten ctx u).bytes = .ok d ∧ d.className = c.className ∧
      ∀ store store' policy, Plan.Follows ctx.store ctx.plan (c.survey store policy)
        (d.survey store' policy) := by
  unfold rewritten
  split
  · next out ok =>
    obtain ⟨c', r, parsed', clarified, written⟩ := clarifyUnit_eq_ok ok
    cases parsed.symm.trans parsed'
    obtain ⟨none, again⟩ := intact u mem c r parsed clarified
    refine ⟨r.file, written ▸ again, Clarified.className_ofClass parsed clarified,
      fun store store' policy => .inr ?_⟩
    have symbols := Clarified.symbolsOf_of_removed parsed clarified none
    rw [ClassFile.members_survey, ClassFile.members_survey, symbols, symbols, List.map_append]
  · exact ⟨c, parsed, rfl, fun store store' policy => .inl rfl⟩

theorem surveysOf_cons (parsed : ClassFile.parse u.bytes = .ok c) :
    surveysOf store policy (u :: us) = c.survey store policy :: surveysOf store policy us := by
  simp [surveysOf, surveyUnit, parsed, Except.toOption]

/-- Where no method is removed, the surveys of a second run follow those of the first one. -/
theorem follows_rewritten (intact : Intact ctx us)
    (parsed : ∀ u ∈ us, ∃ c, ClassFile.parse u.bytes = .ok c) (store store' : Mapping) :
    List.Forall₂ (Plan.Follows ctx.store ctx.plan) (surveysOf store policy us)
      (surveysOf store' policy (us.map (rewritten ctx))) := by
  induction us with
  | nil => exact .nil
  | cons u us ih =>
    obtain ⟨c, isClass⟩ := parsed u List.mem_cons_self
    obtain ⟨d, again, -, follows⟩ := exists_follows intact List.mem_cons_self isClass
    rw [surveysOf_cons isClass, List.map_cons, surveysOf_cons again]
    refine .cons (follows store store' policy) (ih ?_ ?_)
    · exact fun u mem => intact u (List.mem_cons_of_mem _ mem)
    · exact fun u mem => parsed u (List.mem_cons_of_mem _ mem)

section Second

variable (counted : store.Counted) (parsed : ∀ u ∈ us, ∃ c, ClassFile.parse u.bytes = .ok c)
  (readBack : ReadBack (settle setup store us) us)

include counted parsed readBack

/-- The second run proposes no names, and no class is new to it. -/
theorem settleAgain_spec :
    (settleAgain setup store us).store = (settle setup store us).store ∧
      (settleAgain setup store us).plan = (Plan.build (surveysOf (settle setup store us).store
        setup.policy (us.map (rewritten (settle setup store us))))
        (settle setup store us).store).1 ∧
      ∀ name, (settleAgain setup store us).plan.classes.contains name = true →
        (settle setup store us).plan.classes.contains name = true := by
  have each : ∀ survey ∈ surveysOf (settle setup store us).store setup.policy
      (us.map (rewritten (settle setup store us))), survey.proposals = [] ∧
        ∃ survey' ∈ surveysOf store setup.policy us, survey'.className = survey.className := by
    intro survey mem
    obtain ⟨v, there, d, again, rfl⟩ := mem_surveysOf_iff.1 mem
    obtain ⟨u, mem, rfl⟩ := List.mem_map.1 there
    obtain ⟨c, isClass, became⟩ :=
      exists_of_parse_rewritten readBack mem (parsed u mem) again
    have surveyed : c.survey store setup.policy ∈ surveysOf store setup.policy us :=
      mem_surveysOf_iff.2 ⟨u, mem, c, isClass, rfl⟩
    have served : c.Served (settle setup store us).store setup.policy :=
      served_ofSurveys counted surveyed
    obtain rfl | became := became
    · exact ⟨proposals_eq_nil served, _, surveyed, rfl⟩
    · exact ⟨proposals_eq_nil (became.served (Settled.counted counted) served), _, surveyed,
        became.className.symm⟩
  obtain ⟨same, plan, -⟩ := Settled.ofSurveys_of_nil fun survey mem => (each survey mem).1
  refine ⟨same, plan, fun name mem => ?_⟩
  obtain ⟨survey, there, rfl⟩ := contains_classes_settle.1 mem
  exact contains_classes_settle.2 (each survey there).2

omit readBack in
/-- Where no method is removed, the plan of the second run agrees with that of the first one. -/
theorem plan_settleAgain (apart : (settle setup store us).store.Apart)
    (intact : Intact (settle setup store us) us) :
    (∀ s, (settleAgain setup store us).plan.blocked.contains s =
        (settle setup store us).plan.blocked.contains s) ∧
      ∀ name, (settleAgain setup store us).plan.classes.contains name =
        (settle setup store us).plan.classes.contains name := by
  obtain ⟨-, plan, fewer⟩ := settleAgain_spec counted parsed intact.readBack
  refine ⟨fun s => ?_, fun name => Bool.eq_iff_iff.2 ⟨fewer name, fun old => ?_⟩⟩
  · rw [plan]
    exact Plan.contains_blocked_build apart (follows_rewritten intact parsed store _) s
  · obtain ⟨survey, there, rfl⟩ := contains_classes_settle.1 old
    obtain ⟨u, mem, c, isClass, rfl⟩ := mem_surveysOf_iff.1 there
    obtain ⟨d, again, className, -⟩ := exists_follows intact mem isClass
    exact contains_classes_settle.2
      ⟨_, mem_surveysOf_iff.2 ⟨_, List.mem_map_of_mem mem, d, again, rfl⟩, className⟩

end Second

/-! ## The classes of a second run -/

/-- Nothing is left to be done for a class: no name is free for it that was not, no literal can be
recovered, and all branches matter. -/
structure Finished (first second : Plan) (d : ClassFile) : Prop where
  members : ∀ kind, ∀ s ∈ d.symbolsOf kind, ¬first.Frees second s
  links : ∀ l x, d.linked? l = some x → Rename.isRenamedOwner second d x.owner = true →
    ¬first.Frees second x.symbol
  literals : d.recoverLiterals.1 = d
  branches : ¬d.HasIdle

theorem rewritten_of_ofClass {r : Clarified} (parsed : ClassFile.parse u.bytes = .ok c)
    (clarified : Clarified.ofClass ctx c = .ok r) :
    rewritten ctx u = { u with bytes := r.file.write } := by
  obtain ⟨out, ok, written⟩ := Clarified.clarifyUnit_of_ofClass ctx u.name parsed clarified
  rw [rewritten, ok, ← written]

theorem rewritten_eq_iff : rewritten ctx u = u ↔
    ∀ d r, ClassFile.parse u.bytes = .ok d → Clarified.ofClass ctx d = .ok r →
      r.file.write = u.bytes := by
  constructor
  · intro same d r parsed clarified
    rw [rewritten_of_ofClass parsed clarified] at same
    exact congrArg UnitSource.bytes same
  · intro all
    unfold rewritten
    split
    · next out ok =>
      obtain ⟨d, r, parsed, clarified, written⟩ := clarifyUnit_eq_ok ok
      rw [written, all d r parsed clarified]
    · rfl

/-- A clarified class is left as it is exactly if nothing is left to be done, or there is no room
for the names that are free by now. -/
theorem rewritten_eq_iff_of_clarified {first second : PassContext} {r : Clarified} {name : String}
    (store : second.store = first.store) (suspects : second.suspects = first.suspects)
    (apart : first.store.Apart) (movable : first.plan.Movable first.store)
    (fewer : ∀ name, second.plan.classes.contains name = true →
      first.plan.classes.contains name = true)
    (parsed : ClassFile.parse u.bytes = .ok c) (clarified : Clarified.ofClass first c = .ok r)
    (back : ∀ d, ClassFile.parse r.file.write = .ok d → d = r.file) :
    rewritten second ⟨name, r.file.write⟩ = ⟨name, r.file.write⟩ ↔
      ∀ d renamed, ClassFile.parse r.file.write = .ok d →
        d.rename second.store second.plan = .ok renamed → Finished first.plan second.plan d := by
  have still := (Clarified.became_ofClass parsed clarified).still_iff apart movable fewer
  rw [rewritten_eq_iff]
  constructor
  · intro all d renamed isClass rename
    obtain rfl := back d isClass
    obtain ⟨r', again⟩ := Clarified.exists_ofClass second
      (ClassFile.parse_eq_ok_iff.1 isClass).1.1 rename
    have same := Clarified.file_eq_of_write_eq isClass again (all r.file r' isClass again)
    obtain ⟨keeps, literals, branches⟩ :=
      (Clarified.file_eq_iff clarified isClass suspects again).1 same
    rw [store, still] at keeps
    exact ⟨keeps.1, keeps.2, literals, branches⟩
  · intro all d r' isClass again
    obtain rfl := back d isClass
    obtain ⟨renamed, -, -, rename, -⟩ := Clarified.ofClass_eq_ok again
    obtain ⟨members, links, literals, branches⟩ := all r.file renamed isClass rename
    have keeps := still.2 ⟨members, links⟩
    rw [← store] at keeps
    rw [(Clarified.file_eq_iff clarified isClass suspects again).2 ⟨keeps, literals, branches⟩]

/-- Contexts that agree do the same to a class. -/
theorem rewritten_congr {first second : PassContext} (store : second.store = first.store)
    (suspects : second.suspects = first.suspects)
    (blocked : ∀ s, second.plan.blocked.contains s = first.plan.blocked.contains s)
    (classes : ∀ name, second.plan.classes.contains name = first.plan.classes.contains name) :
    rewritten second u = rewritten first u := by
  have same (c : ClassFile) : Clarified.ofClass second c = Clarified.ofClass first c :=
    Clarified.ofClass_congr store suspects blocked classes
  simp only [rewritten, clarifyUnit, clarifyClass, same]

/-! ## Archives with one class -/

/-- What one class is clarified with where no name is proposed. -/
theorem settle_singleton (parsed : ClassFile.parse u.bytes = .ok c)
    (silent : (c.survey store setup.policy).proposals = []) : settle setup store [u] =
      ⟨store, (Plan.build [c.survey store setup.policy] store).1, setup.suspects⟩ := by
  have surveys : surveysOf store setup.policy [u] = [c.survey store setup.policy] :=
    surveysOf_cons parsed
  have none : ∀ survey ∈ [c.survey store setup.policy], survey.proposals = [] :=
    List.forall_mem_singleton.2 silent
  rw [settle, surveys, (Settled.ofSurveys_of_nil none).1, (Settled.ofSurveys_of_nil none).2.1]

/-- The helper `d` is to be called `decrypt`. -/
def helperNames : Mapping := Mapping.empty.override "d" "decrypt"

theorem apart_helperNames : helperNames.Apart := by
  intro old newName resolved
  rw [helperNames, Mapping.override, Mapping.resolve?_put] at resolved ⊢
  split at resolved
  · cases resolved
    decide +kernel
  · cases resolved

/-- The class with the helper. -/
def crossedUnit : UnitSource := ⟨"S.class", Literal.crossed.write⟩

/-- The plan for the class with the helper. -/
def crossedPlan : Plan := (Plan.build [Literal.crossed.survey helperNames silentSetup.policy]
  helperNames).1

theorem settle_crossed : settle silentSetup helperNames [crossedUnit] =
    ⟨helperNames, crossedPlan, .empty⟩ :=
  settle_singleton (u := crossedUnit) Literal.parse_crossed
    (List.isEmpty_iff.1 (by decide +kernel))

/-- The helper is removed, and nothing is left to be done. -/
theorem clarified_crossed : ∃ r counts,
    Clarified.ofClass ⟨helperNames, crossedPlan, .empty⟩ Literal.crossed = .ok r ∧
    r.file.write ≠ crossedUnit.bytes ∧ ClassFile.parse r.file.write = .ok r.file ∧
    r.file.recoverLiterals.1 = r.file ∧ Clarified.simplifyAll r.file = .ok (r.file, counts) := by
  obtain ⟨r, clarified, facts⟩ := ClassFile.exists_ok_of_map_toOption
    (f := fun r : Clarified => (decide (r.file.write ≠ crossedUnit.bytes),
      decide (r.file.recoverLiterals.1 = r.file),
      r.file.pool.slots.all fun slot => slot.all fun c : Constant => decide c.Fits,
      (Clarified.simplifyAll r.file).toOption.map fun x => decide (x.1 = r.file)))
    (b := (true, true, true, some true))
    (show (Clarified.ofClass ⟨helperNames, crossedPlan, .empty⟩ Literal.crossed).toOption.map _ = _
      by decide +kernel)
  simp only [Prod.mk.injEq, decide_eq_true_eq] at facts
  obtain ⟨changed, recovered, fits, simplified⟩ := facts
  obtain ⟨⟨d, counts⟩, simplified, same⟩ := ClassFile.exists_ok_of_map_toOption simplified
  obtain rfl := of_decide_eq_true same
  exact ⟨r, counts, clarified, changed,
    Clarified.parse_write Literal.parse_crossed clarified (Pool.short_of_all fits), recovered,
    simplified⟩

theorem readBack_crossed :
    ReadBack (settle silentSetup helperNames [crossedUnit]) [crossedUnit] := by
  obtain ⟨r, counts, clarified, -, back, -⟩ := clarified_crossed
  refine List.forall_mem_singleton.2 fun c r' d isClass clarified' again => ?_
  rw [settle_crossed] at clarified'
  cases Literal.parse_crossed.symm.trans isClass
  cases clarified.symm.trans clarified'
  exact (Except.ok.inj (back.symm.trans again)).symm

theorem not_frees_crossed (q : Plan) (s : Symbol) : ¬crossedPlan.Frees q s := by
  rintro ⟨blocked, -⟩
  have none : crossedPlan.blocked.isEmpty = true := by decide +kernel
  rw [Std.TreeSet.contains_of_isEmpty none] at blocked
  cases blocked

/-- A class with a method of the given code. -/
def branching (code : Array UInt8) : ClassFile where
  minorVersion := 0
  majorVersion := 52
  pool := ⟨#[none, some (.utf8 [0x41]), some (.classRef 1), some (.utf8 [0x6D]),
    some (.utf8 (ModifiedUtf8.encode "(I)V")), some (.utf8 (ModifiedUtf8.encode "Code"))]⟩
  access := 1
  thisClass := 2
  superClass := 0
  interfaces := []
  fields := #[]
  methods := #[⟨Access.public ||| Access.static, 3, 4, [.code 5 ⟨1, 1, code, [], []⟩]⟩]
  attributes := []

/-- Three branches, the second of which is in one arm of the first. -/
def nested : Array UInt8 :=
  #[0x1A, 0x99, 0, 8, 0x1A, 0x99, 0, 3, 0xB1, 0x1A, 0x99, 0, 3, 0xB1]

/-- The first branch alone. -/
def outer : Array UInt8 :=
  #[0x1A, 0x99, 0, 8, 0x1A, 0x57, 0, 0, 0xB1, 0x1A, 0x57, 0, 0, 0xB1]

/-- No branch. -/
def straight : Array UInt8 :=
  #[0x1A, 0x57, 0, 0, 0x1A, 0x57, 0, 0, 0xB1, 0x1A, 0x57, 0, 0, 0xB1]

/-- The class with such a method. -/
def branchingUnit (code : Array UInt8) : UnitSource := ⟨"A.class", (branching code).write⟩

/-- The context for that class, where no name is mapped. -/
def branchingContext (code : Array UInt8) : PassContext :=
  ⟨.empty, (Plan.build [(branching code).survey .empty silentSetup.policy] .empty).1, .empty⟩

theorem parse_nested : ClassFile.parse (branching nested).write = .ok (branching nested) :=
  Except.eq_ok_of_toOption (by decide +kernel)

theorem parse_outer : ClassFile.parse (branching outer).write = .ok (branching outer) :=
  Except.eq_ok_of_toOption (by decide +kernel)

theorem settle_branching {code : Array UInt8}
    (parsed : ClassFile.parse (branching code).write = .ok (branching code))
    (silent : ((branching code).survey .empty silentSetup.policy).proposals = []) :
    settle silentSetup .empty [branchingUnit code] = branchingContext code :=
  settle_singleton (u := branchingUnit code) parsed silent

theorem clarified_nested : ∃ r,
    Clarified.ofClass (branchingContext nested) (branching nested) = .ok r ∧
      r.file = branching outer :=
  ClassFile.exists_ok_of_map_toOption (f := Clarified.file) (by decide +kernel)

theorem clarified_outer : ∃ r,
    Clarified.ofClass (branchingContext outer) (branching outer) = .ok r ∧
      r.file = branching straight :=
  ClassFile.exists_ok_of_map_toOption (f := Clarified.file) (by decide +kernel)

/-! ## What a second run leaves as it is -/

/-- A second run settles the same mapping. A class that the first run has clarified stays as it is
exactly if nothing is left to be done for it, or there is no room for the names that are free by
now. Unless a method was removed, no name is, and what the first run has left as it is stays so. -/
theorem rewritten_eq_self_iff (counted : store.Counted)
    (parsed : ∀ u ∈ us, ∃ c, ClassFile.parse u.bytes = .ok c)
    (apart : (settle setup store us).store.Apart) (readBack : ReadBack (settle setup store us) us) :
    (settleAgain setup store us).store = (settle setup store us).store ∧
    (∀ u ∈ us, ∀ out, (clarifyUnit (settle setup store us) u.name u.bytes).1 = .ok out →
      (rewritten (settleAgain setup store us) ⟨u.name, out.bytes⟩ = ⟨u.name, out.bytes⟩ ↔
        ∀ d renamed, ClassFile.parse out.bytes = .ok d →
          d.rename (settleAgain setup store us).store (settleAgain setup store us).plan =
            .ok renamed →
          Finished (settle setup store us).plan (settleAgain setup store us).plan d)) ∧
    (Intact (settle setup store us) us →
      (∀ s, ¬(settle setup store us).plan.Frees (settleAgain setup store us).plan s) ∧
      ∀ u, rewritten (settle setup store us) u = u →
        rewritten (settleAgain setup store us) u = u) := by
  obtain ⟨same, -, fewer⟩ := settleAgain_spec counted parsed readBack
  refine ⟨same, fun u mem out ok => ?_, fun intact => ?_⟩
  · obtain ⟨c, r, isClass, clarified, written⟩ := clarifyUnit_eq_ok ok
    rw [written]
    exact rewritten_eq_iff_of_clarified same rfl apart (Plan.movable_build _ _) fewer isClass
      clarified fun d => readBack u mem c r d isClass clarified
  · obtain ⟨blocked, classes⟩ := plan_settleAgain counted parsed apart intact
    refine ⟨fun s frees => ?_, fun u copied => ?_⟩
    · obtain ⟨wasBlocked, free⟩ := frees
      rw [blocked, wasBlocked] at free
      cases free
    · rw [rewritten_congr same rfl blocked classes, copied]

/-- The helper is removed in the first run, and in the second one nothing is left to be done. -/
theorem rewritten_eq_self_crossed : helperNames.Counted ∧
    (∀ u ∈ [crossedUnit], ∃ c, ClassFile.parse u.bytes = .ok c) ∧
    (settle silentSetup helperNames [crossedUnit]).store.Apart ∧
    ReadBack (settle silentSetup helperNames [crossedUnit]) [crossedUnit] ∧
    ∃ out, (clarifyUnit (settle silentSetup helperNames [crossedUnit]) crossedUnit.name
        crossedUnit.bytes).1 = .ok out ∧ out.bytes ≠ crossedUnit.bytes ∧
      rewritten (settleAgain silentSetup helperNames [crossedUnit]) ⟨crossedUnit.name, out.bytes⟩ =
        ⟨crossedUnit.name, out.bytes⟩ := by
  obtain ⟨r, counts, clarified, changed, back, recovered, simplified⟩ := clarified_crossed
  have counted : helperNames.Counted := Mapping.counted_empty.override _ _
  have parsed : ∀ u ∈ [crossedUnit], ∃ c, ClassFile.parse u.bytes = .ok c :=
    List.forall_mem_singleton.2 ⟨_, Literal.parse_crossed⟩
  have apart : (settle silentSetup helperNames [crossedUnit]).store.Apart := by
    rw [settle_crossed]
    exact apart_helperNames
  obtain ⟨out, ok, written⟩ :=
    Clarified.clarifyUnit_of_ofClass _ crossedUnit.name Literal.parse_crossed clarified
  rw [← settle_crossed] at ok
  refine ⟨counted, parsed, apart, readBack_crossed, out, ok, written ▸ changed, ?_⟩
  refine ((rewritten_eq_self_iff counted parsed apart readBack_crossed).2.1 crossedUnit (.head _)
    out ok).2 fun d renamed isClass _ => ?_
  rw [written] at isClass
  cases back.symm.trans isClass
  rw [settle_crossed]
  refine ⟨fun _ s _ => not_frees_crossed _ s, fun _ x _ _ => not_frees_crossed _ x.symbol,
    recovered, ?_⟩
  exact (Clarified.simplifyAll_eq_self_iff (Clarified.isSimplified_of_mem clarified)
    simplified).1 rfl

/-- In the first run the inner branch goes, and then the outer one does not matter any more. -/
theorem exists_changed_again : ∃ (setup : RunSetup) (store : Mapping) (us : List UnitSource)
    (u : UnitSource) (out out' : UnitOutput), store.Counted ∧
    (∀ u ∈ us, ∃ c, ClassFile.parse u.bytes = .ok c) ∧ (settle setup store us).store.Apart ∧
    u ∈ us ∧ (clarifyUnit (settle setup store us) u.name u.bytes).1 = .ok out ∧
    (∃ d, ClassFile.parse out.bytes = .ok d) ∧
    (clarifyUnit (settleAgain setup store us) u.name out.bytes).1 = .ok out' ∧
    out'.bytes ≠ out.bytes := by
  have first : settle silentSetup .empty [branchingUnit nested] = branchingContext nested :=
    settle_branching parse_nested (List.isEmpty_iff.1 (by decide +kernel))
  have second : settle silentSetup .empty [branchingUnit outer] = branchingContext outer :=
    settle_branching parse_outer (List.isEmpty_iff.1 (by decide +kernel))
  obtain ⟨r, clarified, file⟩ := clarified_nested
  obtain ⟨r', clarified', file'⟩ := clarified_outer
  have again : settleAgain silentSetup .empty [branchingUnit nested] = branchingContext outer := by
    have became : rewritten (branchingContext nested) (branchingUnit nested) =
        branchingUnit outer := by
      rw [rewritten_of_ofClass (u := branchingUnit nested) parse_nested clarified, file]
      rfl
    rw [settleAgain, first, List.map_singleton, became]
    exact second
  obtain ⟨out, ok, written⟩ := Clarified.clarifyUnit_of_ofClass _ "A.class" parse_nested clarified
  obtain ⟨out', ok', written'⟩ :=
    Clarified.clarifyUnit_of_ofClass _ "A.class" parse_outer clarified'
  rw [file] at written
  rw [file'] at written'
  refine ⟨silentSetup, .empty, [branchingUnit nested], branchingUnit nested, out, out',
    Mapping.counted_empty, List.forall_mem_singleton.2 ⟨_, parse_nested⟩, ?_, .head _, first ▸ ok,
    ⟨_, written ▸ parse_outer⟩, ?_, ?_⟩
  · intro old newName resolved
    rw [first] at resolved
    cases resolved
  · rw [again, written]
    exact ok'
  · rw [written, written']
    decide +kernel

end Again

end ArchiveRun

end Clarify
