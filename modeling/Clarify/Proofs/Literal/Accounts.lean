import Clarify.Proofs.Literal.Calls
import Clarify.Proofs.Literal.Frame

/-!
# Calls and the report on them

What becomes of a call is told in different parts of the report, which are made one after the
other: when it is found, when its literal is decoded, and when the class is changed. Taken together
they tell of every call of a helper with a known decoding, and of none twice.

Results:
* `exists_lost`: every call with a plain text is recovered, or there was no room.
* `filterMap_entryOf`: what is told of the calls one by one is what the report tells of calls.
* `accounts_recoverLiterals`: every call is accounted for.
-/

namespace Clarify

namespace Literal

/-! ## Specification -/

/-- What a report tells of a single call. -/
inductive Entry where
  | recovered (literal : RecoveredLiteral)
  | failed (failure : LiteralFailure)

/-- Whether a failure is one of a single call. -/
def isOfCall : LiteralFailure → Bool
  | .nonConstantArgument .. | .undecodable .. | .poolFull .. => true
  | .helperNotFound .. | .unsupportedDecoding .. => false

/-- All that a report tells of single calls. -/
def entries (report : LiteralReport) : List Entry :=
  report.recovered.map .recovered ++ (report.failures.filter isOfCall).map .failed

/-- What is told of a call, if anything. -/
structure Account where
  site : CallSite
  entry : Option Entry

/-- What is told of a call is what became of it. -/
inductive CallSite.Tells (s : CallSite) (c : ClassFile) : Entry → Prop
  | recovered {load : Instruction} {index : UInt16} {decoding : Decoding} {units : List UInt16}
      {text : String} : s.Argument c load index → s.helper.decoding = some decoding →
      unitsAt? c.pool index = some units → decoding.decode units = .ok text →
      s.Tells c (.recovered ⟨c.labelOf s.method, load.offset, text⟩)
  | nonConstant : (∀ load index, ¬s.Argument c load index) →
      s.Tells c (.failed
        (.nonConstantArgument s.helper.label (c.labelOf s.method) s.invoke.offset))
  | undecodable {load : Instruction} {index : UInt16} {decoding : Decoding} {units : List UInt16}
      {fault : DecodeFault} : s.Argument c load index → s.helper.decoding = some decoding →
      unitsAt? c.pool index = some units → decoding.decode units = .error fault →
      s.Tells c (.failed (.undecodable s.helper.label index fault))
  | poolFull {load : Instruction} {index : UInt16} {decoding : Decoding} {units : List UInt16}
      {text : String} : s.Argument c load index → s.helper.decoding = some decoding →
      unitsAt? c.pool index = some units → decoding.decode units = .ok text →
      s.Tells c (.failed (.poolFull index))

/-- One account for each call of a helper of the class. -/
structure Accounts (c : ClassFile) (accounts : List Account) : Prop where
  sites : ∀ s : CallSite, s.In c ↔ ∃ a ∈ accounts, a.site = s
  apart : (accounts.map fun a => (a.site.position, a.site.invoke)).Nodup
  /-- What is told of the calls is what the report tells of calls. -/
  entries : (accounts.filterMap Account.entry).Perm (entries c.recoverLiterals.2)
  /-- Something is told of each call of a helper the decoding of which is known. -/
  told : ∀ a ∈ accounts, a.site.helper.decoding.isSome = true → a.entry.isSome = true
  tells : ∀ a ∈ accounts, ∀ e, a.entry = some e → a.site.Tells c e
  /-- A call that was not recovered is still there. -/
  stays : ∀ a ∈ accounts, (∀ l, a.entry ≠ some (.recovered l)) →
    ∃ code, c.recoverLiterals.1.codeAt? a.site.position = some code ∧
      Code.instructionAt code a.site.invoke.offset = .ok a.site.invoke

/-! ## Lists of choices -/

/-- Where at most one of two choices is made for each item, the choices of one kind can be put in
front of those of the other. -/
theorem perm_filterMap_or {α β : Type} {f g : α → Option β}
    (one : ∀ x, f x = none ∨ g x = none) (xs : List α) :
    (xs.filterMap fun x => (f x).or (g x)).Perm (xs.filterMap f ++ xs.filterMap g) := by
  induction xs with
  | nil => exact .nil
  | cons x xs ih =>
    rcases left : f x with _ | a
    · rcases right : g x with _ | b
      · rw [List.filterMap_cons_none (by rw [left, right]; rfl), List.filterMap_cons_none left,
          List.filterMap_cons_none right]
        exact ih
      · rw [List.filterMap_cons_some (by rw [left, right]; rfl), List.filterMap_cons_none left,
          List.filterMap_cons_some right]
        exact (ih.cons b).trans List.perm_middle.symm
    · have right : g x = none := (one x).resolve_left (by rw [left]; simp)
      rw [List.filterMap_cons_some (by rw [left, right]; rfl), List.filterMap_cons_some left,
        List.filterMap_cons_none right]
      exact ih.cons a

/-! ## Calls for which there was no room -/

variable {c : ClassFile} {p : Plain} {call : Call}

/-- A call is recovered, or there was no room for it. -/
theorem outcome_recoverCall (E : Std.TreeSet UInt16) (o : Outcome) (p : Plain) :
    ((recoverCall E o p).recovered = p :: o.recovered ∧ (recoverCall E o p).failed = o.failed) ∨
      ((recoverCall E o p).recovered = o.recovered ∧
        (recoverCall E o p).failed = .poolFull p.index :: o.failed) := by
  unfold recoverCall
  rcases settle E o.progress p with ⟨s, worked⟩
  cases worked with
  | true => exact .inl ⟨rfl, rfl⟩
  | false => exact .inr ⟨rfl, rfl⟩

theorem exists_lost_foldl (E : Std.TreeSet UInt16) (todo lost : List Plain) {o : Outcome}
    (failed : o.failed = lost.map fun p => .poolFull p.index) :
    ∃ lost' : List Plain,
      (todo.foldl (recoverCall E) o).failed = lost'.map (fun p => .poolFull p.index) ∧
      ((todo.foldl (recoverCall E) o).recovered ++ lost').Perm (todo ++ (o.recovered ++ lost)) := by
  induction todo generalizing o lost with
  | nil => exact ⟨lost, failed, .refl _⟩
  | cons p todo ih =>
    rw [List.foldl_cons]
    obtain ⟨recovered, failed'⟩ | ⟨recovered, failed'⟩ := outcome_recoverCall E o p
    · obtain ⟨lost', all, perm⟩ := ih lost (failed'.trans failed)
      refine ⟨lost', all, perm.trans ?_⟩
      rw [recovered, List.cons_append]
      exact List.perm_middle
    · obtain ⟨lost', all, perm⟩ := ih (p :: lost) (by rw [failed', failed, List.map_cons])
      refine ⟨lost', all, perm.trans ?_⟩
      rw [recovered, List.cons_append]
      exact ((List.perm_middle (a := p)).append_left todo).trans List.perm_middle

/-- Every call with a plain text is recovered, or there was no room for its text. -/
theorem exists_lost (c : ClassFile) : ∃ lost : List Plain,
    (outcome c).failed = lost.map (fun p => .poolFull p.index) ∧
      ((outcome c).recovered ++ lost).Perm (found c) := by
  obtain ⟨lost, failed, perm⟩ := exists_lost_foldl (edited c) (found c) []
    (o := { progress := start c, recovered := [], failed := [] }) rfl
  rw [List.append_nil, List.append_nil] at perm
  exact ⟨lost, failed, perm⟩

theorem nodup_found (c : ClassFile) : (found c).Nodup := by
  refine (pairwise_found c).imp_of_mem ?_
  rintro p q hp - behind rfl
  have next := (isSite_of_mem_found hp).next
  have room := p.load.length_pos
  have room' := p.call.invoke.length_pos
  obtain other | later := behind
  · exact other rfl
  · simp only [Instruction.next] at next later
    omega

/-! ## What is told of one call -/

/-- The failure that a call without an argument is. -/
def nonConstant? (call : Call) : Option LiteralFailure :=
  if call.load.isSome then none
  else some (.nonConstantArgument call.helper.label call.label call.invoke.offset)

/-- The failure that a call is the literal of which cannot be decoded. -/
def undecodable? (c : ClassFile) (call : Call) : Option LiteralFailure :=
  (decodeCall? c.pool call).bind fun decoded =>
    match decoded with
    | .ok _ => none
    | .error failure => some failure

open Classical in
/-- What is told of a call with a plain text. -/
noncomputable def entryOfPlain (c : ClassFile) (p : Plain) : Entry :=
  if p ∈ recovered c then .recovered p.report else .failed (.poolFull p.index)

/-- What is told of a call. -/
noncomputable def entryOf (c : ClassFile) (call : Call) : Option Entry :=
  ((nonConstant? call).map .failed).or
    (((undecodable? c call).map .failed).or ((plain? c.pool (.call call)).map (entryOfPlain c)))

theorem decodeCall?_of_none (none : call.load = none) : decodeCall? c.pool call = .none := by
  rw [decodeCall?, none]
  rfl

theorem entryOf_of_none (none : call.load = none) : entryOf c call =
    some (.failed (.nonConstantArgument call.helper.label call.label call.invoke.offset)) := by
  rw [entryOf, nonConstant?, none]
  rfl

theorem entryOf_of_load (load : call.load.isSome = true) : entryOf c call =
    ((undecodable? c call).map .failed).or ((plain? c.pool (.call call)).map (entryOfPlain c)) := by
  rw [entryOf, nonConstant?, if_pos load]
  rfl

theorem decodeCall?_eq_error {failure : LiteralFailure}
    (h : decodeCall? c.pool call = some (.error failure)) :
    ∃ load index decoding units fault, call.load = some (load, index) ∧
      call.helper.decoding = some decoding ∧ unitsAt? c.pool index = some units ∧
      decoding.decode units = .error fault ∧
      failure = .undecodable call.helper.label index fault := by
  simp only [decodeCall?, Option.bind_eq_bind, Option.bind_eq_some_iff] at h
  obtain ⟨⟨load, index⟩, place, decoding, rule, units, raw, h⟩ := h
  split at h
  · cases h
  · next fault decoded =>
    cases h
    exact ⟨load, index, decoding, units, fault, place, rule, raw, decoded, rfl⟩

theorem isSome_load_of_decodeCall? {decoded : Except LiteralFailure Plain}
    (h : decodeCall? c.pool call = some decoded) : call.load.isSome = true := by
  rw [Option.isSome_iff_ne_none]
  intro none
  rw [decodeCall?_of_none none] at h
  cases h

theorem entryOf_of_ok (h : decodeCall? c.pool call = some (.ok p)) :
    entryOf c call = some (entryOfPlain c p) := by
  rw [entryOf_of_load (isSome_load_of_decodeCall? h), undecodable?, plain?, Finding.call?,
    Option.bind_some, h]
  rfl

theorem entryOf_of_error {failure : LiteralFailure}
    (h : decodeCall? c.pool call = some (.error failure)) :
    entryOf c call = some (.failed failure) := by
  rw [entryOf_of_load (isSome_load_of_decodeCall? h), undecodable?, h]
  rfl

theorem entryOf_eq_none (load : call.load.isSome = true) (h : decodeCall? c.pool call = none) :
    entryOf c call = none := by
  rw [entryOf_of_load load, undecodable?, plain?, Finding.call?, Option.bind_some, h]
  rfl

/-! ## What the report tells -/

theorem mem_calls_iff : call ∈ calls c ↔ ∃ s ∈ scanned c, call ∈ callsIn c s := by
  rw [calls_eq, List.mem_flatMap]

theorem found_eq_filterMap (c : ClassFile) :
    found c = (calls c).filterMap fun call => plain? c.pool (.call call) := by
  show ((calls c).filterMap (decodeCall? c.pool)).filterMap Except.toOption = _
  rw [List.filterMap_filterMap]
  rfl

theorem calls_eq_nil (none : c.helpers.isEmpty = true) : calls c = [] := by
  rw [List.isEmpty_iff] at none
  refine List.eq_nil_iff_forall_not_mem.2 fun call mem => ?_
  obtain ⟨s, looked, mem⟩ := mem_calls_iff.1 mem
  obtain ⟨inside, -⟩ := in_of_mem_callsIn looked mem
  obtain ⟨-, r, -, -, -, -, helper⟩ := inside.refers
  rw [none] at helper
  cases helper

/-- What is told of the calls with a plain text. -/
theorem perm_map_entryOfPlain (c : ClassFile) :
    ((found c).map (entryOfPlain c)).Perm
      ((recovered c).map (fun p => .recovered p.report) ++
        (outcome c).failed.reverse.map .failed) := by
  obtain ⟨lost, failed, perm⟩ := exists_lost c
  have apart := List.nodup_append.1 (perm.nodup_iff.2 (nodup_found c))
  have first : (outcome c).recovered.map (entryOfPlain c) =
      (outcome c).recovered.map fun p => .recovered p.report := by
    refine List.map_congr_left fun p hp => if_pos ?_
    rw [recovered, List.mem_reverse]
    exact hp
  have second : lost.map (entryOfPlain c) = (outcome c).failed.map .failed := by
    rw [failed, List.map_map]
    refine List.map_congr_left fun p hp => if_neg ?_
    rw [recovered, List.mem_reverse]
    intro hp'
    exact apart.2.2 p hp' p hp rfl
  have all := (perm.map (entryOfPlain c)).symm
  rw [List.map_append, first, second] at all
  exact all.trans
    (((List.reverse_perm _).symm.map _).append ((List.reverse_perm _).symm.map _))

theorem filter_helperFailures (helpers : List Helper) :
    (helperFailures helpers).filter isOfCall = [] := by
  refine List.filter_eq_nil_iff.2 fun failure mem => ?_
  obtain ⟨h, -, eq⟩ := List.mem_filterMap.1 mem
  split at eq
  · cases eq
    simp [isOfCall]
  · cases eq

theorem filter_filterMap_failure? (own : String) (findings : List Finding) :
    (findings.filterMap (Finding.failure? own)).filter isOfCall =
      (findings.filterMap Finding.call?).filterMap nonConstant? := by
  rw [List.filter_filterMap, List.filterMap_filterMap]
  congr 1
  funext f
  rcases f with call | name
  · rw [Finding.failure?, Finding.call?, Option.bind_some, nonConstant?]
    split
    · rfl
    · rfl
  · rfl

theorem isOfCall_of_undecodable? {failure : LiteralFailure}
    (h : undecodable? c call = some failure) : isOfCall failure = true := by
  rw [undecodable?, Option.bind_eq_some_iff] at h
  obtain ⟨failure' | p, decoded, h⟩ := h
  · cases h
    obtain ⟨_, index, _, _, fault, -, -, -, -, rfl⟩ := decodeCall?_eq_error decoded
    rfl
  · cases h

/-- Among the failures of calls, those without an argument come first, then those with a literal
that cannot be decoded, and then those for which there was no room. -/
theorem filter_failures (c : ClassFile) : c.recoverLiterals.2.failures.filter isOfCall =
    (calls c).filterMap nonConstant? ++ (calls c).filterMap (undecodable? c) ++
      (outcome c).failed.reverse := by
  by_cases none : c.helpers.isEmpty = true
  · have failures : c.recoverLiterals.2.failures = [] := by
      rw [ClassFile.recoverLiterals, if_pos none]
    have failed : (outcome c).failed = [] := by
      rw [outcome, found_eq_nil none]
      rfl
    rw [failures, failed, calls_eq_nil none]
    rfl
  · have failures : c.recoverLiterals.2.failures = helperFailures c.helpers ++
        ((scanned c).flatMap (findingsIn c c.helpers)).filterMap (Finding.failure? c.className) ++
        (calls c).filterMap (undecodable? c) ++ (outcome c).failed.reverse := by
      rw [ClassFile.recoverLiterals, if_neg none]
      dsimp only
      rw [List.filterMap_filterMap]
      rfl
    have undecoded : ((calls c).filterMap (undecodable? c)).filter isOfCall =
        (calls c).filterMap (undecodable? c) := by
      refine List.filter_eq_self.2 fun failure mem => ?_
      obtain ⟨call, -, h⟩ := List.mem_filterMap.1 mem
      exact isOfCall_of_undecodable? h
    have failed : (outcome c).failed.reverse.filter isOfCall = (outcome c).failed.reverse := by
      obtain ⟨lost, failed, -⟩ := exists_lost c
      refine List.filter_eq_self.2 fun failure mem => ?_
      rw [List.mem_reverse, failed] at mem
      obtain ⟨p, -, rfl⟩ := List.mem_map.1 mem
      rfl
    rw [failures, List.filter_append, List.filter_append, List.filter_append,
      filter_helperFailures, filter_filterMap_failure?, undecoded, failed, List.nil_append]
    rfl

/-- What is told of the calls one by one is what the report tells of calls. -/
theorem filterMap_entryOf (c : ClassFile) :
    ((calls c).filterMap (entryOf c)).Perm (entries c.recoverLiterals.2) := by
  have decoded (call : Call) : (undecodable? c call).map Entry.failed = none ∨
      (plain? c.pool (.call call)).map (entryOfPlain c) = none := by
    rw [undecodable?, plain?, Finding.call?, Option.bind_some]
    rcases decodeCall? c.pool call with _ | failure | p
    · exact .inl rfl
    · exact .inr rfl
    · exact .inl rfl
  have found (call : Call) : (nonConstant? call).map Entry.failed = none ∨
      ((undecodable? c call).map Entry.failed).or
        ((plain? c.pool (.call call)).map (entryOfPlain c)) = none := by
    rcases load : call.load with _ | argument
    · refine .inr ?_
      rw [undecodable?, plain?, Finding.call?, Option.bind_some, decodeCall?_of_none load]
      rfl
    · refine .inl ?_
      rw [nonConstant?, load]
      rfl
  have first := perm_filterMap_or found (calls c)
  have second := perm_filterMap_or decoded (calls c)
  simp only [← List.map_filterMap, ← found_eq_filterMap] at first second
  rw [entries, (recoverLiterals_eq c).2, filter_failures, List.map_map, List.map_append,
    List.map_append]
  refine first.trans ((second.append_left _).trans ?_)
  rw [← List.append_assoc]
  exact ((perm_map_entryOfPlain c).append_left _).trans (List.perm_append_comm_assoc _ _ _)

/-! ## What is told is what became of the call -/

/-- A string constant has units. -/
theorem exists_unitsAt? {pool : Pool} {index : UInt16}
    (string : (pool.string? index).isSome = true) : ∃ units, unitsAt? pool index = some units := by
  obtain ⟨text, found⟩ := Option.isSome_iff_exists.1 string
  obtain ⟨value, here, text⟩ := Pool.string?_eq_some_iff.1 found
  obtain ⟨raw, bytes, -⟩ := Option.map_eq_some_iff.1 text
  refine ⟨ModifiedUtf8.units raw, ?_⟩
  rw [unitsAt?, here]
  simp only [bytes, Option.map_some]

section Site

variable {s : Scanned} (looked : s ∈ scanned c) (mem : call ∈ callsIn c s)

include looked mem

theorem tells_of_entryOf {e : Entry} (h : entryOf c call = some e) : (siteOf s call).Tells c e := by
  obtain ⟨-, -, label, argument⟩ := in_of_mem_callsIn looked mem
  rcases decoded : decodeCall? c.pool call with _ | failure | p
  · rcases load : call.load with _ | l
    · rw [entryOf_of_none load] at h
      cases h
      rw [label]
      refine .nonConstant fun l index given => ?_
      rw [← argument, load] at given
      cases given
    · rw [entryOf_eq_none (by rw [load]; rfl) decoded] at h
      cases h
  · obtain ⟨l, index, decoding, units, fault, load, rule, raw, faulty, rfl⟩ :=
      decodeCall?_eq_error decoded
    rw [entryOf_of_error decoded] at h
    cases h
    exact .undecodable ((argument l index).1 load) rule raw faulty
  · obtain ⟨rfl, load, decoding, units, rule, raw, plain, -⟩ := decodeCall?_eq_ok decoded
    have given := (argument p.load p.index).1 load
    rw [entryOf_of_ok decoded] at h
    cases h
    rw [entryOfPlain]
    split
    · rw [Plain.report, label]
      exact .recovered given rule raw plain
    · exact .poolFull given rule raw plain

theorem isSome_entryOf (inferred : call.helper.decoding.isSome = true) :
    (entryOf c call).isSome = true := by
  obtain ⟨-, -, -, argument⟩ := in_of_mem_callsIn looked mem
  rcases load : call.load with _ | ⟨l, index⟩
  · rw [entryOf_of_none load]
    rfl
  · obtain ⟨decoding, rule⟩ := Option.isSome_iff_exists.1 inferred
    obtain ⟨units, raw⟩ := exists_unitsAt? ((argument l index).1 load).string
    rcases decoded : decodeCall? c.pool call with _ | failure | p
    · rw [decodeCall?, load] at decoded
      simp only [rule, raw, Option.bind_eq_bind, Option.bind_some] at decoded
      split at decoded
      · cases decoded
      · cases decoded
    · rw [entryOf_of_error decoded]
      rfl
    · rw [entryOf_of_ok decoded]
      rfl

/-- A call that is not told to be recovered is still there. -/
theorem instructionAt_of_entryOf (lost : ∀ l, entryOf c call ≠ some (.recovered l)) :
    ∃ code, c.recoverLiterals.1.codeAt? s.position = some code ∧
      Code.instructionAt code call.invoke.offset = .ok call.invoke := by
  obtain ⟨inside, method, -⟩ := in_of_mem_callsIn looked mem
  have here : c.codeAt? s.position = some s.body.bytes :=
    codeAt?_eq_some_iff.2 ⟨s.method, inside.here, s.body, inside.isBody, rfl⟩
  refine instructionAt_of_other here inside.decoded inside.mem fun p hp same => ⟨?_, ?_⟩
  · intro load
    have constant := (loadedString?_eq_some
      (isSite_of_mem_found (mem_found_of_mem_recovered hp)).load).2
    have opcode : call.invoke.opcode = Opcode.invokestatic := inside.opcode
    rw [load, Helper.isConstantLoad, opcode] at constant
    exact absurd constant (by decide)
  · intro invoke
    have found := mem_found_of_mem_recovered hp
    rw [found_eq_filterMap, List.mem_filterMap] at found
    obtain ⟨other, hother, plain⟩ := found
    obtain ⟨isCall, decoded⟩ := plain?_eq_some plain
    cases isCall
    -- No instruction is found twice, so the recovered call is this one.
    have this : p.call = call :=
      eq_of_mem_calls hother (mem_calls_iff.2 ⟨s, looked, mem⟩) (same.trans method.symm) invoke
    rw [this] at decoded
    refine lost p.report ?_
    rw [entryOf_of_ok decoded, entryOfPlain, if_pos hp]

end Site

/-! ## All calls -/

/-- The calls of a class, each with what is told of it. -/
noncomputable def accountsOf (c : ClassFile) : List Account :=
  (scanned c).flatMap fun s => (callsIn c s).map fun call => ⟨siteOf s call, entryOf c call⟩

theorem mem_accountsOf_iff {a : Account} : a ∈ accountsOf c ↔
    ∃ s ∈ scanned c, ∃ call ∈ callsIn c s, a = ⟨siteOf s call, entryOf c call⟩ := by
  simp only [accountsOf, List.mem_flatMap, List.mem_map, eq_comm]

/-- Every call of a helper is accounted for. In a class that was parsed all bodies can be decoded,
so no call goes unseen. Of each call of a helper the decoding of which is known the report tells one
thing, that it was recovered or why it was not, and a call that was not recovered is still there. -/
theorem accounts_recoverLiterals {bytes : Bytes} (parsed : ClassFile.parse bytes = .ok c) :
    (∀ m ∈ c.methods, ∀ body, m.body? = some body →
      ∃ instructions, body.instructions = .ok instructions) ∧
    ∃ accounts, Accounts c accounts := by
  have sound := (ClassFile.parse_eq_ok_iff.1 parsed).1.1
  refine ⟨fun m mem body isBody => ((sound.methods.2 m mem).body isBody).decodes,
    accountsOf c, ?_, ?_, ?_, ?_, ?_, ?_⟩
  · intro site
    constructor
    · intro inside
      obtain ⟨looked, call, mem, same⟩ := exists_call inside
      exact ⟨_, mem_accountsOf_iff.2 ⟨_, looked, call, mem, rfl⟩, same⟩
    · rintro ⟨a, ha, rfl⟩
      obtain ⟨s, looked, call, mem, rfl⟩ := mem_accountsOf_iff.1 ha
      exact (in_of_mem_callsIn looked mem).1
  · have places : (accountsOf c).map (fun a => (a.site.position, a.site.invoke)) =
        (calls c).map fun call => (call.method, call.invoke) := by
      rw [accountsOf, calls_eq, List.map_flatMap, List.map_flatMap]
      refine List.flatMap_congr fun s looked => ?_
      rw [List.map_map]
      refine List.map_congr_left fun call mem => ?_
      rw [(in_of_mem_callsIn looked mem).2.1]
      rfl
    rw [places]
    exact nodup_calls c
  · have told : (accountsOf c).filterMap Account.entry = (calls c).filterMap (entryOf c) := by
      rw [accountsOf, calls_eq, List.filterMap_flatMap, List.filterMap_flatMap]
      refine List.flatMap_congr fun s _ => ?_
      rw [List.filterMap_map]
      rfl
    rw [told]
    exact filterMap_entryOf c
  · intro a ha inferred
    obtain ⟨s, looked, call, mem, rfl⟩ := mem_accountsOf_iff.1 ha
    exact isSome_entryOf looked mem inferred
  · intro a ha e told
    obtain ⟨s, looked, call, mem, rfl⟩ := mem_accountsOf_iff.1 ha
    exact tells_of_entryOf looked mem told
  · intro a ha lost
    obtain ⟨s, looked, call, mem, rfl⟩ := mem_accountsOf_iff.1 ha
    exact instructionAt_of_entryOf looked mem lost

/-- The class `crossed` with a method that calls the helper with the string `Q` and with nothing. -/
def halved : ClassFile := { crossed with
  methods := crossed.methods.modify 1 fun m => { m with
    attributes := [.code 7 ⟨8, 8,
      #[0x12, 9, 0xB8, 0, 6, 0x57, 0x01, 0xB8, 0, 6, 0xB0], [], []⟩] } }

theorem parse_halved : ClassFile.parse halved.write = .ok halved :=
  Except.eq_ok_of_toOption (by decide +kernel)

/-- The first call is recovered, and the second one is not. -/
theorem accounts_recoverLiterals_halved : ClassFile.parse halved.write = .ok halved ∧
    halved.recoverLiterals.2.recovered = [⟨"S.m()Ljava/lang/String;", 0, "P"⟩] ∧
    halved.recoverLiterals.2.failures = [.nonConstantArgument
      "S.d(Ljava/lang/String;)Ljava/lang/String;" "S.m()Ljava/lang/String;" 7] ∧
    ∃ accounts, Accounts halved accounts :=
  ⟨parse_halved, by decide +kernel, by decide +kernel, (accounts_recoverLiterals parse_halved).2⟩

end Literal

end Clarify
