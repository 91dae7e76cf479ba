import Clarify.Proofs.Flow.Again
import Clarify.Proofs.Unit.Additions
import Clarify.Proofs.Unit.Kept

/-!
# Clarifying again

A clarified class is clarified once more. There is no junk in it, and its jumps are straight. So it
stays as it is unless a name is free for it by now, a literal can be recovered that could not be
recovered the first time, or a branch has become idle when others were taken out.

Results:
* `simplifyAll_eq_self_iff`: simplified methods stay as they are unless one has an idle branch.
* `recovered_eq_nil`: no call is recovered in a class that stays as it is.
* `file_eq_iff`: when a clarified class stays as it is.
-/

namespace Clarify

/-! ## Simplifying again -/

namespace Member

variable {m : Member} {body simple : Code}

theorem mapBody_eq_self (own : m.body? = some body) : m.mapBody (fun _ => body) = m := by
  obtain ⟨access, name, descriptor, attributes⟩ := m
  refine congrArg (Member.mk access name descriptor) ?_
  change attributes.findSome? MemberAttribute.body? = some body at own
  show mapFirstBody (fun _ => body) attributes = attributes
  induction attributes with
  | nil => rfl
  | cons a rest ih =>
    cases a with
    | code name body' =>
      cases own
      rfl
    | other raw => exact congrArg (MemberAttribute.other raw :: ·) (ih own)

theorem mapBody_eq_self_iff (own : m.body? = some body) :
    m.mapBody (fun _ => simple) = m ↔ simple = body := by
  constructor
  · intro same
    have bodies := congrArg body? same
    rw [body?_mapBody, own] at bodies
    exact Option.some.inj bodies
  · rintro rfl
    exact mapBody_eq_self own

/-- The method is not native, and a conditional branch in it does not matter. -/
def HasIdle (m : Member) : Prop :=
  m.isNative = false ∧ ∃ body, m.body? = some body ∧ body.HasIdle

end Member

/-- A method of the class has a conditional branch that does not matter. -/
def ClassFile.HasIdle (c : ClassFile) : Prop := ∃ m ∈ c.methods, m.HasIdle

namespace Clarified

variable {c d : ClassFile} {m : Member} {row : Member × FlowCounts} {counts : FlowCounts}

/-- A method that came of simplifying one. -/
def IsSimplified (m : Member) : Prop := ∃ m₀ counts, simplifyMethod m₀ = .ok (m, counts)

theorem simplifyMethod_of_body {body : Code} (own : m.isNative = false)
    (isBody : m.body? = some body) : simplifyMethod m = .ok row ↔
      ∃ simple counts, body.simplify = .ok (simple, counts) ∧
        row = (m.mapBody fun _ => simple, counts) := by
  unfold simplifyMethod
  rw [own, isBody]
  simp only [Bool.false_eq_true, if_false]
  rw [Except.bind_eq_ok_iff]
  constructor
  · rintro ⟨⟨simple, counts⟩, simplified, h⟩
    cases h
    exact ⟨simple, counts, simplified, rfl⟩
  · rintro ⟨simple, counts, simplified, rfl⟩
    exact ⟨(simple, counts), simplified, rfl⟩

/-- The body of a simplified method came of simplifying one. -/
theorem exists_of_simplifyMethod {m₀ : Member} {body : Code}
    (h : simplifyMethod m₀ = .ok (m, counts)) (own : m.isNative = false)
    (isBody : m.body? = some body) :
    ∃ x counts, m₀.body? = some x ∧ x.simplify = .ok (body, counts) := by
  have own' : m₀.isNative = false :=
    (congrArg (fun m : Member => m.isNative) (head_simplifyMethod h)).symm.trans own
  rcases isBody' : m₀.body? with _ | x
  · unfold simplifyMethod at h
    rw [own', isBody'] at h
    cases h
    rw [isBody] at isBody'
    cases isBody'
  · obtain ⟨simple, counts, simplified, row⟩ := (simplifyMethod_of_body own' isBody').1 h
    cases row
    rw [Member.body?_mapBody, isBody', Option.map_some, Option.some.injEq] at isBody
    exact ⟨x, counts, rfl, isBody ▸ simplified⟩

/-- A simplified method stays as it is unless it has an idle branch. -/
theorem simplifyMethod_eq_self_iff (simplified : IsSimplified m)
    (h : simplifyMethod m = .ok row) : row.1 = m ↔ ¬m.HasIdle := by
  obtain ⟨m₀, counts, first⟩ := simplified
  by_cases native : m.isNative = true
  · unfold simplifyMethod at h
    rw [if_pos native] at h
    cases h
    refine iff_of_true rfl fun idle => ?_
    rw [idle.1] at native
    cases native
  have own := Bool.eq_false_iff.2 native
  rcases isBody : m.body? with _ | body
  · unfold simplifyMethod at h
    rw [own, isBody] at h
    cases h
    refine iff_of_true rfl fun idle => ?_
    obtain ⟨-, body, isBody', -⟩ := idle
    rw [isBody] at isBody'
    cases isBody'
  · obtain ⟨x, counts, -, before⟩ := exists_of_simplifyMethod first own isBody
    obtain ⟨simple, counts, again, rfl⟩ := (simplifyMethod_of_body own isBody).1 h
    obtain ⟨instructions, decoded, -⟩ := Except.bind_eq_ok_iff.1 again
    rw [Code.simplify_again before decoded] at again
    cases again
    rw [Member.mapBody_eq_self_iff isBody, Code.collapseBranches_eq_self_iff decoded]
    refine not_congr ⟨fun idle => ⟨own, body, isBody, idle⟩, fun idle => ?_⟩
    obtain ⟨-, body', isBody', idle⟩ := idle
    rw [isBody] at isBody'
    cases isBody'
    exact idle

/-- Simplified methods stay as they are unless one has an idle branch. -/
theorem simplifyAll_eq_self_iff (simplified : ∀ m ∈ c.methods, IsSimplified m)
    (h : simplifyAll c = .ok (d, counts)) : d = c ↔ ¬c.HasIdle := by
  obtain ⟨rows, mapped, rfl⟩ := simplifyAll_eq_ok h
  have methods : { c with methods := (rows.map Prod.fst).toArray } = c ↔
      rows.map Prod.fst = c.methods.toList := by
    constructor
    · intro same
      have methods : (rows.map Prod.fst).toArray = c.methods := congrArg ClassFile.methods same
      rw [← methods]
    · intro same
      rw [same]
  rw [methods, Except.map_fst_eq_self_iff mapped, ClassFile.HasIdle, not_exists]
  refine forall_congr' fun m => ?_
  rw [not_and, Array.mem_toList_iff]
  refine forall_congr' fun mem => ?_
  obtain ⟨row, there⟩ := List.mem_iff_getElem?.1 (Array.mem_toList_iff.2 mem)
  obtain ⟨row, -, done⟩ := Except.getElem?_of_mapM mapped there
  rw [← simplifyMethod_eq_self_iff (simplified m mem) done]
  refine ⟨fun all => all row done, fun same row' h => ?_⟩
  rw [done] at h
  cases h
  exact same

/-- All methods of a clarified class are simplified. -/
theorem isSimplified_of_mem {ctx : PassContext} {r : Clarified} (h : ofClass ctx c = .ok r) :
    ∀ m ∈ r.file.methods, IsSimplified m := by
  intro m mem
  obtain ⟨renamed, simple, counts, -, simplified, -, removed⟩ := ofClass_eq_ok h
  obtain ⟨rows, mapped, rfl⟩ := simplifyAll_eq_ok simplified
  rw [show r.file = _ from congrArg Prod.fst removed] at mem
  obtain ⟨j, here, -⟩ := Junk.mem_methods_removeJunk mem
  obtain ⟨row, there, rfl⟩ := List.mem_map.1 (List.mem_toArray.1 (Array.mem_of_getElem? here))
  obtain ⟨m₀, -, done⟩ := Except.exists_of_mem_mapM mapped there
  exact ⟨m₀, row.2, done⟩

end Clarified

/-! ## Recovering again -/

namespace Literal

variable {c : ClassFile} {counts : FlowCounts}

/-- Where no call is recovered, no more than the pool changes. -/
theorem methods_recoverLiterals (none : recovered c = []) :
    c.recoverLiterals.1.methods = c.methods := by
  have run : (outcome c).recovered = [] → (outcome c).progress.file.methods = c.methods := by
    refine List.foldlRecOn (motive := fun o : Outcome =>
      o.recovered = [] → o.progress.file.methods = c.methods) (found c) _ (fun _ => rfl)
      fun o before p _ none => ?_
    obtain ⟨-, recovered, -⟩ | ⟨failed, recovered, progress⟩ :=
      progress_recoverCall (edited c) o p
    · rw [recovered] at none
      cases none
    · rw [recovered] at none
      rw [progress, ← before none]
      have settling := settling_settle (edited c) o.progress p
      rw [failed] at settling
      generalize (settle (edited c) o.progress p).1 = t at settling
      cases settling with
      | noText | noString | noOperand => rfl
  rw [(recoverLiterals_eq c).1]
  exact run (List.reverse_eq_nil_iff.1 none)

/-- An instruction that names a constant does not branch. -/
theorem target?_eq_none_of_poolIndex? {i : Instruction} {index : UInt16}
    (h : i.poolIndex? = some index) : i.target? = none := by
  unfold Instruction.poolIndex? at h
  unfold Instruction.target?
  split at h
  · next operand => rw [operand]
  · next operand => rw [operand]
  · cases h

/-- No call is recovered in a class that comes out as it was: a recovered call is not there any
more, and simplifying does not bring it back. -/
theorem recovered_eq_nil (size : c.pool.size ≤ Pool.capacity)
    (simplified : Clarified.simplifyAll c.recoverLiterals.1 = .ok (c, counts)) :
    recovered c = [] := by
  refine List.eq_nil_iff_forall_not_mem.2 fun p mem => ?_
  have site := isSite_of_mem_found (mem_found_of_mem_recovered mem)
  obtain ⟨code, here, nops⟩ := (recovering_outcome size).removed p (List.mem_reverse.1 mem)
  rw [← (recoverLiterals_eq c).1] at here
  obtain ⟨m₀, isMethod, body₀, isBody₀, rfl⟩ := codeAt?_eq_some_iff.1 here
  obtain ⟨rows, mapped, same⟩ := Clarified.simplifyAll_eq_ok simplified
  obtain ⟨row, there, done⟩ := Except.getElem?_of_mapM mapped
    ((Array.getElem?_toList ..).trans isMethod)
  have isRow : c.methods[p.call.method]? = some row.1 := by
    rw [same, List.getElem?_toArray, List.getElem?_map, there]
    rfl
  obtain ⟨m, isMethod', own, -⟩ := site.method
  cases isRow.symm.trans isMethod'
  obtain ⟨code, instructions, here', decoded, -, invoke⟩ := site.code
  obtain ⟨m, isMethod', body, isBody, rfl⟩ := codeAt?_eq_some_iff.1 here'
  cases isRow.symm.trans isMethod'
  obtain ⟨x, counts', isBody', before⟩ := Clarified.exists_of_simplifyMethod done own isBody
  cases isBody₀.symm.trans isBody'
  obtain ⟨opcode, index, r, operand, -⟩ := site.invokes
  have keeps : p.call.invoke.opcode ≠ Opcode.nop ∧ p.call.invoke.opcode ≠ Opcode.pop ∧
      p.call.invoke.opcode ≠ Opcode.pop2 := by
    rw [opcode]
    decide
  obtain ⟨old, decoded', mem⟩ := Code.mem_of_mem_simplify before decoded invoke
    (target?_eq_none_of_poolIndex? operand) keeps
  have read := (Code.instructionAt_eq_ok_iff.1 (Code.instructionAt_of_mem decoded' mem)).2.2
  have nop := nops p.call.invoke.offset (Nat.le_refl _)
    (Nat.lt_add_of_pos_right p.call.invoke.length_pos)
  rw [← read] at nop
  exact keeps.1 nop

/-- Recovering leaves a class as it is that comes out of it, simplified, as it was. -/
theorem recoverLiterals_eq_self (size : c.pool.size ≤ Pool.capacity)
    (simplified : Clarified.simplifyAll c.recoverLiterals.1 = .ok (c, counts)) :
    c.recoverLiterals.1 = c := by
  have methods := methods_recoverLiterals (recovered_eq_nil size simplified)
  obtain ⟨rows, -, same⟩ := Clarified.simplifyAll_eq_ok simplified
  have pool : c.recoverLiterals.1.pool = c.pool := (congrArg ClassFile.pool same).symm
  rw [(rebodied_recoverLiterals c).frame, methods, pool]

end Literal

/-! ## All passes again -/

/-- Classes with the same bytes have pools of the same size. -/
theorem ClassFile.size_eq_of_write_eq {c d : ClassFile} (few : c.pool.size ≤ Pool.capacity)
    (few' : d.pool.size ≤ Pool.capacity) (same : c.write = d.write) :
    c.pool.size = d.pool.size := by
  have count (c : ClassFile) :
      (c.write.drop 8).take 2 = be16 (UInt16.ofNat c.pool.size) := by
    simp [write, be32, be16, Pool.write]
  have counts : be16 (UInt16.ofNat c.pool.size) = be16 (UInt16.ofNat d.pool.size) := by
    rw [← count, ← count, same]
  have words := congrArg (fun row : Bytes => word16 (row.getD 0 0) (row.getD 1 0)) counts
  rw [be16, be16] at words
  simp only [List.getD_cons_zero, List.getD_cons_succ, word16_be16] at words
  have numbers := congrArg UInt16.toNat words
  rwa [UInt16.toNat_ofNat_of_lt' (Nat.lt_of_le_of_lt few (by decide)),
    UInt16.toNat_ofNat_of_lt' (Nat.lt_of_le_of_lt few' (by decide))] at numbers

/-- Where no removal is reported, the class stays as it is. -/
theorem Junk.removeJunk_eq_self_of_removed {c : ClassFile} {suspects : Suspects}
    {formerNames : Std.TreeMap String String} {spent : List Symbol}
    (none : (c.removeJunk suspects formerNames spent).2.removed = []) :
    (c.removeJunk suspects formerNames spent).1 = c := by
  rw [(removeJunk_eq ..).2, List.filterMap_eq_nil_iff] at none
  exact (removeJunk_eq_self c suspects formerNames spent fun row mem =>
    Option.map_eq_none_iff.1 (none row mem)).1

/-- Where as many methods are left as there were, none has been removed. -/
theorem Junk.removeJunk_eq_self_of_size {c : ClassFile} {suspects : Suspects}
    {formerNames : Std.TreeMap String String} {spent : List Symbol}
    (size : (c.removeJunk suspects formerNames spent).1.methods.size = c.methods.size) :
    (c.removeJunk suspects formerNames spent).1 = c := by
  have sub := (List.filter_sublist (p := fun row => row.2.isNone)
    (l := fated c suspects formerNames)).map Prod.fst
  rw [map_fst_fated] at sub
  rw [(removeJunk_eq ..).1] at size ⊢
  rw [sub.eq_of_length (by simpa using size)]

namespace Clarified

variable {ctx ctx' : PassContext} {c : ClassFile} {r r' : Clarified} {bytes : Bytes}

/-- A class whose bytes clarifying does not change is the class that it was. -/
theorem file_eq_of_write_eq (parsed : ClassFile.parse c.write = .ok c) (h : ofClass ctx c = .ok r)
    (same : r.file.write = c.write) : r.file = c := by
  obtain ⟨⟨sound, short⟩, -⟩ := ClassFile.parse_eq_ok_iff.1 parsed
  have enlarged := enlarged_ofClass sound h
  have size := ClassFile.size_eq_of_write_eq enlarged.room sound.pool.size_le same
  have back := parse_write parsed h (enlarged.short size short)
  rw [same, parsed] at back
  exact (Except.ok.inj back).symm

/-- Where no method is removed, all members are left, under their final names. -/
theorem symbolsOf_of_removed (parsed : ClassFile.parse bytes = .ok c) (h : ofClass ctx c = .ok r)
    (none : r.junk.removed = []) (kind : SymbolKind) :
    r.file.symbolsOf kind = (c.symbolsOf kind).map (ctx.plan.finalSymbol ctx.store) := by
  obtain ⟨renamed, simple, counts, rename, simplified, -, removed⟩ := ofClass_eq_ok h
  have same : r.file = simple := by
    rw [show r.file = _ from congrArg Prod.fst removed]
    refine Junk.removeJunk_eq_self_of_removed ?_
    rwa [show r.junk = _ from congrArg Prod.snd removed] at none
  rw [same]
  exact ((names_of_simplified parsed rename simplified).2 kind).1

/-- Where plans agree, the class is clarified in the same way. -/
theorem ofClass_congr (store : ctx.store = ctx'.store) (suspects : ctx.suspects = ctx'.suspects)
    (blocked : ∀ s, ctx.plan.blocked.contains s = ctx'.plan.blocked.contains s)
    (classes : ∀ name, ctx.plan.classes.contains name = ctx'.plan.classes.contains name) :
    ofClass ctx c = ofClass ctx' c := by
  rw [ofClass, ofClass, store, suspects, ClassFile.rename_congr blocked classes]

/-- A class that comes out as it was keeps its names, and no method has been removed. -/
theorem still_of_file_eq (parsed : ClassFile.parse bytes = .ok c) (h : ofClass ctx c = .ok r)
    (same : r.file = c) : Rename.Still ctx.store ctx.plan c ∧
      ∃ counts, simplifyAll c.recoverLiterals.1 = .ok (c, counts) := by
  obtain ⟨renamed, simple, counts, rename, simplified, -, removed⟩ := ofClass_eq_ok h
  obtain ⟨-, members⟩ := names_of_simplified parsed rename simplified
  have file : r.file = _ := congrArg Prod.fst removed
  have size : simple.methods.size = c.methods.size := by
    simpa [ClassFile.membersOf] using congrArg List.length (members .method).2
  have all : simple = c := by
    rw [← Junk.removeJunk_eq_self_of_size (c := simple) (by rw [← file, same, size]), ← file, same]
  subst all
  have still : Rename.Still ctx.store ctx.plan simple := by
    constructor
    · intro kind s mem
      have final := List.map_inj_left.1 ((members kind).1.symm.trans (List.map_id _).symm) s mem
      exact Plan.target?_eq_none_of_finalName (congrArg Symbol.name final)
    · intro l x found
      have now := linked?_ofClass parsed h found
      rw [same, found, Option.some.injEq] at now
      exact Rename.linkTarget?_eq_none_of_linkName (congrArg MemberRef.name now).symm
  rw [ClassFile.rename_eq_self still (ClassFile.wellFormed_of_parse parsed).size_le] at rename
  cases rename
  exact ⟨still, counts, simplified⟩

/-- When a clarified class that is clarified again stays as it is. -/
theorem file_eq_iff (first : ofClass ctx c = .ok r)
    (back : ClassFile.parse r.file.write = .ok r.file) (suspects : ctx'.suspects = ctx.suspects)
    (again : ofClass ctx' r.file = .ok r') : r'.file = r.file ↔
      Rename.Still ctx'.store ctx'.plan r.file ∧ r.file.recoverLiterals.1 = r.file ∧
        ¬r.file.HasIdle := by
  have size := (ClassFile.wellFormed_of_parse back).size_le
  have simplified := isSimplified_of_mem first
  constructor
  · intro same
    obtain ⟨still, counts, simple⟩ := still_of_file_eq back again same
    have recovered := Literal.recoverLiterals_eq_self size simple
    rw [recovered] at simple
    exact ⟨still, recovered, (simplifyAll_eq_self_iff simplified simple).1 rfl⟩
  · rintro ⟨still, recovered, busy⟩
    obtain ⟨renamed, simple, counts, rename, simple', -, removed⟩ := ofClass_eq_ok again
    rw [ClassFile.rename_eq_self still size] at rename
    cases rename
    rw [recovered] at simple'
    rw [show r'.file = _ from congrArg Prod.fst removed,
      (simplifyAll_eq_self_iff simplified simple').2 busy, suspects]
    obtain ⟨_, simple₀, _, -, -, -, removed₀⟩ := ofClass_eq_ok first
    rw [show r.file = _ from congrArg Prod.fst removed₀]
    exact (Junk.removeJunk_removeJunk _ _ (fun _ => Junk.isSuspect_of_emptyc) _ _).1

end Clarified

end Clarify
