import Clarify.Pass.Unit
import Clarify.Proofs.Flow.Sound
import Clarify.Proofs.Literal.Sound
import Clarify.Proofs.Naming.Links
import Clarify.Proofs.Naming.Sound
import Clarify.Proofs.Unit.Fates

/-!
# The passes over one class

Results:
* `parse_clarifyUnit`: a clarified class can be read back, unless it has too long a text.
-/

namespace Clarify

/-! ## Members without their bodies -/

/-- A member without its attributes. -/
def Member.head (m : Member) : Member := { m with attributes := [] }

namespace ClassFile

/-- The second class is the first one with another pool and other bodies. -/
structure Rebodied (c d : ClassFile) : Prop where
  frame : d = { c with pool := d.pool, methods := d.methods }
  heads : d.methods.toList.map Member.head = c.methods.toList.map Member.head

variable {c d e : ClassFile}

theorem Rebodied.refl (c : ClassFile) : Rebodied c c := ⟨rfl, rfl⟩

theorem Rebodied.trans (h : Rebodied c d) (h' : Rebodied d e) : Rebodied c e := by
  refine ⟨?_, h'.heads.trans h.heads⟩
  rw [h'.frame, h.frame]

theorem Rebodied.size_methods (h : Rebodied c d) : d.methods.size = c.methods.size := by
  simpa using congrArg List.length h.heads

end ClassFile

/-! ## Recovering literals -/

namespace Literal

variable {c : ClassFile}

theorem rebodied_withPool (c : ClassFile) (pool : Pool) : c.Rebodied { c with pool } := ⟨rfl, rfl⟩

theorem rebodied_editMethod (c : ClassFile) (k : Nat) (edit : Array UInt8 → Array UInt8) :
    c.Rebodied (editMethod c k edit) := by
  refine ⟨rfl, List.ext_getElem? fun j => ?_⟩
  rw [List.getElem?_map, List.getElem?_map, Array.getElem?_toList, Array.getElem?_toList,
    editMethod, Array.getElem?_modify]
  split
  · rw [Option.map_map]
    rfl
  · rfl

theorem rebodied_settle (E : Std.TreeSet UInt16) (s : Progress) (p : Plain) :
    s.file.Rebodied (settle E s p).1.file := by
  unfold settle
  split
  · exact .refl _
  · split
    · split
      · next t repointed =>
        unfold repoint? at repointed
        split at repointed
        · cases repointed
          exact .refl _
        · obtain ⟨_, -, rfl⟩ := Option.map_eq_some_iff.1 repointed
          exact rebodied_withPool ..
      · exact .refl _
    · unfold reload
      split
      · exact .refl _
      · split
        · exact rebodied_withPool ..
        · next x pool _ =>
          have grown := rebodied_withPool s.file pool
          dsimp only
          split
          · exact grown
          · next operand _ =>
            exact grown.trans (rebodied_editMethod _ p.call.method fun bytes =>
              Code.overwrite bytes (p.load.offset + 1) operand)

theorem rebodied_recoverCall (E : Std.TreeSet UInt16) (o : Outcome) (p : Plain) :
    o.progress.file.Rebodied (recoverCall E o p).progress.file := by
  have settled := rebodied_settle E o.progress p
  unfold recoverCall
  rcases e : settle E o.progress p with ⟨s, worked⟩
  rw [e] at settled
  cases worked with
  | false => exact settled
  | true =>
    exact settled.trans (rebodied_editMethod s.file p.call.method fun bytes =>
      Code.nopOut bytes p.call.invoke)

theorem rebodied_recoverLiterals (c : ClassFile) : c.Rebodied c.recoverLiterals.1 := by
  rw [(recoverLiterals_eq c).1]
  exact List.foldlRecOn (motive := fun o : Outcome => c.Rebodied o.progress.file) (found c) _
    (.refl c) fun o rebodied p _ => rebodied.trans (rebodied_recoverCall (edited c) o p)

end Literal

/-! ## Simplifying the flow of control -/

namespace Clarified

variable {c d : ClassFile} {m : Member} {counts : FlowCounts}

theorem head_simplifyMethod {row : Member × FlowCounts} (h : simplifyMethod m = .ok row) :
    row.1.head = m.head := by
  unfold simplifyMethod at h
  split at h
  · cases h
    rfl
  · split at h
    · cases h
      rfl
    · obtain ⟨_, -, h⟩ := Except.bind_eq_ok_iff.1 h
      cases h
      rfl

theorem simplifyAll_eq_ok (h : simplifyAll c = .ok (d, counts)) :
    ∃ rows, c.methods.toList.mapM simplifyMethod = .ok rows ∧
      d = { c with methods := (rows.map Prod.fst).toArray } := by
  obtain ⟨rows, mapped, h⟩ := Except.bind_eq_ok_iff.1 h
  cases h
  exact ⟨rows, mapped, rfl⟩

theorem rebodied_simplifyAll (h : simplifyAll c = .ok (d, counts)) : c.Rebodied d := by
  obtain ⟨rows, mapped, rfl⟩ := simplifyAll_eq_ok h
  refine ⟨rfl, ?_⟩
  rw [List.map_map]
  exact Except.map_eq_of_mapM (fun _ _ => head_simplifyMethod) mapped

theorem sound_simplifyMethod {pool : Pool} {row : Member × FlowCounts} (sound : m.Sound pool)
    (h : simplifyMethod m = .ok row) : row.1.Sound pool := by
  unfold simplifyMethod at h
  split at h
  · cases h
    exact sound
  · split at h
    · cases h
      exact sound
    · next body isBody =>
      obtain ⟨⟨simple, counts⟩, simplified, h⟩ := Except.bind_eq_ok_iff.1 h
      cases h
      refine sound.mapBody fun body' isBody' => ?_
      rw [isBody] at isBody'
      cases isBody'
      exact (sound.body isBody).simplify simplified

end Clarified

namespace ClassFile

variable {c d : ClassFile} {counts : FlowCounts}

/-- A simplified class can be written. -/
theorem Sound.simplifyAll (sound : c.Sound) (h : Clarified.simplifyAll c = .ok (d, counts)) :
    d.Sound := by
  have size := (Clarified.rebodied_simplifyAll h).size_methods
  obtain ⟨rows, mapped, rfl⟩ := Clarified.simplifyAll_eq_ok h
  refine sound.change sound.pool (.refl _ _) sound.fields ⟨?_, fun m mem => ?_⟩ sound.attributes
    sound.attributeNames
  · rw [size]
    exact sound.methods.1
  · obtain ⟨row, there, rfl⟩ := List.mem_map.1 (List.mem_toArray.1 mem)
    obtain ⟨m, old, simplified⟩ := Except.exists_of_mem_mapM mapped there
    exact Clarified.sound_simplifyMethod (sound.methods.2 m (Array.mem_toList_iff.1 old)) simplified

/-- A class without its junk methods can be written. -/
theorem Sound.removeJunk (sound : c.Sound) (suspects : Suspects)
    (formerNames : Std.TreeMap String String) (spent : List Symbol) :
    (c.removeJunk suspects formerNames spent).1.Sound := by
  have sub := (List.filter_sublist (p := fun row => row.2.isNone)
    (l := Junk.fated c suspects formerNames)).map Prod.fst
  rw [Junk.map_fst_fated] at sub
  rw [(Junk.removeJunk_eq ..).1]
  refine sound.change sound.pool (.refl _ _) sound.fields ⟨?_, fun m mem => ?_⟩ sound.attributes
    sound.attributeNames
  · have le := sub.length_le
    rw [Array.length_toList] at le
    exact Nat.lt_of_le_of_lt le sound.methods.1
  · exact sound.methods.2 m (Array.mem_toList_iff.1 (sub.subset (List.mem_toArray.1 mem)))

end ClassFile

/-! ## All passes -/

namespace Clarified

/-- The steps that a class goes through when it is clarified. -/
theorem ofClass_eq_ok {ctx : PassContext} {c : ClassFile} {r : Clarified}
    (h : ofClass ctx c = .ok r) :
    ∃ renamed simple counts, c.rename ctx.store ctx.plan = .ok renamed ∧
      simplifyAll renamed.file.recoverLiterals.1 = .ok (simple, counts) ∧
      r.declarations = renamed.declarations ∧
      (r.file, r.junk) = simple.removeJunk ctx.suspects (formerNames renamed.declarations)
        renamed.file.recoverLiterals.2.spent := by
  rw [ofClass, Except.bind_eq_ok_iff] at h
  obtain ⟨renamed, rename, h⟩ := h
  obtain ⟨⟨simple, counts⟩, simplified, h⟩ := Except.bind_eq_ok_iff.1 h
  cases h
  exact ⟨renamed, simple, counts, rename, Except.mapError_eq_ok_iff.1 simplified, rfl, rfl⟩

/-- A clarified class can be written. -/
theorem sound_ofClass {ctx : PassContext} {c : ClassFile} {r : Clarified} (sound : c.Sound)
    (h : ofClass ctx c = .ok r) : r.file.Sound := by
  obtain ⟨renamed, simple, counts, rename, simplified, -, removed⟩ := ofClass_eq_ok h
  rw [show r.file = _ from congrArg Prod.fst removed]
  exact ((sound.rename rename).recoverLiterals.simplifyAll simplified).removeJunk ..

end Clarified

theorem clarifyUnit_eq_ok {ctx : PassContext} {entry : String} {bytes : Bytes} {out : UnitOutput}
    (h : (clarifyUnit ctx entry bytes).1 = .ok out) :
    ∃ c r, ClassFile.parse bytes = .ok c ∧ Clarified.ofClass ctx c = .ok r ∧
      out.bytes = r.file.write := by
  unfold clarifyUnit at h
  split at h
  · next c parsed =>
    unfold clarifyClass at h
    dsimp only at h
    split at h
    · next r clarified =>
      cases h
      exact ⟨c, r, parsed, clarified, rfl⟩
    · cases h
  · cases h

/-- The bytes of a clarified class are read back as it is, unless one of its texts is too long. -/
theorem Clarified.parse_write {ctx : PassContext} {c : ClassFile} {r : Clarified} {bytes : Bytes}
    (parsed : ClassFile.parse bytes = .ok c) (clarified : ofClass ctx c = .ok r)
    (short : r.file.pool.Short) : ClassFile.parse r.file.write = .ok r.file :=
  ClassFile.parse_eq_ok_iff.2
    ⟨⟨sound_ofClass (ClassFile.parse_eq_ok_iff.1 parsed).1.1 clarified, short⟩, rfl⟩

/-- A clarified class is read back as it is, unless one of its texts is too long. -/
theorem parse_clarifyUnit {ctx : PassContext} {entry : String} {bytes : Bytes} {out : UnitOutput}
    (h : (clarifyUnit ctx entry bytes).1 = .ok out) :
    ∃ c r, ClassFile.parse bytes = .ok c ∧ Clarified.ofClass ctx c = .ok r ∧
      out.bytes = r.file.write ∧ (r.file.pool.Short → ClassFile.parse out.bytes = .ok r.file) := by
  obtain ⟨c, r, parsed, clarified, written⟩ := clarifyUnit_eq_ok h
  refine ⟨c, r, parsed, clarified, written, fun short => ?_⟩
  rw [written]
  exact Clarified.parse_write parsed clarified short

/-- The helper `d` gets another name, its calls are recovered, and it is removed. -/
def crossedContext : PassContext where
  store := Mapping.empty.override "d" "decrypt"
  plan := { classes := Std.TreeSet.ofList ["S"], blocked := ∅ }
  suspects := .empty

theorem parse_clarifyUnit_crossed : ∃ (out : UnitOutput) (r : Clarified),
    (clarifyUnit crossedContext "S.class" Literal.crossed.write).1 = .ok out ∧
    r.junk.removed.length = 1 ∧ out.bytes = r.file.write ∧
    ClassFile.parse out.bytes = .ok r.file := by
  obtain ⟨r, clarified, facts⟩ := ClassFile.exists_ok_of_map_toOption
    (f := fun r : Clarified => (r.junk.removed.length,
      r.file.pool.slots.all fun slot => slot.all fun c : Constant => decide c.Fits))
    (b := (1, true))
    (show (Clarified.ofClass crossedContext Literal.crossed).toOption.map _ = _ by decide +kernel)
  obtain ⟨removed, fits⟩ := Prod.mk.inj facts
  have ok : (clarifyUnit crossedContext "S.class" Literal.crossed.write).1 =
      .ok { bytes := r.file.write
            counts := r.counts (Clarified.nativeNotes "S.class" Literal.crossed).length } := by
    simp only [clarifyUnit, Literal.parse_crossed, clarifyClass, clarified]
  obtain ⟨c, r', parsed, clarified', written, back⟩ := parse_clarifyUnit ok
  rw [Literal.parse_crossed] at parsed
  cases parsed
  rw [clarified] at clarified'
  cases clarified'
  exact ⟨_, r, ok, removed, written, back (Pool.short_of_all fits)⟩

end Clarify
