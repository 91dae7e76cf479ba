import Clarify.Proofs.Unit.Passes

/-!
# The references of a clarified class

The passes behind the renaming leave member references and attributes of a class as they are, so a
reference ends with the name that the renaming gives it.

Results:
* `linked?_ofClass`: the references of a clarified class.
-/

namespace Clarify

theorem Pool.Keeps.memberRef? {p q : Pool} (h : p.Keeps Constant.blankString q) {index : UInt16}
    {r : MemberRef} (found : p.memberRef? index = some r) : q.memberRef? index = some r := by
  obtain ⟨owner, pair, here, foundOwner, foundPair⟩ := Pool.memberRef?_eq_some_iff.1 found
  obtain ⟨c, here', same⟩ := h.get? here
  have keeps := h.blank.keepsNames
  cases c <;> cases same
  exact Pool.memberRef?_eq_some_iff.2
    ⟨owner, pair, here', keeps.className? foundOwner, keeps.nameAndType? foundPair⟩

namespace ClassFile

variable {c d : ClassFile} {l : Link} {r : MemberRef}

theorem linked?_of_keeps (keeps : c.pool.Keeps Constant.blankString d.pool)
    (attributes : d.attributes = c.attributes) (found : c.linked? l = some r) :
    d.linked? l = some r := by
  cases l with
  | entry index => exact keeps.memberRef? found
  | enclosing position =>
    simp only [linked?, attributes, Option.bind_eq_bind, Option.bind_eq_some_iff] at found ⊢
    obtain ⟨a, here, found⟩ := found
    exact ⟨a, here, Rename.enclosing?_mono keeps.blank.keepsNames found⟩

end ClassFile

namespace Clarified

variable {ctx : PassContext} {c : ClassFile} {r : Clarified}

/-- The passes behind the renaming keep the attributes, and the pool but for its strings. -/
theorem exists_rename_of_ofClass (sound : c.Sound) (clarified : ofClass ctx c = .ok r) :
    ∃ renamed, c.rename ctx.store ctx.plan = .ok renamed ∧
      renamed.file.pool.Keeps Constant.blankString r.file.pool ∧
      r.file.attributes = renamed.file.attributes := by
  obtain ⟨renamed, simple, counts, rename, simplified, -, removed⟩ := ofClass_eq_ok clarified
  have recovered := Literal.standing_recoverLiterals (sound.rename rename)
  obtain ⟨rows, -, rfl⟩ := simplifyAll_eq_ok simplified
  rw [show r.file = _ from congrArg Prod.fst removed, (Junk.removeJunk_eq ..).1]
  have attributes : renamed.file.recoverLiterals.1.attributes = renamed.file.attributes := by
    rw [(Literal.rebodied_recoverLiterals renamed.file).frame]
  exact ⟨renamed, rename, recovered.keeps, attributes⟩

/-- A reference of a class has its final name if it is to the class itself or to one of the plan,
and its old name otherwise. -/
theorem linked?_ofClass {bytes : Bytes} (parsed : ClassFile.parse bytes = .ok c)
    (clarified : ofClass ctx c = .ok r) {l : Link} {x : MemberRef} (found : c.linked? l = some x) :
    r.file.linked? l = some { x with name := Rename.linkName ctx.store ctx.plan c x } := by
  have sound := (ClassFile.parse_eq_ok_iff.1 parsed).1.1
  obtain ⟨renamed, rename, keeps, attributes⟩ := exists_rename_of_ofClass sound clarified
  have first := ClassFile.linked?_rename_of_isRenamedOwner_eq
    (ClassFile.wellFormed_of_parse parsed) rename found fun p keeps => by
      have same : ClassFile.className { c with pool := p } = c.className :=
        sound.className_eq keeps rfl
      rw [Rename.isRenamedOwner, Rename.isRenamedOwner, same]
  exact ClassFile.linked?_of_keeps keeps attributes first

end Clarified

end Clarify
