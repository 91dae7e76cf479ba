import Clarify.Proofs.Naming.Unchanged
import Clarify.Proofs.Unit.Passes

/-!
# Classes that are clarified

Results:
* `Clarified.exists_ofClass`: once a class is renamed, nothing more can go wrong.
-/

namespace Clarify

theorem Code.Sound.exists_simplify {c : Code} (h : c.Sound) :
    ∃ simple counts, c.simplify = .ok (simple, counts) := by
  obtain ⟨instructions, decoded⟩ := h.decodes
  obtain ⟨straight, decoded'⟩ := (h.threadJumps decoded).1.decodes
  exact ⟨_, _, Except.bind_eq_ok_iff.2 ⟨instructions, decoded,
    Except.bind_eq_ok_iff.2 ⟨straight, decoded', rfl⟩⟩⟩

theorem ClassFile.Sound.exists_simplifyAll {c : ClassFile} (h : c.Sound) :
    ∃ d counts, Clarified.simplifyAll c = .ok (d, counts) := by
  have each : ∀ m ∈ c.methods.toList, ∃ row, Clarified.simplifyMethod m = .ok row := by
    intro m mem
    unfold Clarified.simplifyMethod
    split
    · exact ⟨_, rfl⟩
    · split
      · exact ⟨_, rfl⟩
      · next body isBody =>
        have sound := (h.methods.2 m (Array.mem_toList_iff.1 mem)).body isBody
        obtain ⟨simple, counts, simplified⟩ := sound.exists_simplify
        exact ⟨_, Except.bind_eq_ok_iff.2 ⟨_, simplified, rfl⟩⟩
  obtain ⟨rows, mapped⟩ := Except.exists_mapM each
  exact ⟨_, _, Except.bind_eq_ok_iff.2 ⟨rows, mapped, rfl⟩⟩

namespace Clarified

variable (ctx : PassContext) {c : ClassFile}

/-- Once a class is renamed, nothing more can go wrong. -/
theorem exists_ofClass {renamed : Renamed} (sound : c.Sound)
    (h : c.rename ctx.store ctx.plan = .ok renamed) : ∃ r, ofClass ctx c = .ok r := by
  obtain ⟨d, counts, simplified⟩ := (sound.rename h).recoverLiterals.exists_simplifyAll
  exact ⟨_, Except.bind_eq_ok_iff.2 ⟨renamed, h, Except.bind_eq_ok_iff.2
    ⟨(d, counts), Except.mapError_eq_ok_iff.2 simplified, rfl⟩⟩⟩

theorem clarifyUnit_of_ofClass (entry : String) {bytes : Bytes} {r : Clarified}
    (parsed : ClassFile.parse bytes = .ok c) (clarified : ofClass ctx c = .ok r) :
    ∃ out, (clarifyUnit ctx entry bytes).1 = .ok out ∧ out.bytes = r.file.write := by
  refine ⟨{ bytes := r.file.write, counts := r.counts (nativeNotes entry c).length }, ?_, rfl⟩
  simp only [clarifyUnit, parsed, clarifyClass, clarified]

end Clarified

end Clarify
