import Clarify.Proofs.Literal.Recovery

/-!
# What recovering a call can do

Settling a load is one of six things: nothing, where its constant has the plain text already; the
constant gets the text; the load gets a constant of its own; or there is no room for the text, for
a string that shows it, or for the index of the string in the load. Whatever is true of a run is
read off these.

Results:
* `settling_settle`: the six cases.
* `emptied_recoverLiterals`: of the methods, no more than the bytes of their bodies change.
* `spares_recoverLiterals`: of the bytes, no more than the operands of the loads and the calls that
  are recovered.
-/

namespace Clarify

namespace Literal

variable {c d : ClassFile} {p : Plain} {E : Std.TreeSet UInt16}

/-! ## Settling a load -/

/-- What settling a load makes of a state, and whether it works. -/
inductive Settling (E : Std.TreeSet UInt16) (s : Progress) (p : Plain) : Progress → Bool → Prop
  /-- The literal is plain already, or its constant has got the plain text before. -/
  | done (plain : p.unchanged = true ∨
      E.contains p.index = true ∧ s.repointed.contains p.index = true) : Settling E s p s true
  /-- The pool has neither the text nor room for it. -/
  | noText (changed : p.unchanged = false)
      (open' : E.contains p.index = true → s.repointed.contains p.index = false)
      (full : s.file.pool.internText? p.text = none) : Settling E s p s false
  /-- The constant gets the text. -/
  | repointed (changed : p.unchanged = false) (own : E.contains p.index = true)
      (first : s.repointed.contains p.index = false) {text : UInt16} {pool : Pool}
      (interned : s.file.pool.internText? p.text = some (text, pool)) :
      Settling E s p
        { file := { s.file with pool := pool.replace p.index (.string text) }
          repointed := s.repointed.insert p.index } true
  /-- There is room for the text only. -/
  | noString (changed : p.unchanged = false) (shared : E.contains p.index = false) {text : UInt16}
      {pool : Pool} (interned : s.file.pool.internText? p.text = some (text, pool))
      (full : pool.intern? (.string text) = none) :
      Settling E s p { s with file := { s.file with pool } } false
  /-- The index of the string is too large for the load. -/
  | noOperand (changed : p.unchanged = false) (shared : E.contains p.index = false)
      {text x : UInt16} {pool pool' : Pool}
      (interned : s.file.pool.internText? p.text = some (text, pool))
      (interned' : pool.intern? (.string text) = some (x, pool'))
      (narrow : loadOperand? p.load.opcode x = none) :
      Settling E s p { s with file := { s.file with pool := pool' } } false
  /-- The load gets a constant of its own. -/
  | reloaded (changed : p.unchanged = false) (shared : E.contains p.index = false)
      {text x : UInt16} {pool pool' : Pool}
      (interned : s.file.pool.internText? p.text = some (text, pool))
      (interned' : pool.intern? (.string text) = some (x, pool')) {operand : Bytes}
      (fits : loadOperand? p.load.opcode x = some operand) :
      Settling E s p { s with file := withOperand { s.file with pool := pool' } p operand } true

theorem settling_settle (E : Std.TreeSet UInt16) (s : Progress) (p : Plain) :
    Settling E s p (settle E s p).1 (settle E s p).2 := by
  unfold settle
  split
  · next plain => exact .done (.inl plain)
  next changed =>
  have changed := eq_false_of_ne_true changed
  split
  · next own =>
    unfold repoint?
    by_cases touched : s.repointed.contains p.index = true
    · rw [if_pos touched]
      exact .done (.inr ⟨own, touched⟩)
    · rw [if_neg touched]
      have first := eq_false_of_ne_true touched
      rcases interned : s.file.pool.internText? p.text with _ | ⟨text, pool⟩
      · exact .noText changed (fun _ => first) interned
      · exact .repointed changed own first interned
  · next shared =>
    have shared := eq_false_of_ne_true shared
    unfold reload
    split
    · next full =>
      exact .noText changed (fun own => by rw [own] at shared; cases shared) full
    · next text pool interned =>
      split
      · next full => exact .noString changed shared interned full
      · next x pool' interned' =>
        dsimp only
        split
        · next narrow => exact .noOperand changed shared interned interned' narrow
        · next operand fits => exact .reloaded changed shared interned interned' fits

/-- The state behind one call. -/
theorem progress_recoverCall (E : Std.TreeSet UInt16) (o : Outcome) (p : Plain) :
    ((settle E o.progress p).2 = true ∧ (recoverCall E o p).recovered = p :: o.recovered ∧
      (recoverCall E o p).progress = { (settle E o.progress p).1 with
        file := removeCall (settle E o.progress p).1.file p.call }) ∨
    ((settle E o.progress p).2 = false ∧ (recoverCall E o p).recovered = o.recovered ∧
      (recoverCall E o p).progress = (settle E o.progress p).1) := by
  unfold recoverCall
  rcases settle E o.progress p with ⟨s, worked⟩
  cases worked with
  | true => exact .inl ⟨rfl, rfl, rfl⟩
  | false => exact .inr ⟨rfl, rfl, rfl⟩

theorem mem_recovered_recoverCall {q : Plain} {o : Outcome} (h : q ∈ o.recovered) :
    q ∈ (recoverCall E o p).recovered := by
  obtain ⟨-, recovered, -⟩ | ⟨-, recovered, -⟩ := progress_recoverCall E o p
  · rw [recovered]
    exact List.mem_cons_of_mem p h
  · rw [recovered]
    exact h

end Literal

/-! ## Methods without the bytes of their bodies -/

/-- A member without the bytes of its body. -/
def Member.emptied (m : Member) : Member := m.mapBody fun body => { body with bytes := #[] }

theorem Member.mapBody_mapBody (m : Member) (f g : Code → Code) :
    (m.mapBody f).mapBody g = m.mapBody (g ∘ f) := by
  obtain ⟨access, name, descriptor, attributes⟩ := m
  refine congrArg (Member.mk access name descriptor) ?_
  show mapFirstBody g (mapFirstBody f attributes) = mapFirstBody (g ∘ f) attributes
  induction attributes with
  | nil => rfl
  | cons a rest ih =>
    cases a with
    | code name body => rfl
    | other raw => exact congrArg (MemberAttribute.other raw :: ·) ih

namespace Literal

variable {c d : ClassFile} {p : Plain} {E : Std.TreeSet UInt16}

theorem emptied_editMethod (c : ClassFile) (k : Nat) (edit : Array UInt8 → Array UInt8) :
    (editMethod c k edit).methods.map Member.emptied = c.methods.map Member.emptied := by
  refine Array.ext_getElem? fun j => ?_
  rw [Array.getElem?_map, Array.getElem?_map, editMethod, Array.getElem?_modify]
  split
  · rw [Option.map_map]
    refine congrArg (Option.map · _) ?_
    funext m
    exact Member.mapBody_mapBody m _ _
  · rfl

theorem Settling.emptied {s t : Progress} {worked : Bool} (h : Settling E s p t worked) :
    t.file.methods.map Member.emptied = s.file.methods.map Member.emptied := by
  cases h with
  | done | noText | repointed | noString | noOperand => rfl
  | reloaded => exact emptied_editMethod ..

/-- Of the methods, no more than the bytes of their bodies change. -/
theorem emptied_recoverLiterals (c : ClassFile) :
    c.recoverLiterals.1.methods.map Member.emptied = c.methods.map Member.emptied := by
  rw [(recoverLiterals_eq c).1]
  refine List.foldlRecOn (motive := fun o : Outcome =>
    o.progress.file.methods.map Member.emptied = c.methods.map Member.emptied)
    (found c) _ rfl fun o same p _ => ?_
  have settled := (settling_settle (edited c) o.progress p).emptied.trans same
  obtain ⟨-, -, progress⟩ | ⟨-, -, progress⟩ := progress_recoverCall (edited c) o p
  · rw [progress]
    exact (emptied_editMethod ..).trans settled
  · rw [progress]
    exact settled

/-! ## Bytes that stay -/

theorem Settling.spares {s t : Progress} {worked : Bool} (site : IsSite c p)
    (h : Settling E s p t worked) : Spares s.file t.file (if worked then [p] else []) := by
  cases h with
  | done | noText | repointed | noString | noOperand => exact spares_withPool s.file _ _
  | reloaded changed shared interned interned' fits =>
    exact site.spares_withOperand { s.file with pool := _ } fits

/-- Of the bytes, no more than the operands of the loads and the calls that are recovered change. -/
theorem spares_recoverLiterals (c : ClassFile) : Spares c c.recoverLiterals.1 (recovered c) := by
  have run : Spares c (outcome c).progress.file (outcome c).recovered := by
    refine List.foldlRecOn (motive := fun o : Outcome =>
      Spares c o.progress.file o.recovered) (found c) _ (spares_withPool c c.pool [])
      fun o spares p mem => ?_
    have site := isSite_of_mem_found mem
    have settled := (settling_settle (edited c) o.progress p).spares site
    obtain ⟨worked, recovered, progress⟩ | ⟨failed, recovered, progress⟩ :=
      progress_recoverCall (edited c) o p
    · rw [worked, if_pos rfl] at settled
      rw [progress, recovered]
      have own : [p] ⊆ p :: o.recovered := List.cons_subset_cons p (List.nil_subset _)
      have both := settled.trans (spares_removeCall _ site.next)
      exact (spares.mono (List.subset_cons_self p _)).trans (both.mono own)
    · rw [failed, if_neg (by decide)] at settled
      rw [progress, recovered]
      exact spares.trans (settled.mono (List.nil_subset _))
  rw [(recoverLiterals_eq c).1, recovered]
  exact run.mono fun p mem => List.mem_reverse.2 mem

end Literal

end Clarify
