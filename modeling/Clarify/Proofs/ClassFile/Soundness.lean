import Clarify.Proofs.ClassFile.RoundTrip

/-!
# Class files that stay sound

What changes may be made to a class file that can be written, so that the result can be written as
well. Constants are added, or give way to constants of the same looks: strings to other strings, and
member references to others of the same kind and owner. Everything that refers to a constant only
asks for its looks.

Results:
* `Pool.Sound.intern?`, `Pool.Sound.replace`: pools stay sound.
* `Member.Sound.keeps`, `Member.Sound.mapBody`, `Member.Sound.setBody`: members stay sound.
* `ClassFile.Sound.change`: class files stay sound.
-/

namespace Clarify

namespace Constant

/-- A constant without what a string or a member reference leads to. -/
def blank : Constant → Constant
  | .string _ => .string 0
  | .memberRef kind owner _ => .memberRef kind owner 0
  | c => c

/-- A constant without what a string leads to. -/
def blankString : Constant → Constant
  | .string _ => .string 0
  | c => c

theorem blank_blankString (c : Constant) : c.blankString.blank = c.blank := by
  cases c <;> rfl

theorem isWide_blank (c : Constant) : c.blank.isWide = c.isWide := by
  cases c <;> rfl

end Constant

namespace Pool

variable {p q r : Pool} {index : UInt16} {c d : Constant} {view : Constant → Constant}

/-! ## Constants that keep their looks -/

/-- The second pool has a constant that looks the same wherever the first one has a constant. -/
def Keeps (view : Constant → Constant) (p q : Pool) : Prop :=
  ∀ index c, p.get? index = some c → (q.get? index).map view = some (view c)

theorem Keeps.refl (view : Constant → Constant) (p : Pool) : p.Keeps view p :=
  fun _ _ found => by rw [found, Option.map_some]

theorem Keeps.get? (h : p.Keeps view q) (found : p.get? index = some c) :
    ∃ d, q.get? index = some d ∧ view d = view c :=
  Option.map_eq_some_iff.1 (h index c found)

theorem Keeps.trans (h : p.Keeps view q) (h' : q.Keeps view r) : p.Keeps view r := by
  intro index c found
  obtain ⟨d, found', same⟩ := h.get? found
  rw [h' index d found', same]

theorem Extends.keeps (h : p.Extends q) : p.Keeps view q :=
  fun index c found => by rw [h index c found, Option.map_some]

theorem Keeps.blank (h : p.Keeps Constant.blankString q) : p.Keeps Constant.blank q := by
  intro index c found
  obtain ⟨d, found', same⟩ := h.get? found
  rw [found', Option.map_some, ← Constant.blank_blankString, same, Constant.blank_blankString]

theorem keeps_replace (here : p.get? index = some c) (same : view d = view c) :
    p.Keeps view (p.replace index d) := by
  intro i e found
  by_cases at' : index = i
  · subst at'
    rw [here] at found
    cases found
    rw [get?_replace_self (lt_size_of_get? here), Option.map_some, same]
  · rw [get?_replace_of_ne at', found, Option.map_some]

theorem Keeps.string (h : p.Keeps Constant.blankString q) {value : UInt16}
    (found : p.get? index = some (.string value)) :
    ∃ value', q.get? index = some (.string value') := by
  obtain ⟨d, found', same⟩ := h.get? found
  cases d <;> cases same
  exact ⟨_, found'⟩

section Keeps

variable (h : p.Keeps Constant.blank q)

include h

theorem Keeps.utf8 {bytes : Bytes} (found : p.get? index = some (.utf8 bytes)) :
    q.get? index = some (.utf8 bytes) := by
  obtain ⟨d, found', same⟩ := h.get? found
  cases d <;> cases same
  exact found'

theorem Keeps.classRef {name : UInt16} (found : p.get? index = some (.classRef name)) :
    q.get? index = some (.classRef name) := by
  obtain ⟨d, found', same⟩ := h.get? found
  cases d <;> cases same
  exact found'

theorem Keeps.nameAndType {n t : UInt16} (found : p.get? index = some (.nameAndType n t)) :
    q.get? index = some (.nameAndType n t) := by
  obtain ⟨d, found', same⟩ := h.get? found
  cases d <;> cases same
  exact found'

theorem Keeps.memberRef {kind : RefKind} {owner pair : UInt16}
    (found : p.get? index = some (.memberRef kind owner pair)) :
    ∃ pair', q.get? index = some (.memberRef kind owner pair') := by
  obtain ⟨d, found', same⟩ := h.get? found
  cases d <;> cases same
  exact ⟨_, found'⟩

theorem Keeps.keepsNames : p.KeepsNames q := by
  rintro index (_ | _) found naming <;> cases naming
  · exact h.utf8 found
  · exact h.classRef found
  · exact h.nameAndType found

end Keeps

/-- A constant still refers to constants of the right kinds. -/
theorem Keeps.checkConstant (h : p.Keeps Constant.blank q) (ok : p.checkConstant c = .ok ()) :
    q.checkConstant c = .ok () := by
  have text {i : UInt16} {u : Unit} (ok : p.expectText i = .ok u) : q.expectText i = .ok u :=
    let ⟨bytes, found⟩ := expectText_eq_ok_iff.1 ok
    expectText_eq_ok_iff.2 ⟨bytes, h.utf8 found⟩
  have class' {i : UInt16} {u : Unit} (ok : p.expectClass i = .ok u) : q.expectClass i = .ok u :=
    let ⟨name, found⟩ := expectClass_eq_ok_iff.1 ok
    expectClass_eq_ok_iff.2 ⟨name, h.classRef found⟩
  have pair {i : UInt16} {u : Unit} (ok : p.expectNameAndType i = .ok u) :
      q.expectNameAndType i = .ok u :=
    let ⟨name, descriptor, found⟩ := expectNameAndType_eq_ok_iff.1 ok
    expectNameAndType_eq_ok_iff.2 ⟨name, descriptor, h.nameAndType found⟩
  have member {i : UInt16} {u : Unit} (ok : p.expectMember i = .ok u) :
      q.expectMember i = .ok u :=
    let ⟨kind, owner, _, found⟩ := expectMember_eq_ok_iff.1 ok
    let ⟨pair, found⟩ := h.memberRef found
    expectMember_eq_ok_iff.2 ⟨kind, owner, pair, found⟩
  cases c with
  | utf8 _ | integer _ | float _ | long _ | double _ => rfl
  | classRef _ | string _ | methodType _ | module _ | package _ => exact text ok
  | dynamic _ _ | invokeDynamic _ _ => exact pair ok
  | nameAndType _ _ =>
    obtain ⟨u, first, second⟩ := Except.bind_eq_ok_iff.1 ok
    exact Except.bind_eq_ok_iff.2 ⟨u, text first, text second⟩
  | memberRef _ _ _ =>
    obtain ⟨u, first, second⟩ := Except.bind_eq_ok_iff.1 ok
    exact Except.bind_eq_ok_iff.2 ⟨u, class' first, pair second⟩
  | methodHandle kind reference =>
    unfold Pool.checkConstant at ok ⊢
    dsimp only at ok ⊢
    split at ok
    · cases ok
    · next range =>
      rw [if_neg range]
      exact member ok

/-! ## Pools that stay sound -/

/-- A constant goes behind the others. -/
theorem laid_of_intern? (laid : ∃ constants, p.slots.toList = none :: layOut constants)
    (added : p.intern? c = some (index, q)) :
    ∃ constants, q.slots.toList = none :: layOut constants := by
  rw [Pool.intern?] at added
  split at added
  · cases added
    exact laid
  · obtain ⟨-, slots, -⟩ := push?_eq_some added
    obtain ⟨constants, laid⟩ := laid
    refine ⟨constants ++ [c], ?_⟩
    rw [slots, laid, layOut, layOut, List.flatMap_append, List.flatMap_singleton]
    rfl

/-- A constant that refers to constants of the right kinds may be added. -/
theorem Sound.intern? (h : p.Sound) (ok : p.checkConstant c = .ok ())
    (added : p.intern? c = some (index, q)) : q.Sound where
  size_le := size_le_of_intern? h.size_le added
  laid := laid_of_intern? h.laid added
  check i d found := by
    refine (extends_of_intern? added).keeps.checkConstant ?_
    obtain old | ⟨rfl, -⟩ := get?_of_intern?_cases added found
    · exact h.check i d old
    · exact ok

/-- A constant in the place of another one that takes as many slots. -/
theorem exists_set_layOut {constants : List Constant} {k : Nat} (same : d.isWide = c.isWide)
    (here : (layOut constants)[k]? = some (some c)) :
    ∃ constants', (layOut constants).set k (some d) = layOut constants' := by
  induction constants generalizing k with
  | nil => cases here
  | cons e constants ih =>
    have tail {n : Nat} (here : (layOut constants)[n]? = some (some c)) (k : Nat)
        (eq : (slotsOf (some e) ++ layOut constants).set k (some d) =
          slotsOf (some e) ++ (layOut constants).set n (some d)) :
        ∃ constants', (layOut (e :: constants)).set k (some d) = layOut constants' := by
      obtain ⟨constants', set⟩ := ih here
      exact ⟨e :: constants', by rw [layOut_cons, eq, set, layOut_cons]⟩
    rw [layOut_cons] at here
    by_cases wide : e.isWide = true
    · rw [slotsOf, if_pos wide] at here
      rcases k with _ | _ | k
      · cases here
        refine ⟨d :: constants, ?_⟩
        rw [layOut_cons, layOut_cons, slotsOf, slotsOf, if_pos wide, if_pos (same.trans wide)]
        rfl
      · cases here
      · refine tail here _ ?_
        rw [slotsOf, if_pos wide]
        rfl
    · rw [slotsOf, if_neg wide] at here
      cases k with
      | zero =>
        cases here
        refine ⟨d :: constants, ?_⟩
        rw [layOut_cons, layOut_cons, slotsOf, slotsOf, if_neg wide, same, if_neg wide]
        rfl
      | succ k =>
        refine tail here _ ?_
        rw [slotsOf, if_neg wide]
        rfl

/-- A constant may give way to one of the same looks. -/
theorem Sound.replace (h : p.Sound) (here : p.get? index = some c) (same : d.blank = c.blank)
    (ok : p.checkConstant d = .ok ()) : (p.replace index d).Sound where
  size_le := by
    rw [size_replace]
    exact h.size_le
  laid := by
    obtain ⟨constants, laid⟩ := h.laid
    rw [get?_eq_some_iff, ← Array.getElem?_toList, laid] at here
    rw [Pool.replace, Array.toList_setIfInBounds, laid]
    rcases place : index.toNat with _ | k
    · rw [place] at here
      cases here
    · rw [place] at here
      have wide : d.isWide = c.isWide := by
        rw [← Constant.isWide_blank, same, Constant.isWide_blank]
      obtain ⟨constants', set⟩ := exists_set_layOut wide here
      exact ⟨constants', congrArg (none :: ·) set⟩
  check i e found := by
    refine (keeps_replace here same).checkConstant ?_
    by_cases at' : index = i
    · subst at'
      rw [get?_replace_self (lt_size_of_get? here)] at found
      cases found
      exact ok
    · rw [get?_replace_of_ne at'] at found
      exact h.check i e found

theorem Keeps.text? (h : p.Keeps Constant.blank q) {bytes : Bytes}
    (found : p.get? index = some (.utf8 bytes)) : q.text? index = p.text? index := by
  rw [Pool.text?, Pool.text?, rawText?, rawText?, found, h.utf8 found]

end Pool

/-! ## Members that stay sound -/

section Members

variable {p q : Pool} {m : Member}

theorem MemberAttribute.Sound.keeps {a : MemberAttribute} (h : a.Sound p)
    (keeps : p.Keeps Constant.blank q) : a.Sound q := by
  obtain ⟨bytes, found⟩ := h.name
  refine ⟨⟨bytes, keeps.utf8 found⟩, ?_, h.body⟩
  rw [keeps.text? found]
  exact h.isCode

theorem Member.Sound.keeps (h : m.Sound p) (keeps : p.Keeps Constant.blank q) : m.Sound q where
  name := h.name.imp fun _ => keeps.utf8
  descriptor := h.descriptor.imp fun _ => keeps.utf8
  count := h.count
  fits := h.fits
  attributes a mem := (h.attributes a mem).keeps keeps

theorem Member.Sound.withName (h : m.Sound p) {name : UInt16}
    (named : ∃ bytes, p.get? name = some (.utf8 bytes)) : Member.Sound p { m with name } :=
  { h with name := named }

/-- A member with another body in one of its places. -/
def Member.setBody (m : Member) (n : Nat) (name : UInt16) (body : Code) : Member :=
  { m with attributes := m.attributes.set n (.code name body) }

/-- A body is changed in the place where it stands. -/
theorem Member.mapBody_eq (m : Member) (change : Code → Code) :
    m.body? = none ∧ m.mapBody change = m ∨
      ∃ n name body, m.attributes[n]? = some (.code name body) ∧ m.body? = some body ∧
        m.mapBody change = m.setBody n name (change body) := by
  have row (attributes : List MemberAttribute) :
      attributes.findSome? MemberAttribute.body? = none ∧
          mapFirstBody change attributes = attributes ∨
        ∃ n name body, attributes[n]? = some (.code name body) ∧
          attributes.findSome? MemberAttribute.body? = some body ∧
          mapFirstBody change attributes = attributes.set n (.code name (change body)) := by
    induction attributes with
    | nil => exact .inl ⟨rfl, rfl⟩
    | cons a rest ih =>
      cases a with
      | code name body => exact .inr ⟨0, name, body, rfl, rfl, rfl⟩
      | other raw =>
        obtain ⟨none, same⟩ | ⟨n, name, body, own, first, changed⟩ := ih
        · exact .inl ⟨none, congrArg (List.cons (MemberAttribute.other raw)) same⟩
        · exact .inr ⟨n + 1, name, body, own, first,
            congrArg (List.cons (MemberAttribute.other raw)) changed⟩
  obtain ⟨none, same⟩ | ⟨n, name, body, own, first, changed⟩ := row m.attributes
  · exact .inl ⟨none, by rw [Member.mapBody, same]⟩
  · exact .inr ⟨n, name, body, own, first, by rw [Member.mapBody, changed, setBody]⟩

/-- A member with another body that takes as many bytes. -/
theorem Member.Sound.setBody (h : m.Sound p) {n : Nat} {name : UInt16} {body body' : Code}
    (own : m.attributes[n]? = some (.code name body)) (sound : body'.Sound)
    (length : body'.write.length = body.write.length) : (m.setBody n name body').Sound p := by
  have mem := List.mem_of_getElem? own
  refine ⟨h.name, h.descriptor, ?_, fun a ha => ?_, fun a ha => ?_⟩
  · rw [Member.setBody, List.length_set]
    exact h.count
  · obtain old | rfl := List.mem_or_eq_of_mem_set ha
    · exact h.fits a old
    · show body'.write.length < _
      rw [length]
      exact h.fits _ mem
  · obtain old | rfl := List.mem_or_eq_of_mem_set ha
    · exact h.attributes a old
    · obtain ⟨named, isCode, -⟩ := h.attributes _ mem
      refine ⟨named, isCode, ?_⟩
      rintro _ ⟨⟩
      exact sound

/-- Another body that fits in the place of the first one. -/
theorem Member.Sound.mapBody (h : m.Sound p) {change : Code → Code}
    (sound : ∀ body, m.body? = some body →
      (change body).Sound ∧ (change body).write.length = body.write.length) :
    (m.mapBody change).Sound p := by
  obtain ⟨-, same⟩ | ⟨n, name, body, own, isBody, changed⟩ := m.mapBody_eq change
  · rw [same]
    exact h
  · obtain ⟨sound, length⟩ := sound body isBody
    rw [changed]
    exact h.setBody own sound length

end Members

/-- A body with other machine code of the same size that can be decoded. -/
theorem Code.Sound.bytes {c : Code} (h : c.Sound) {bytes : Array UInt8}
    (size : bytes.size = c.bytes.size) (decodes : ∃ instructions, decode bytes = .ok instructions) :
    Code.Sound { c with bytes } ∧ ({ c with bytes } : Code).write.length = c.write.length := by
  refine ⟨⟨?_, ?_, h.handlers, h.attributes, decodes⟩, ?_⟩
  · rw [size]
    exact h.size_pos
  · rw [size]
    exact h.size_le
  · simp only [write, List.length_append, Array.length_toList, size, length_be32]

/-! ## Class files that stay sound -/

namespace ClassFile

variable {c d : ClassFile}

/-- A class is called the same where the names are kept. -/
theorem Sound.className_eq (sound : c.Sound) (keeps : c.pool.KeepsNames d.pool)
    (this : d.thisClass = c.thisClass) : d.className = c.className := by
  obtain ⟨index, here⟩ := sound.thisClass
  obtain ⟨bytes, text⟩ := Pool.expectText_eq_ok_iff.1 (sound.pool.check _ _ here)
  have found : c.pool.className? c.thisClass = some (ModifiedUtf8.decode bytes) := by
    rw [Pool.className?, here]
    dsimp only
    rw [Pool.text?, Pool.rawText?, text, Option.map_some]
  rw [className, className, this, keeps.className? found, found]

/-- A class with another pool that keeps its looks, and with other members and attributes that are
sound with it. -/
theorem Sound.change (h : c.Sound) {pool : Pool} {fields methods : Array Member}
    {attributes : List Attribute} (sound : pool.Sound) (keeps : c.pool.Keeps Constant.blank pool)
    (areFields : fields.size < 65536 ∧ ∀ m ∈ fields, m.Sound pool)
    (areMethods : methods.size < 65536 ∧ ∀ m ∈ methods, m.Sound pool)
    (fit : attributes.length < 65536 ∧ ∀ a ∈ attributes, a.Fits)
    (named : ∀ a ∈ attributes, ∃ bytes, pool.get? a.name = some (.utf8 bytes)) :
    Sound { c with pool, fields, methods, attributes } where
  version := h.version
  pool := sound
  thisClass := h.thisClass.imp fun _ => keeps.classRef
  superClass := h.superClass.imp id fun isClass => isClass.imp fun _ => keeps.classRef
  interfaces := ⟨h.interfaces.1, fun i mem =>
    (h.interfaces.2 i mem).imp fun _ => keeps.classRef⟩
  fields := areFields
  methods := areMethods
  attributes := fit
  attributeNames := named

end ClassFile

end Clarify
