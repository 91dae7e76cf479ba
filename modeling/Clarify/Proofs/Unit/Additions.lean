import Clarify.Proofs.Naming.Again
import Clarify.Proofs.Unit.Callers
import Clarify.Proofs.Unit.Lengths
import Clarify.Proofs.Unit.Links
import Clarify.Proofs.Unit.Suspects

/-!
# What clarifying adds to a pool

Clarifying a class adds texts and strings to its pool, and pairs of a new name and a descriptor. It
adds no class and no member reference. So what the clarified class refers to, the class referred to
before, or the clarified class refers to it by a new name.

Results:
* `enlarged_ofClass`: what the pool of a clarified class has more.
* `became_ofClass`: what becomes of the members and references of a class.
-/

namespace Clarify

namespace Pool

/-! ## Larger pools -/

/-- A text, a string, or a pair with a name of the given kind. -/
def IsAddition (fits : String → Prop) (p : Pool) : Constant → Prop
  | .utf8 _ | .string _ => True
  | .nameAndType name _ => ∃ text, p.text? name = some text ∧ fits text
  | _ => False

/-- The second pool has the constants of the first one up to their looks, and behind them such
additions only. -/
structure Enlarged (fits : String → Prop) (b p : Pool) : Prop where
  keeps : b.Keeps Constant.blank p
  larger : b.size ≤ p.size
  room : p.size ≤ capacity
  added : ∀ i c, b.get? i = none → p.get? i = some c → b.size ≤ i.toNat ∧ p.IsAddition fits c

variable {fits : String → Prop} {b p q : Pool} {i j : UInt16} {c d : Constant}

theorem IsAddition.keeps (h : p.IsAddition fits c) (keeps : p.KeepsNames q) :
    q.IsAddition fits c := by
  cases c with
  | nameAndType name descriptor =>
    obtain ⟨text, found, good⟩ := h
    exact ⟨text, keeps.text? found, good⟩
  | _ => exact h

theorem Enlarged.refl (size : p.size ≤ capacity) : Enlarged fits p p where
  keeps := .refl _ p
  larger := Nat.le_refl _
  room := size
  added i c none here := by
    rw [none] at here
    cases here

theorem le_size_of_intern? (h : p.intern? c = some (i, q)) : p.size ≤ q.size := by
  unfold Pool.intern? at h
  split at h
  · cases h
    exact Nat.le_refl _
  · obtain ⟨-, slots, -⟩ := push?_eq_some h
    rw [size, size, ← Array.length_toList, ← Array.length_toList, slots, List.length_append]
    exact Nat.le_add_right ..

theorem Enlarged.intern? (h : Enlarged fits b p) (new : p.IsAddition fits c)
    (interned : p.intern? c = some (i, q)) : Enlarged fits b q := by
  have grown := extends_of_intern? interned
  refine ⟨h.keeps.trans grown.keeps, h.larger.trans (le_size_of_intern? interned),
    size_le_of_intern? h.room interned, fun j d none here => ?_⟩
  obtain old | ⟨rfl, behind⟩ := get?_of_intern?_cases interned here
  · obtain ⟨behind, addition⟩ := h.added j d none old
    exact ⟨behind, addition.keeps grown.keepsNames⟩
  · exact ⟨h.larger.trans behind, new.keeps grown.keepsNames⟩

/-- A constant that names nothing may get another form. -/
theorem Enlarged.replace (h : Enlarged fits b p) (here : p.get? i = some c)
    (other : c.isNaming = false) (same : d.blank = c.blank)
    (old : b.get? i = none → ∃ value, d = .string value) : Enlarged fits b (p.replace i d) := by
  have keeps := keepsNames_replace here other d
  refine ⟨h.keeps.trans (keeps_replace here same), ?_, ?_, fun j x none found => ?_⟩
  · rw [size_replace]
    exact h.larger
  · rw [size_replace]
    exact h.room
  · by_cases at' : i = j
    · subst at'
      obtain ⟨value, rfl⟩ := old none
      obtain ⟨behind, -⟩ := h.added i c none here
      rw [get?_replace_self (lt_size_of_get? here)] at found
      cases found
      exact ⟨behind, trivial⟩
    · rw [get?_replace_of_ne at'] at found
      obtain ⟨behind, addition⟩ := h.added j x none found
      exact ⟨behind, addition.keeps keeps⟩

/-! ## Where a constant comes from -/

section Origin

variable (h : Enlarged fits b p)

include h

theorem Enlarged.blank (here : p.get? i = some c) :
    (∃ d, b.get? i = some d ∧ c.blank = d.blank) ∨ b.size ≤ i.toNat ∧ p.IsAddition fits c := by
  rcases old : b.get? i with _ | d
  · exact .inr (h.added i c old here)
  · obtain ⟨c', here', same⟩ := h.keeps.get? old
    rw [here] at here'
    cases here'
    exact .inl ⟨d, rfl, same⟩

theorem Enlarged.utf8 {bytes : Bytes} (here : p.get? i = some (.utf8 bytes)) :
    b.get? i = some (.utf8 bytes) ∨ b.size ≤ i.toNat := by
  obtain ⟨d, old, same⟩ | ⟨behind, -⟩ := h.blank here
  · cases d <;> cases same
    exact .inl old
  · exact .inr behind

theorem Enlarged.classRef {name : UInt16} (here : p.get? i = some (.classRef name)) :
    b.get? i = some (.classRef name) := by
  obtain ⟨d, old, same⟩ | ⟨-, addition⟩ := h.blank here
  · cases d <;> cases same
    exact old
  · cases addition

theorem Enlarged.nameAndType {name descriptor : UInt16}
    (here : p.get? i = some (.nameAndType name descriptor)) :
    b.get? i = some (.nameAndType name descriptor) ∨
      b.size ≤ i.toNat ∧ ∃ text, p.text? name = some text ∧ fits text := by
  obtain ⟨d, old, same⟩ | added := h.blank here
  · cases d <;> cases same
    exact .inl old
  · exact .inr added

theorem Enlarged.memberRef {kind : RefKind} {owner pair : UInt16}
    (here : p.get? i = some (.memberRef kind owner pair)) :
    ∃ pair', b.get? i = some (.memberRef kind owner pair') := by
  obtain ⟨d, old, same⟩ | ⟨-, addition⟩ := h.blank here
  · cases d <;> cases same
    exact ⟨_, old⟩
  · cases addition

/-- A pool that has got no larger has no new texts. -/
theorem Enlarged.short (same : p.size = b.size) (short : b.Short) : p.Short := by
  intro i bytes here
  obtain old | behind := h.utf8 here
  · exact short i bytes old
  · have inside := lt_size_of_get? here
    omega

end Origin

/-! ### Names -/

theorem Sound.get?_zero (sound : p.Sound) : p.get? 0 = none := by
  obtain ⟨constants, laid⟩ := sound.laid
  have first : p.slots[0]? = some none := by
    rw [← Array.getElem?_toList, laid]
    rfl
  rw [get?, show (0 : UInt16).toNat = 0 from rfl, first]
  rfl

theorem exists_text?_of_expectText {u : Unit} (h : p.expectText i = .ok u) :
    ∃ bytes, p.get? i = some (.utf8 bytes) ∧ p.text? i = some (ModifiedUtf8.decode bytes) := by
  obtain ⟨bytes, here⟩ := expectText_eq_ok_iff.1 h
  exact ⟨bytes, here, by rw [text?, rawText?, here, Option.map_some]⟩

theorem Sound.exists_className? (sound : p.Sound) {index : UInt16}
    (here : p.get? i = some (.classRef index)) : ∃ name, p.className? i = some name := by
  obtain ⟨_, -, text⟩ := exists_text?_of_expectText (sound.check i _ here)
  exact ⟨_, className?_eq_some_iff.2 ⟨index, here, text⟩⟩

theorem Sound.exists_nameAndType? (sound : p.Sound) {n d : UInt16}
    (here : p.get? i = some (.nameAndType n d)) : ∃ pair, p.nameAndType? i = some pair := by
  obtain ⟨u, name, descriptor⟩ := Except.bind_eq_ok_iff.1 (sound.check i _ here)
  obtain ⟨_, -, name⟩ := exists_text?_of_expectText name
  obtain ⟨_, -, descriptor⟩ := exists_text?_of_expectText descriptor
  exact ⟨(_, _), nameAndType?_eq_some_iff.2 ⟨n, d, here, name, descriptor⟩⟩

/-- A member reference of a pool that was read has its names. -/
theorem Sound.exists_memberRef? (sound : p.Sound) {kind : RefKind} {owner pair : UInt16}
    (here : p.get? i = some (.memberRef kind owner pair)) :
    ∃ ownerName name descriptor, p.className? owner = some ownerName ∧
      p.nameAndType? pair = some (name, descriptor) := by
  obtain ⟨u, isClass, isPair⟩ := Except.bind_eq_ok_iff.1 (sound.check i _ here)
  obtain ⟨index, isClass⟩ := expectClass_eq_ok_iff.1 isClass
  obtain ⟨n, d, isPair⟩ := expectNameAndType_eq_ok_iff.1 isPair
  obtain ⟨ownerName, named⟩ := sound.exists_className? isClass
  obtain ⟨⟨name, descriptor⟩, named'⟩ := sound.exists_nameAndType? isPair
  exact ⟨ownerName, name, descriptor, named, named'⟩

section Names

variable (h : Enlarged fits b p) (sound : b.Sound)

include h sound

theorem Enlarged.className? {name : String} (found : p.className? i = some name) :
    b.className? i = some name := by
  obtain ⟨index, here, -⟩ := className?_eq_some_iff.1 found
  obtain ⟨name', found'⟩ := sound.exists_className? (h.classRef here)
  rw [h.keeps.keepsNames.className? found'] at found
  cases found
  exact found'

/-- A name that goes with a descriptor is an old one, or one of the kind that is added, behind the
old ones. -/
theorem Enlarged.nameAndType? {name descriptor : String}
    (found : p.nameAndType? i = some (name, descriptor)) :
    b.nameAndType? i = some (name, descriptor) ∨ b.size ≤ i.toNat ∧ fits name := by
  obtain ⟨n, d, here, text, -⟩ := nameAndType?_eq_some_iff.1 found
  obtain old | ⟨behind, text', found', good⟩ := h.nameAndType here
  · obtain ⟨pair, found'⟩ := sound.exists_nameAndType? old
    rw [h.keeps.keepsNames.nameAndType? found'] at found
    cases found
    exact .inl found'
  · rw [text] at found'
    cases found'
    exact .inr ⟨behind, good⟩

/-- Every member reference was one before. -/
theorem Enlarged.memberRef? {r : MemberRef} (found : p.memberRef? i = some r) :
    ∃ x, b.memberRef? i = some x := by
  obtain ⟨owner, pair, here, -, -⟩ := memberRef?_eq_some_iff.1 found
  obtain ⟨pair', old⟩ := h.memberRef here
  obtain ⟨ownerName, name, descriptor, named, named'⟩ := sound.exists_memberRef? old
  exact ⟨⟨r.kind, ownerName, name, descriptor⟩,
    memberRef?_eq_some_iff.2 ⟨owner, pair', old, named, named'⟩⟩

theorem Enlarged.enclosing? {a : Attribute} (named : ∃ bytes, b.get? a.name = some (.utf8 bytes))
    {r : MemberRef} (found : p.enclosing? a = some r) : b.enclosing? a = some r ∨ fits r.name := by
  obtain ⟨name, c1, c2, m1, m2, info, owner, pair, kind⟩ := Rename.enclosing?_eq_some_iff.1 found
  obtain ⟨bytes, here⟩ := named
  rw [h.keeps.text? here] at name
  refine (h.nameAndType? sound pair).imp (fun pair => ?_) And.right
  exact Rename.enclosing?_eq_some_iff.2
    ⟨name, c1, c2, m1, m2, info, h.className? sound owner, pair, kind⟩

end Names

end Pool

/-! ## Renaming -/

namespace Rename

variable {store : Mapping} {plan : Plan} {c : ClassFile} {b p q : Pool} {newName : String}

/-- A name that some old name maps to. -/
def IsNew (store : Mapping) (name : String) : Prop := ∃ old, store.resolve? old = some name

theorem preserves_enlarged_text (newName : String) :
    Preserves (Pool.Enlarged (IsNew store) b) (text newName) := by
  intro p i q h enlarged
  exact enlarged.intern? (c := .utf8 (ModifiedUtf8.encode newName)) trivial
    (constant_eq_ok_iff.1 h)

theorem preserves_enlarged_namedLike (new : IsNew store newName) (index : UInt16) :
    Preserves (Pool.Enlarged (IsNew store) b) (namedLike index newName) := by
  intro p pair q h enlarged
  rw [namedLike, bind_eq_ok_iff] at h
  obtain ⟨p', p'', state, h⟩ := h
  cases state
  rcases found : p.get index with e | constant
  · rw [found] at h
    cases h
  rw [found] at h
  cases constant with
  | nameAndType n descriptor =>
    obtain ⟨i, p', first, h⟩ := bind_eq_ok_iff.1 h
    have enlarged' : Pool.Enlarged (IsNew store) b p' :=
      preserves_enlarged_text newName _ _ _ first enlarged
    obtain ⟨named, -⟩ := grown_of_text enlarged.room first
    exact enlarged'.intern? (c := .nameAndType i descriptor) ⟨newName, named, new⟩
      (constant_eq_ok_iff.1 h)
  | _ => cases h

theorem stable_enlarged (size : c.pool.size ≤ Pool.capacity) :
    Stable (Pool.Enlarged (IsNew store) c.pool) store plan c where
  text s newName moves := preserves_enlarged_text newName
  namedLike s newName moves := preserves_enlarged_namedLike ⟨s.name, Plan.resolve?_of_target? moves⟩
  repoint r mem := by
    obtain ⟨s, moves⟩ := exists_target?_of_mem_references mem
    have there := ((mem_references_iff size).1 mem).1
    intro p u q h enlarged
    rw [repoint, bind_eq_ok_iff] at h
    obtain ⟨pair, p', named, h⟩ := h
    cases h
    have enlarged := preserves_enlarged_namedLike ⟨s.name, Plan.resolve?_of_target? moves⟩ _ _ _ _
      named enlarged
    obtain ⟨pair', here⟩ := enlarged.keeps.memberRef there
    refine enlarged.replace here rfl rfl fun none => ?_
    rw [there] at none
    cases none

theorem resolve?_of_linkTarget? {r : MemberRef} (h : linkTarget? store plan c r = some newName) :
    store.resolve? r.name = some newName := by
  rw [linkTarget?] at h
  split at h
  · exact Plan.resolve?_of_target? h
  · cases h

/-- What becomes of an attribute: it stays, and the method that it names keeps its name, or it gets
a new name. -/
def EndsAs (store : Mapping) (plan : Plan) (c : ClassFile) (q : Pool) (a x : Attribute) : Prop :=
  (x = a ∧ ∀ r, c.pool.enclosing? a = some r → linkTarget? store plan c r = none) ∨
    ∀ q' r, q.KeepsNames q' → q'.enclosing? x = some r → IsNew store r.name

theorem EndsAs.keeps {a x : Attribute} (h : EndsAs store plan c p a x) (keeps : p.KeepsNames q) :
    EndsAs store plan c q a x :=
  h.imp_right fun new q' r keeps' found => new q' r (keeps.trans keeps') found

/-- A pair gets a new name. -/
theorem nameAndType?_of_namedLike {index pair : UInt16} (size : p.size ≤ Pool.capacity)
    {name descriptor : String} (old : p.nameAndType? index = some (name, descriptor))
    (h : namedLike index newName p = .ok (pair, q)) {a : Attribute} {c1 c2 : UInt8} {q' : Pool}
    {r : MemberRef} (keeps : q.KeepsNames q')
    (found : q'.enclosing? { a with info := [c1, c2] ++ be16 pair } = some r) :
    r.name = newName := by
  obtain ⟨here, -⟩ := grown_of_namedLike size old h
  obtain ⟨-, x1, x2, y1, y2, info, -, found, -⟩ := enclosing?_eq_some_iff.1 found
  cases info
  rw [word16_be16, keeps.nameAndType? here] at found
  cases found
  rfl

theorem endsAs_of_enclosing {a : Attribute} {row : Attribute × Bool} (zero : c.pool.get? 0 = none)
    (keeps : c.pool.KeepsNames p) (size : p.size ≤ Pool.capacity)
    (h : enclosing store plan c a p = .ok (row, q)) : EndsAs store plan c q a row.1 := by
  obtain ⟨rfl, -, none⟩ | ⟨-, c1, c2, m1, m2, newName, pair, -, target, interned, rfl⟩ :=
    enclosing_cases h
  · refine .inl ⟨rfl, fun r found => ?_⟩
    obtain ⟨named, c1, c2, m1, m2, info, owner, pair, kind⟩ := enclosing?_eq_some_iff.1 found
    obtain unnamed | none := none c1 c2 m1 m2 named info
    · rw [unnamed, Pool.nameAndType?, zero] at pair
      cases pair
    · rw [← none, ← referenceTarget?_eq store plan owner pair, kind]
      rfl
  · obtain ⟨-, name, descriptor, -, old, moves⟩ := exists_names_of_referenceTarget? target
    refine .inr fun q' r keeps' found => ⟨name, ?_⟩
    rw [nameAndType?_of_namedLike size (keeps.nameAndType? old) interned keeps' found]
    exact Plan.resolve?_of_target? moves

/-- The attributes of a renamed class, with the pool as it was when they were looked at. -/
theorem exists_endsAs {renamed : Renamed} (sound : c.Sound)
    (h : c.rename store plan = .ok renamed) :
    ∃ p, c.pool.KeepsNames p ∧ ∀ x ∈ renamed.file.attributes, ∃ a ∈ c.attributes,
      EndsAs store plan { c with pool := p } renamed.file.pool a x := by
  obtain ⟨fields, methods, rows, p₁, p₂, p₃, u, first, second, third, last, -, -, attributes, -⟩ :=
    ClassFile.rename_eq_ok h
  obtain ⟨evolved, -, -⟩ := sound.evolved_members first second third
  have step {p' q : Pool} {row : Attribute × Bool} (a : Attribute) (_ : a ∈ c.attributes)
      (later : Evolved p₃ p') (h : enclosing store plan { c with pool := p₃ } a p' = .ok (row, q)) :
      Evolved p' q ∧ EndsAs store plan { c with pool := p₃ } q a row.1 :=
    ⟨(evolved_enclosing later.sound h).1, endsAs_of_enclosing (c := { c with pool := p₃ })
      evolved.sound.get?_zero later.keeps.keepsNames later.sound.size_le h⟩
  obtain ⟨-, -, each⟩ := evolved_mapM
    (fun q a (row : Attribute × Bool) => EndsAs store plan { c with pool := p₃ } q a row.1)
    (fun evolved ends => ends.keeps evolved.keeps.keepsNames) step evolved.sound last
  refine ⟨p₃, evolved.keeps.keepsNames, fun x mem => ?_⟩
  rw [attributes] at mem
  obtain ⟨row, there, rfl⟩ := List.mem_map.1 mem
  exact each row there

end Rename

/-! ## Recovering literals -/

namespace Literal

variable {c : ClassFile} {p : Plain} {E : Std.TreeSet UInt16} {s t : Progress} {worked : Bool}
  {fits : String → Prop} {b : Pool}

theorem Settling.enlarged (h : Settling E s p t worked) (site : IsSite c p)
    (keeps : c.pool.Keeps Constant.blankString s.file.pool)
    (enlarged : Pool.Enlarged fits b s.file.pool) : Pool.Enlarged fits b t.file.pool := by
  have text {pool : Pool} {i : UInt16}
      (interned : s.file.pool.internText? p.text = some (i, pool)) : Pool.Enlarged fits b pool :=
    enlarged.intern? (c := .utf8 (ModifiedUtf8.encode p.text)) trivial interned
  cases h with
  | done | noText => exact enlarged
  | @repointed changed own first index pool interned =>
    obtain ⟨_, here⟩ := site.exists_string (keeps.trans (Pool.extends_of_intern? interned).keeps)
    exact (text interned).replace here rfl rfl fun _ => ⟨index, rfl⟩
  | noString changed shared interned => exact text interned
  | @noOperand changed shared index x pool pool' interned interned'
  | @reloaded changed shared index x pool pool' interned interned' =>
    exact (text interned).intern? (c := .string index) trivial interned'

theorem enlarged_recoverLiterals (enlarged : Pool.Enlarged fits b c.pool) :
    Pool.Enlarged fits b c.recoverLiterals.1.pool := by
  rw [(recoverLiterals_eq c).1]
  refine (List.foldlRecOn (motive := fun o : Outcome =>
    Pool.Enlarged fits b o.progress.file.pool ∧
      c.pool.Keeps Constant.blankString o.progress.file.pool) (found c) _
    ⟨enlarged, .refl _ _⟩ fun o before p mem => ?_).1
  obtain ⟨enlarged, keeps⟩ := before
  have site := isSite_of_mem_found mem
  have settling := settling_settle (edited c) o.progress p
  have enlarged' := settling.enlarged site keeps enlarged
  have keeps' := keeps.trans (settling.grows site enlarged.room keeps).2
  obtain ⟨-, -, progress⟩ | ⟨-, -, progress⟩ := progress_recoverCall (edited c) o p
  · rw [progress]
    exact ⟨enlarged', keeps'⟩
  · rw [progress]
    exact ⟨enlarged', keeps'⟩

end Literal

/-! ## All passes -/

namespace Clarified

variable {ctx : PassContext} {c : ClassFile} {r : Clarified} {bytes : Bytes}

/-- What the pool of a clarified class has more. -/
theorem enlarged_ofClass (sound : c.Sound) (h : ofClass ctx c = .ok r) :
    Pool.Enlarged (Rename.IsNew ctx.store) c.pool r.file.pool := by
  obtain ⟨renamed, rename, -, pool⟩ := pool_ofClass h
  rw [pool]
  exact Literal.enlarged_recoverLiterals
    ((Rename.stable_enlarged sound.pool.size_le).rename (.refl sound.pool.size_le) rename)

theorem className_ofClass (parsed : ClassFile.parse bytes = .ok c) (h : ofClass ctx c = .ok r) :
    r.file.className = c.className := by
  obtain ⟨renamed, simple, counts, rename, simplified, -, removed⟩ := ofClass_eq_ok h
  rw [show r.file = _ from congrArg Prod.fst removed]
  exact (names_of_simplified parsed rename simplified).1

/-- A member of a clarified class has the final name of the member that it was before. -/
theorem exists_member_of_mem (parsed : ClassFile.parse bytes = .ok c) (h : ofClass ctx c = .ok r)
    {kind : SymbolKind} {m : Member} (mem : m ∈ r.file.membersOf kind) :
    ∃ m' ∈ c.membersOf kind, r.file.symbolOf kind m =
      ctx.plan.finalSymbol ctx.store (c.symbolOf kind m') ∧ m.access = m'.access := by
  obtain ⟨renamed, simple, counts, rename, simplified, -, removed⟩ := ofClass_eq_ok h
  obtain ⟨-, members⟩ := names_of_simplified parsed rename simplified
  obtain ⟨symbols, access⟩ := members kind
  have file : r.file = _ := congrArg Prod.fst removed
  have mem : m ∈ simple.membersOf kind := by
    rw [file] at mem
    cases kind with
    | «class» => exact mem
    | field => exact mem
    | method =>
      obtain ⟨j, here, -⟩ := Junk.mem_methods_removeJunk mem
      exact Array.mem_of_getElem? here
  obtain ⟨k, here⟩ := Array.mem_iff_getElem?.1 mem
  have symbols := congrArg (·[k]?) symbols
  have access := congrArg (·[k]?) access
  simp only [ClassFile.symbolsOf, List.getElem?_map, Array.getElem?_toList, here,
    Option.map_some] at symbols access
  obtain ⟨m', there, flags⟩ := Option.map_eq_some_iff.1 access.symm
  rw [there, Option.map_some, Option.map_some, Option.some.injEq] at symbols
  refine ⟨m', Array.mem_of_getElem? there, ?_, flags.symm⟩
  rw [file]
  exact symbols

/-- A reference of a clarified class has a new name, or none was found for it. -/
theorem link_ofClass (parsed : ClassFile.parse bytes = .ok c) (h : ofClass ctx c = .ok r)
    {l : Link} {x : MemberRef} (found : r.file.linked? l = some x) :
    Rename.IsNew ctx.store x.name ∨ Rename.linkTarget? ctx.store ctx.plan c x = none := by
  have sound := (ClassFile.parse_eq_ok_iff.1 parsed).1.1
  have enlarged := enlarged_ofClass sound h
  cases l with
  | entry index =>
    obtain ⟨y, old⟩ := enlarged.memberRef? sound.pool found
    have now := linked?_ofClass parsed h (l := .entry index) old
    rw [found, Option.some.injEq] at now
    rcases moves : Rename.linkTarget? ctx.store ctx.plan c y with _ | newName
    · rw [Rename.linkName, moves, Option.getD_none] at now
      exact .inr (now ▸ moves)
    · rw [now, Rename.linkName, moves, Option.getD_some]
      exact .inl ⟨y.name, Rename.resolve?_of_linkTarget? moves⟩
  | enclosing position =>
    obtain ⟨a, here, found⟩ := Option.bind_eq_some_iff.1 found
    obtain ⟨renamed, rename, keeps, attributes⟩ := exists_rename_of_ofClass sound h
    obtain ⟨p, grown, ends⟩ := Rename.exists_endsAs sound rename
    rw [attributes] at here
    obtain ⟨b, mem, ⟨rfl, none⟩ | new⟩ := ends a (List.mem_of_getElem? here)
    · refine (enlarged.enclosing? sound.pool (sound.attributeNames a mem) found).symm.imp_right
        fun old => ?_
      have same : ClassFile.className { c with pool := p } = c.className :=
        sound.className_eq grown rfl
      have none := none x (Rename.enclosing?_mono grown old)
      rwa [Rename.linkTarget?, Rename.isRenamedOwner, same] at none
    · exact .inl (new r.file.pool x keeps.blank.keepsNames found)

/-- What becomes of the members and references of a class. -/
theorem became_ofClass (parsed : ClassFile.parse bytes = .ok c) (h : ofClass ctx c = .ok r) :
    Became ctx.store ctx.plan c r.file where
  className := className_ofClass parsed h
  members _ _ mem := exists_member_of_mem parsed h mem
  links _ _ found := link_ofClass parsed h found

end Clarified

end Clarify
