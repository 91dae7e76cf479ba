import Clarify.Proofs.ClassFile.Soundness
import Clarify.Proofs.Naming.Renamed

namespace Clarify

namespace Rename

section Steps

variable {α β : Type} {p q r : Pool}

/-- The second pool has everything that the first one has, up to its looks, and is sound. -/
structure Evolved (p q : Pool) : Prop where
  sound : q.Sound
  keeps : p.Keeps Constant.blank q

theorem Evolved.refl (sound : p.Sound) : Evolved p p := ⟨sound, .refl _ p⟩

theorem Evolved.trans (h : Evolved p q) (h' : Evolved q r) : Evolved p r :=
  ⟨h'.sound, h.keeps.trans h'.keeps⟩

theorem evolved_constant {c : Constant} {index : UInt16} (sound : p.Sound)
    (ok : p.checkConstant c = .ok ()) (h : constant c p = .ok (index, q)) :
    q.get? index = some c ∧ Evolved p q := by
  rw [constant_eq_ok_iff] at h
  exact ⟨Pool.get?_of_intern? sound.size_le h, sound.intern? ok h,
    (Pool.extends_of_intern? h).keeps⟩

theorem evolved_text {value : String} {index : UInt16} (sound : p.Sound)
    (h : text value p = .ok (index, q)) :
    (∃ bytes, q.get? index = some (.utf8 bytes)) ∧ Evolved p q := by
  obtain ⟨found, evolved⟩ := evolved_constant sound rfl h
  exact ⟨⟨_, found⟩, evolved⟩

theorem evolved_namedLike {index pair : UInt16} {newName : String} (sound : p.Sound)
    (h : namedLike index newName p = .ok (pair, q)) :
    (∃ name descriptor, q.get? pair = some (.nameAndType name descriptor)) ∧ Evolved p q := by
  rw [namedLike, bind_eq_ok_iff] at h
  obtain ⟨p', p'', state, h⟩ := h
  cases state
  rcases here : p.get? index with _ | c
  · simp only [Pool.get, here] at h
    cases h
  simp only [Pool.get, here] at h
  cases c with
  | nameAndType n descriptor =>
    obtain ⟨i, q', interned, h⟩ := bind_eq_ok_iff.1 h
    obtain ⟨⟨bytes, named⟩, evolved⟩ := evolved_text sound interned
    -- The descriptor is the text that it was.
    obtain ⟨u, -, isText⟩ := Except.bind_eq_ok_iff.1
      (evolved.keeps.checkConstant (sound.check index _ here))
    have check : q'.checkConstant (.nameAndType i descriptor) = .ok () :=
      Except.bind_eq_ok_iff.2 ⟨(), Pool.expectText_eq_ok_iff.2 ⟨bytes, named⟩, isText⟩
    obtain ⟨found, evolved'⟩ := evolved_constant evolved.sound check h
    exact ⟨⟨_, _, found⟩, evolved.trans evolved'⟩
  | _ => cases h

/-- What a row of steps makes of the pool and of the items, if this lasts when the pool changes
further. -/
theorem evolved_mapM (holds : Pool → α → β → Prop) {f : α → PoolStep β} {xs : List α} {ys : List β}
    (lasts : ∀ {p q a b}, Evolved p q → holds p a b → holds q a b)
    (step : ∀ {p' q b}, ∀ a ∈ xs, Evolved p p' → f a p' = .ok (b, q) →
      Evolved p' q ∧ holds q a b)
    (sound : p.Sound) (h : xs.mapM f p = .ok (ys, q)) :
    Evolved p q ∧ ys.length = xs.length ∧ ∀ b ∈ ys, ∃ a ∈ xs, holds q a b := by
  induction xs generalizing ys p with
  | nil =>
    rw [List.mapM_nil] at h
    obtain ⟨rfl, rfl⟩ := pure_eq_ok_iff.1 h
    exact ⟨.refl sound, rfl, nofun⟩
  | cons x xs ih =>
    obtain ⟨y, p', ys, first, others, rfl⟩ := mapM_cons_eq_ok_iff.1 h
    obtain ⟨evolved, head⟩ := step x (by simp) (.refl sound) first
    obtain ⟨evolved', length, tail⟩ := ih
      (fun a mem later => step a (by simp [mem]) (evolved.trans later)) evolved.sound others
    refine ⟨evolved.trans evolved', congrArg (· + 1) length, fun b mem => ?_⟩
    obtain rfl | mem := List.mem_cons.1 mem
    · exact ⟨x, by simp, lasts evolved' head⟩
    · obtain ⟨a, there, holds⟩ := tail b mem
      exact ⟨a, by simp [there], holds⟩

end Steps

section Parts

variable {store : Mapping} {plan : Plan} {c : ClassFile} {p q : Pool}

/-- A renamed member is as sound as it was before. -/
theorem evolved_declaration {kind : SymbolKind} {m : Member} {row : Member × Option Renaming}
    (sound : p.Sound) (member : m.Sound p)
    (h : declaration store plan c kind m p = .ok (row, q)) : Evolved p q ∧ row.1.Sound q := by
  rcases moves : plan.target? store (c.symbolOf kind m) with _ | newName
  · simp only [declaration, moves] at h
    obtain ⟨rfl, rfl⟩ := pure_eq_ok_iff.1 h
    exact ⟨.refl sound, member⟩
  · simp only [declaration, moves] at h
    obtain ⟨index, q', interned, h⟩ := bind_eq_ok_iff.1 h
    obtain ⟨rfl, rfl⟩ := pure_eq_ok_iff.1 h
    obtain ⟨isText, evolved⟩ := evolved_text sound interned
    exact ⟨evolved, (member.keeps evolved.keeps).withName isText⟩

theorem evolved_mapM_declaration {kind : SymbolKind} {members : Array Member}
    {rows : List (Member × Option Renaming)} (sound : p.Sound)
    (all : members.size < 65536 ∧ ∀ m ∈ members, m.Sound p)
    (h : members.toList.mapM (declaration store plan c kind) p = .ok (rows, q)) :
    Evolved p q ∧ (rows.map Prod.fst).toArray.size < 65536 ∧
      ∀ m ∈ (rows.map Prod.fst).toArray, m.Sound q := by
  have step {p' q : Pool} {row : Member × Option Renaming} (m : Member) (mem : m ∈ members.toList)
      (evolved : Evolved p p') (h : declaration store plan c kind m p' = .ok (row, q)) :
      Evolved p' q ∧ row.1.Sound q :=
    evolved_declaration evolved.sound
      ((all.2 m (Array.mem_toList_iff.1 mem)).keeps evolved.keeps) h
  obtain ⟨evolved, length, each⟩ := evolved_mapM (fun q _ row => row.1.Sound q)
    (fun evolved member => member.keeps evolved.keeps) step sound h
  refine ⟨evolved, ?_, fun m mem => ?_⟩
  · rw [List.size_toArray, List.length_map, length, Array.length_toList]
    exact all.1
  · obtain ⟨row, there, rfl⟩ := List.mem_map.1 (List.mem_toArray.1 mem)
    obtain ⟨-, -, member⟩ := each row there
    exact member

theorem evolved_repoint {r : Reference} {u : Unit} (sound : p.Sound)
    (here : ∃ pair, p.get? r.index = some (.memberRef r.kind r.owner pair))
    (h : repoint r p = .ok (u, q)) : Evolved p q := by
  rw [repoint, bind_eq_ok_iff] at h
  obtain ⟨pair', p', named, h⟩ := h
  cases h
  obtain ⟨⟨name, descriptor, isPair⟩, evolved⟩ := evolved_namedLike sound named
  obtain ⟨pair, here⟩ := here
  obtain ⟨pair, here⟩ := evolved.keeps.memberRef here
  -- The owner is the class that it was.
  obtain ⟨u, isClass, -⟩ := Except.bind_eq_ok_iff.1 (evolved.sound.check _ _ here)
  have check : p'.checkConstant (.memberRef r.kind r.owner pair') = .ok () :=
    Except.bind_eq_ok_iff.2 ⟨u, isClass,
      Pool.expectNameAndType_eq_ok_iff.2 ⟨name, descriptor, isPair⟩⟩
  exact ⟨evolved.sound.replace here rfl check, evolved.keeps.trans (Pool.keeps_replace here rfl)⟩

theorem evolved_forM_repoint {found : List Reference} {u : Unit} (sound : p.Sound)
    (here : ∀ r ∈ found, ∃ pair, p.get? r.index = some (.memberRef r.kind r.owner pair))
    (h : found.forM repoint p = .ok (u, q)) : Evolved p q := by
  induction found generalizing p with
  | nil =>
    cases h
    exact .refl sound
  | cons r rest ih =>
    rw [List.forM_eq_forM, List.forM_cons, ← List.forM_eq_forM, bind_eq_ok_iff] at h
    obtain ⟨_, p', first, others⟩ := h
    have evolved := evolved_repoint sound (here r (by simp)) first
    refine evolved.trans (ih evolved.sound (fun r' mem => ?_) others)
    obtain ⟨pair, found⟩ := here r' (by simp [mem])
    exact evolved.keeps.memberRef found

/-- An attribute of the same name and length. -/
def Resembles (a b : Attribute) : Prop := b.name = a.name ∧ b.info.length = a.info.length

theorem evolved_enclosing {a : Attribute} {row : Attribute × Bool} (sound : p.Sound)
    (h : enclosing store plan c a p = .ok (row, q)) : Evolved p q ∧ Resembles a row.1 := by
  rw [Resembles]
  obtain ⟨rfl, rfl, -⟩ | ⟨-, _, _, _, _, _, _, info, -, interned, rfl⟩ := enclosing_cases h
  · exact ⟨.refl sound, rfl, rfl⟩
  · obtain ⟨-, evolved⟩ := evolved_namedLike sound interned
    rw [info]
    exact ⟨evolved, rfl, rfl⟩

end Parts

end Rename

namespace ClassFile

open Rename

variable {c : ClassFile} {store : Mapping} {plan : Plan} {renamed : Renamed}

/-- Renaming changes the pool, the members and the attributes of a class only. -/
theorem file_rename (h : c.rename store plan = .ok renamed) :
    renamed.file = { c with
      pool := renamed.file.pool
      fields := renamed.file.fields
      methods := renamed.file.methods
      attributes := renamed.file.attributes } := by
  rw [rename, Except.bind_eq_ok_iff] at h
  obtain ⟨_, -, h⟩ := h
  cases h
  rfl

/-- The members with their final names are sound once the references have theirs. -/
theorem Sound.evolved_members (sound : c.Sound) {fields methods : List (Member × Option Renaming)}
    {p₁ p₂ p₃ : Pool} {u : Unit}
    (first : c.fields.toList.mapM (declaration store plan c .field) c.pool = .ok (fields, p₁))
    (second : c.methods.toList.mapM (declaration store plan c .method) p₁ = .ok (methods, p₂))
    (third : (references store plan c).forM repoint p₂ = .ok (u, p₃)) :
    Evolved c.pool p₃ ∧
      ((fields.map Prod.fst).toArray.size < 65536 ∧
        ∀ m ∈ (fields.map Prod.fst).toArray, m.Sound p₃) ∧
      (methods.map Prod.fst).toArray.size < 65536 ∧
        ∀ m ∈ (methods.map Prod.fst).toArray, m.Sound p₃ := by
  obtain ⟨evolved₁, areFields⟩ := evolved_mapM_declaration sound.pool sound.fields first
  obtain ⟨evolved₂, areMethods⟩ := evolved_mapM_declaration evolved₁.sound
    ⟨sound.methods.1, fun m mem => (sound.methods.2 m mem).keeps evolved₁.keeps⟩ second
  have evolved := evolved₁.trans evolved₂
  have evolved₃ := evolved_forM_repoint evolved₂.sound (fun r mem => evolved.keeps.memberRef
    ((mem_references_iff sound.pool.size_le).1 mem).1) third
  exact ⟨evolved.trans evolved₃,
    ⟨areFields.1, fun m mem => (areFields.2 m mem).keeps (evolved₂.trans evolved₃).keeps⟩,
    areMethods.1, fun m mem => (areMethods.2 m mem).keeps evolved₃.keeps⟩

/-- A renamed class can be written. -/
theorem Sound.rename (sound : c.Sound) (h : c.rename store plan = .ok renamed) :
    renamed.file.Sound := by
  obtain ⟨fields, methods, attributes, p₁, p₂, p₃, u, first, second, third, last, isFields,
    isMethods, isAttributes, -⟩ := rename_eq_ok h
  obtain ⟨evolved, areFields, areMethods⟩ := sound.evolved_members first second third
  obtain ⟨later, length, each⟩ := evolved_mapM
    (fun _ a (row : Attribute × Bool) => Resembles a row.1) (fun _ same => same)
    (fun a _ evolved => evolved_enclosing evolved.sound) evolved.sound last
  have all := evolved.trans later
  rw [file_rename h, isFields, isMethods, isAttributes]
  refine sound.change later.sound all.keeps
    ⟨areFields.1, fun m mem => (areFields.2 m mem).keeps later.keeps⟩
    ⟨areMethods.1, fun m mem => (areMethods.2 m mem).keeps later.keeps⟩ ⟨?_, ?_⟩ ?_
  · rw [List.length_map, length]
    exact sound.attributes.1
  · refine List.forall_mem_map.2 fun row mem => ?_
    obtain ⟨a, there, -, size⟩ := each row mem
    rw [Attribute.Fits, size]
    exact sound.attributes.2 a there
  · refine List.forall_mem_map.2 fun row mem => ?_
    obtain ⟨a, there, name, -⟩ := each row mem
    rw [name]
    exact (sound.attributeNames a there).imp fun _ => all.keeps.utf8

end ClassFile

end Clarify
