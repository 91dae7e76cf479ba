import Clarify.ClassFile
import Clarify.Proofs.ClassFile.Layout
import Clarify.Proofs.ClassFile.Pool

/-!
# What reading a class file ensures

Reading checks the indices that the structure of a class holds and decodes the bodies, so the names
and descriptors of members are texts of a pool that is not too large.

Results:
* `wellFormed_of_parse`: a class file that was read is well-formed.
-/

namespace Clarify

/-! ## Readers -/

namespace Reader

variable {α β : Type} {s t : Cursor}

theorem bind_eq_ok_iff {x : Reader α} {f : α → Reader β} {b : β} :
    (x >>= f) s = .ok b t ↔ ∃ a u, x s = .ok a u ∧ f a u = .ok b t := by
  show EStateM.bind x f s = _ ↔ _
  unfold EStateM.bind
  rcases x s with ⟨a, u⟩ | ⟨e, u⟩
  · exact ⟨fun h => ⟨a, u, rfl, h⟩, fun ⟨_, _, same, h⟩ => by cases same; exact h⟩
  · exact ⟨nofun, fun ⟨_, _, same, _⟩ => by cases same⟩

theorem pure_eq_ok_iff {a b : α} : (pure a : Reader α) s = .ok b t ↔ a = b ∧ s = t := by
  show EStateM.pure a s = _ ↔ _
  simp [EStateM.pure]

theorem throw_eq_ok_iff {e : FormatError} {b : α} : (throw e : Reader α) s = .ok b t ↔ False :=
  iff_false_intro nofun

/-- A check that refuses is one that is passed. -/
theorem guard_eq_ok_iff {p : Prop} [Decidable p] {e : FormatError} {f : PUnit → Reader α}
    {x : Reader α} {b : α} :
    (if p then throw e >>= f else x) s = .ok b t ↔ ¬p ∧ x s = .ok b t := by
  split
  · next holds =>
    simp only [bind_eq_ok_iff, throw_eq_ok_iff, false_and, exists_false, holds, not_true]
  · next fails => simp only [fails, not_false_eq_true, true_and]

/-- Each result of a repeated read comes from one of the reads. -/
theorem exists_read_of_mem_timesOnto {item : Reader α} {n : Nat} {acc row : List α}
    (h : timesOnto item n acc s = .ok row t) {a : α} (ha : a ∈ row) :
    a ∈ acc ∨ ∃ u v, item u = .ok a v := by
  induction n generalizing acc s with
  | zero =>
    obtain ⟨rfl, -⟩ := pure_eq_ok_iff.1 h
    exact .inl (List.mem_reverse.1 ha)
  | succ n ih =>
    rw [timesOnto, bind_eq_ok_iff] at h
    obtain ⟨b, u, read, rest⟩ := h
    obtain mem | found := ih rest
    · obtain rfl | mem := List.mem_cons.1 mem
      · exact .inr ⟨_, _, read⟩
      · exact .inl mem
    · exact .inr found

theorem exists_read_of_mem_times {item : Reader α} {n : Nat} {row : List α}
    (h : times n item s = .ok row t) {a : α} (ha : a ∈ row) : ∃ u v, item u = .ok a v :=
  (exists_read_of_mem_timesOnto h ha).resolve_left List.not_mem_nil

end Reader

namespace Pool

open Reader

variable {s t : Cursor}

/-- The slots that are read go behind those that were there, as many as there is room for. -/
theorem readSlots_eq_ok {count : Nat} {slots row : Array (Option Constant)}
    (h : readSlots count slots s = .ok row t) (room : slots.size ≤ count) :
    row.size ≤ count ∧ ∀ k < slots.size, row[k]? = slots[k]? := by
  induction slots using readSlots.induct count generalizing s with
  | case1 slots short ih1 ih2 =>
    rw [readSlots, dif_pos short, bind_eq_ok_iff] at h
    obtain ⟨c, u, -, h⟩ := h
    simp only [Array.size_push] at ih1 ih2
    split at h
    · next wide =>
      split at h
      · next twice =>
        obtain ⟨size, same⟩ := ih1 c twice h (by omega)
        refine ⟨size, fun k hk => ?_⟩
        rw [same k (by omega), Array.getElem?_push, Array.getElem?_push, Array.size_push,
          if_neg (by omega), if_neg (by omega)]
      · exact (throw_eq_ok_iff.1 h).elim
    · obtain ⟨size, same⟩ := ih2 c h (by omega)
      refine ⟨size, fun k hk => ?_⟩
      rw [same k (by omega), Array.getElem?_push, if_neg (by omega)]
  | case2 slots full =>
    rw [readSlots, dif_neg full] at h
    obtain ⟨rfl, -⟩ := pure_eq_ok_iff.1 h
    exact ⟨room, fun _ _ => rfl⟩

theorem read_eq_ok {p : Pool} (h : read s = .ok p t) :
    p.size ≤ capacity ∧ p.get? 0 = none ∧ p.check = .ok () := by
  unfold read at h
  simp only [bind_eq_ok_iff, guard_eq_ok_iff] at h
  obtain ⟨count, u, -, nonzero, slots, v, readSlots, h⟩ := h
  rcases checked : (Pool.mk slots).check with e | _
  · simp only [checked] at h
    exact (throw_eq_ok_iff.1 h).elim
  · simp only [checked] at h
    obtain ⟨rfl, -⟩ := pure_eq_ok_iff.1 h
    have positive : 1 ≤ count.toNat := by
      rw [← UInt16.toNat_inj] at nonzero
      exact Nat.one_le_iff_ne_zero.2 nonzero
    obtain ⟨size, same⟩ := readSlots_eq_ok readSlots positive
    have := count.toNat_lt
    refine ⟨Nat.le_trans size (show count.toNat ≤ 65535 by omega), ?_, checked⟩
    rw [get?]
    exact congrArg Option.join (same 0 (by decide))

theorem exists_rawText?_of_expectText {p : Pool} {index : UInt16} {u : Unit}
    (h : p.expectText index = .ok u) : ∃ bytes, p.rawText? index = some bytes := by
  rw [expectText, Except.bind_eq_ok_iff] at h
  obtain ⟨c, found, h⟩ := h
  rw [get] at found
  split at found
  · next here =>
    cases found
    split at h
    · next bytes => exact ⟨bytes, by rw [rawText?, here]⟩
    · exact (Except.throw_eq_ok_iff.1 h).elim
  · cases found

end Pool

namespace Code

theorem exists_instructions_of_read {s t : Cursor} {c : Code} (h : read s = .ok c t) :
    ∃ instructions, c.instructions = .ok instructions := by
  unfold read at h
  simp only [Reader.bind_eq_ok_iff, Reader.guard_eq_ok_iff] at h
  obtain ⟨_, _, -, _, _, -, _, _, -, -, _, _, -, _, _, -, _, _, -, _, _, -, _, _, -, -, h⟩ := h
  generalize code : (Code.mk _ _ _ _ _) = d at h
  rcases decoded : d.instructions with e | instructions
  · simp only [decoded] at h
    exact (Reader.throw_eq_ok_iff.1 h).elim
  · simp only [decoded] at h
    obtain ⟨rfl, -⟩ := Reader.pure_eq_ok_iff.1 h
    exact ⟨instructions, decoded⟩

end Code

namespace ClassFile

open Reader

/-- A member whose name and descriptor are texts, and whose body can be decoded. -/
structure WellFormedMember (pool : Pool) (m : Member) : Prop where
  name : ∃ bytes, pool.rawText? m.name = some bytes
  descriptor : ∃ bytes, pool.rawText? m.descriptor = some bytes
  body : ∀ body, m.body? = some body → ∃ instructions, body.instructions = .ok instructions

theorem require_eq_ok_iff {check : Except FormatError Unit} {s t : Cursor} {u : Unit} :
    require check s = .ok u t ↔ check = .ok () ∧ s = t := by
  unfold require
  split
  · exact ⟨fun h => ⟨rfl, (pure_eq_ok_iff.1 h).2⟩, fun h => pure_eq_ok_iff.2 ⟨rfl, h.2⟩⟩
  · exact ⟨fun h => (throw_eq_ok_iff.1 h).elim, fun h => by cases h.1⟩

theorem exists_instructions_of_decodeMemberAttribute {pool : Pool} {a : Attribute}
    {x : MemberAttribute} {body : Code} (h : decodeMemberAttribute pool a = .ok x)
    (isBody : x.body? = some body) : ∃ instructions, body.instructions = .ok instructions := by
  rw [decodeMemberAttribute, Except.bind_eq_ok_iff] at h
  obtain ⟨_, -, h⟩ := h
  split at h
  · obtain ⟨code, read, h⟩ := Except.bind_eq_ok_iff.1 h
    cases h
    cases isBody
    rw [Reader.parse] at read
    split at read
    · next finished =>
      cases read
      exact Code.exists_instructions_of_read finished
    · cases read
  · cases h
    cases isBody

theorem wellFormedMember_of_readMember {pool : Pool} {m : Member} {s t : Cursor}
    (h : readMember pool s = .ok m t) : WellFormedMember pool m := by
  unfold readMember at h
  simp only [bind_eq_ok_iff, require_eq_ok_iff] at h
  obtain ⟨access, _, -, name, _, -, descriptor, _, -, _, _, ⟨nameText, -⟩, _, _,
    ⟨descriptorText, -⟩, raw, _, -, h⟩ := h
  rcases decoded : raw.mapM (decodeMemberAttribute pool) with e | attributes
  · simp only [decoded] at h
    exact (throw_eq_ok_iff.1 h).elim
  · simp only [decoded] at h
    obtain ⟨rfl, -⟩ := pure_eq_ok_iff.1 h
    refine ⟨Pool.exists_rawText?_of_expectText nameText,
      Pool.exists_rawText?_of_expectText descriptorText, fun body found => ?_⟩
    obtain ⟨x, mem, isBody⟩ := List.exists_of_findSome?_eq_some found
    obtain ⟨a, -, read⟩ := Except.exists_of_mem_mapM decoded mem
    exact exists_instructions_of_decodeMemberAttribute read isBody

theorem read_eq_ok {s t : Cursor} {c : ClassFile} (h : read s = .ok c t) :
    (∃ u v, Pool.read u = .ok c.pool v) ∧ (∃ u v, readMembers c.pool u = .ok c.fields v) ∧
      ∃ u v, readMembers c.pool u = .ok c.methods v := by
  unfold read at h
  simp only [bind_eq_ok_iff, guard_eq_ok_iff, pure_eq_ok_iff] at h
  obtain ⟨_, _, -, -, _, _, -, _, _, -, -, pool, _, readPool, _, _, -, _, _, -, _, _, -, _, _, -,
    _, _, -, fields, _, readFields, methods, _, readMethods, _, _, -, _, _, -, _, _, -, -, rfl,
    -⟩ := h
  exact ⟨⟨_, _, readPool⟩, ⟨_, _, readFields⟩, ⟨_, _, readMethods⟩⟩

theorem wellFormedMember_of_readMembers {pool : Pool} {members : Array Member} {s t : Cursor}
    (h : readMembers pool s = .ok members t) : ∀ m ∈ members, WellFormedMember pool m := by
  intro m hm
  unfold readMembers at h
  simp only [bind_eq_ok_iff, pure_eq_ok_iff] at h
  obtain ⟨_, _, -, row, _, read, rfl, -⟩ := h
  obtain ⟨_, _, found⟩ := exists_read_of_mem_times read (List.mem_toArray.1 hm)
  exact wellFormedMember_of_readMember found

/-- What the passes rely on in a class file. -/
structure WellFormed (c : ClassFile) : Prop where
  size_le : c.pool.size ≤ Pool.capacity
  get?_zero : c.pool.get? 0 = none
  check : c.pool.check = .ok ()
  fields : ∀ m ∈ c.fields, WellFormedMember c.pool m
  methods : ∀ m ∈ c.methods, WellFormedMember c.pool m

/-- A class file that was read is well-formed. -/
theorem wellFormed_of_parse {bytes : Bytes} {c : ClassFile} (h : parse bytes = .ok c) :
    c.WellFormed := by
  rw [parse, Reader.parse] at h
  split at h
  · next finished =>
    cases h
    obtain ⟨⟨_, _, readPool⟩, ⟨_, _, readFields⟩, ⟨_, _, readMethods⟩⟩ := read_eq_ok finished
    obtain ⟨size, zero, check⟩ := Pool.read_eq_ok readPool
    exact ⟨size, zero, check, wellFormedMember_of_readMembers readFields,
      wellFormedMember_of_readMembers readMethods⟩
  · cases h

end ClassFile

end Clarify
