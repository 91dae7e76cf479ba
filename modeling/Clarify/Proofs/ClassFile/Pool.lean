import Clarify.ClassFile.Pool
import Clarify.Proofs.Text.ModifiedUtf8

/-!
# Growing pools

Adding a constant leaves every constant where it was, and what is interned is found at the index
that is given out.

Results:
* `get?_of_intern?`: an interned constant stands at its index.
* `extends_of_intern?`: all constants before stay where they were.
* `keepsNames_replace`: replacing any other constant changes no name.
-/

namespace Clarify

/-- Whether names are made of constants of this kind. -/
def Constant.isNaming : Constant → Bool
  | .utf8 _ | .classRef _ | .nameAndType .. => true
  | _ => false

namespace Pool

/-! ## Constants that stay -/

/-- The second pool has every constant of the first one at the same index. -/
def Extends (p q : Pool) : Prop := ∀ index c, p.get? index = some c → q.get? index = some c

theorem Extends.refl (p : Pool) : p.Extends p := fun _ _ h => h

theorem Extends.trans {p q r : Pool} (h : p.Extends q) (h' : q.Extends r) : p.Extends r :=
  fun index c found => h' index c (h index c found)

theorem get?_eq_some_iff {p : Pool} {index : UInt16} {c : Constant} :
    p.get? index = some c ↔ p.slots[index.toNat]? = some (some c) := by
  rw [get?, Option.join_eq_some_iff]

/-- An index with a constant is inside the pool. -/
theorem lt_size_of_get? {p : Pool} {index : UInt16} {c : Constant} (h : p.get? index = some c) :
    index.toNat < p.size :=
  (Array.getElem?_eq_some_iff.1 (get?_eq_some_iff.1 h)).1

/-! ## Interning -/

section Intern

variable {p q : Pool} {c : Constant} {index : UInt16}

theorem toNat_of_find? (size : p.size ≤ capacity) (h : p.find? c = some index) :
    p.slots[index.toNat]? = some (some c) := by
  rw [find?, Option.map_eq_some_iff] at h
  obtain ⟨k, found, rfl⟩ := h
  obtain ⟨inside, here, -⟩ := Array.findIdx?_eq_some_iff_getElem.1 found
  have small : k < 65536 := Nat.lt_of_lt_of_le inside (Nat.le_trans size (by decide))
  rw [UInt16.toNat_ofNat_of_lt' small, Array.getElem?_eq_getElem inside, eq_of_beq here]

theorem find?_eq_none_iff : p.find? c = none ↔ some c ∉ p.slots := by
  rw [find?, Option.map_eq_none_iff, Array.findIdx?_eq_none_iff]
  constructor
  · intro none mem
    have same := none _ mem
    rw [beq_self_eq_true] at same
    cases same
  · intro absent slot mem
    rw [Bool.eq_false_iff]
    intro same
    exact absent (eq_of_beq same ▸ mem)

theorem slotsOf_some (c : Constant) : ∃ rest, slotsOf (some c) = some c :: rest := by
  by_cases wide : c.isWide = true
  · exact ⟨_, if_pos wide⟩
  · exact ⟨_, if_neg wide⟩

theorem push?_eq_some (h : p.push? c = some (index, q)) :
    index.toNat = p.size ∧ q.slots.toList = p.slots.toList ++ slotsOf (some c) ∧
      q.size ≤ capacity := by
  have slots := slots_pushSlot? h
  obtain ⟨rest, head⟩ := slotsOf_some c
  rw [push?, pushSlot?] at h
  split at h
  · cases h
  · next room =>
    have length := congrArg List.length slots
    rw [List.length_append, Array.length_toList, Array.length_toList] at length
    rw [freeSlots, size, head, List.length_cons] at room
    rw [head, List.length_cons] at length
    have first : UInt16.ofNat p.size = index := (Prod.mk.inj (Option.some.inj h)).1
    refine ⟨?_, slots, ?_⟩
    · rw [← first]
      refine UInt16.toNat_ofNat_of_lt ?_
      rw [size]
      have : capacity < 65536 := by decide
      show p.slots.size < 65536
      omega
    · rw [size]
      omega

/-- An interned constant stands at its index. -/
theorem get?_of_intern? (size : p.size ≤ capacity) (h : p.intern? c = some (index, q)) :
    q.get? index = some c := by
  rw [intern?] at h
  rw [get?_eq_some_iff]
  split at h
  · next found =>
    cases h
    exact toNat_of_find? size found
  · obtain ⟨place, slots, -⟩ := push?_eq_some h
    obtain ⟨rest, head⟩ := slotsOf_some c
    rw [← Array.getElem?_toList, slots, place, head, Pool.size, ← Array.length_toList,
      List.getElem?_append_right (Nat.le_refl _), Nat.sub_self, List.getElem?_cons_zero]

/-- All constants before stay where they were. -/
theorem extends_of_intern? (h : p.intern? c = some (index, q)) : p.Extends q := by
  rw [intern?] at h
  split at h
  · cases h
    exact .refl p
  · intro i d found
    obtain ⟨-, slots, -⟩ := push?_eq_some h
    have inside := lt_size_of_get? found
    rw [get?_eq_some_iff, ← Array.getElem?_toList] at found ⊢
    rw [slots, List.getElem?_append_left (by rwa [Array.length_toList]), found]

theorem size_le_of_intern? (size : p.size ≤ capacity) (h : p.intern? c = some (index, q)) :
    q.size ≤ capacity := by
  rw [intern?] at h
  split at h
  · cases h
    exact size
  · exact (push?_eq_some h).2.2

/-- What an added constant makes of the others: nothing. -/
theorem get?_of_intern?_cases {d : Constant} {other : UInt16} (h : p.intern? c = some (index, q))
    (here : q.get? other = some d) : p.get? other = some d ∨ d = c ∧ p.size ≤ other.toNat := by
  unfold intern? at h
  split at h
  · cases h
    exact .inl here
  · obtain ⟨-, slots, -⟩ := push?_eq_some h
    rw [get?_eq_some_iff, ← Array.getElem?_toList, slots, List.getElem?_append] at here
    split at here
    · rw [Array.getElem?_toList] at here
      exact .inl (get?_eq_some_iff.2 here)
    · next outside =>
      rw [Array.length_toList] at outside
      refine .inr ⟨?_, Nat.le_of_not_lt outside⟩
      have mem := List.mem_of_getElem? here
      rw [slotsOf] at mem
      split at mem
      · simp only [List.mem_cons, List.not_mem_nil, or_false, reduceCtorEq] at mem
        exact Option.some.inj mem
      · exact Option.some.inj (List.mem_singleton.1 mem)

end Intern

/-! ## Names -/

/-- The second pool has everything that names are made of at the same indices as the first one. -/
def KeepsNames (p q : Pool) : Prop :=
  ∀ index c, p.get? index = some c → c.isNaming = true → q.get? index = some c

theorem Extends.keepsNames {p q : Pool} (h : p.Extends q) : p.KeepsNames q :=
  fun index c found _ => h index c found

theorem get?_replace_self {p : Pool} {index : UInt16} (inside : index.toNat < p.size)
    (c : Constant) : (p.replace index c).get? index = some c := by
  rw [get?_eq_some_iff, replace, Array.getElem?_setIfInBounds_self_of_lt inside]

theorem get?_replace_of_ne {p : Pool} {index other : UInt16} (ne : index ≠ other)
    (c : Constant) : (p.replace index c).get? other = p.get? other := by
  have apart : index.toNat ≠ other.toNat := fun same => ne (UInt16.toNat_inj.1 same)
  rw [get?, get?, replace, Array.getElem?_setIfInBounds_ne apart]

theorem size_replace (p : Pool) (index : UInt16) (c : Constant) :
    (p.replace index c).size = p.size :=
  Array.size_setIfInBounds

/-- Putting another constant in the place of one that is no part of a name. -/
theorem keepsNames_replace {p : Pool} {index : UInt16} {c : Constant} (h : p.get? index = some c)
    (other : c.isNaming = false) (d : Constant) : p.KeepsNames (p.replace index d) := by
  intro i e found naming
  by_cases same : index = i
  · subst same
    rw [h] at found
    cases found
    rw [other] at naming
    cases naming
  · rw [get?_replace_of_ne same, found]

namespace KeepsNames

variable {p q r : Pool} {index : UInt16}

theorem refl (p : Pool) : p.KeepsNames p := fun _ _ found _ => found

theorem trans (h : p.KeepsNames q) (h' : q.KeepsNames r) : p.KeepsNames r :=
  fun index c found naming => h' index c (h index c found naming) naming

theorem rawText? (h : p.KeepsNames q) {bytes : Bytes} (found : p.rawText? index = some bytes) :
    q.rawText? index = some bytes := by
  unfold Pool.rawText? at found ⊢
  split at found
  · next here =>
    rw [h index _ here rfl]
    exact found
  · cases found

theorem text? (h : p.KeepsNames q) {text : String} (found : p.text? index = some text) :
    q.text? index = some text := by
  rw [Pool.text?, Option.map_eq_some_iff] at found ⊢
  obtain ⟨bytes, found, rfl⟩ := found
  exact ⟨bytes, h.rawText? found, rfl⟩

theorem className? (h : p.KeepsNames q) {name : String} (found : p.className? index = some name) :
    q.className? index = some name := by
  unfold Pool.className? at found ⊢
  split at found
  · next here =>
    rw [h index _ here rfl]
    exact h.text? found
  · cases found

theorem nameAndType? (h : p.KeepsNames q) {pair : String × String}
    (found : p.nameAndType? index = some pair) : q.nameAndType? index = some pair := by
  unfold Pool.nameAndType? at found ⊢
  split at found
  · next here =>
    rw [h index _ here rfl]
    simp only [Option.bind_eq_bind, Option.bind_eq_some_iff] at found ⊢
    obtain ⟨name, foundName, descriptor, foundDescriptor, eq⟩ := found
    exact ⟨name, h.text? foundName, descriptor, h.text? foundDescriptor, eq⟩
  · cases found

end KeepsNames

/-- The text of a class. -/
theorem className?_eq_some_iff {p : Pool} {index : UInt16} {name : String} :
    p.className? index = some name ↔
      ∃ n, p.get? index = some (.classRef n) ∧ p.text? n = some name := by
  unfold className?
  split
  · next n here => simp [here]
  · next other =>
    constructor
    · intro h
      cases h
    · rintro ⟨n, here, -⟩
      exact absurd here (other n)

/-- The parts of a name and descriptor. -/
theorem nameAndType?_eq_some_iff {p : Pool} {index : UInt16} {name descriptor : String} :
    p.nameAndType? index = some (name, descriptor) ↔ ∃ n d,
      p.get? index = some (.nameAndType n d) ∧ p.text? n = some name ∧
        p.text? d = some descriptor := by
  unfold nameAndType?
  split
  · next n d here =>
    simp only [Option.bind_eq_bind, Option.bind_eq_some_iff, here, Option.some.injEq,
      Constant.nameAndType.injEq]
    constructor
    · rintro ⟨name, foundName, descriptor, foundDescriptor, eq⟩
      cases eq
      exact ⟨n, d, ⟨rfl, rfl⟩, foundName, foundDescriptor⟩
    · rintro ⟨_, _, ⟨rfl, rfl⟩, foundName, foundDescriptor⟩
      exact ⟨name, foundName, descriptor, foundDescriptor, rfl⟩
  · next other =>
    constructor
    · intro h
      cases h
    · rintro ⟨n, d, here, -⟩
      exact absurd here (other n d)

/-- The parts of a member reference. -/
theorem memberRef?_eq_some_iff {p : Pool} {index : UInt16} {r : MemberRef} :
    p.memberRef? index = some r ↔ ∃ owner pair, p.get? index = some (.memberRef r.kind owner pair) ∧
      p.className? owner = some r.owner ∧ p.nameAndType? pair = some (r.name, r.descriptor) := by
  obtain ⟨kind, ownerName, name, descriptor⟩ := r
  unfold memberRef?
  split
  · next k o pr here =>
    simp only [Option.bind_eq_bind, Option.bind_eq_some_iff, here, Option.some.injEq,
      Constant.memberRef.injEq]
    constructor
    · rintro ⟨⟨name, descriptor⟩, foundPair, owner, foundOwner, eq⟩
      cases eq
      exact ⟨o, pr, ⟨rfl, rfl, rfl⟩, foundOwner, foundPair⟩
    · rintro ⟨_, _, ⟨rfl, rfl, rfl⟩, foundOwner, foundPair⟩
      exact ⟨_, foundPair, _, foundOwner, rfl⟩
  · next other =>
    constructor
    · intro h
      cases h
    · rintro ⟨o, pr, here, -⟩
      exact absurd here (other _ o pr)

theorem text?_of_get? {p : Pool} {index : UInt16} {text : String}
    (h : p.get? index = some (.utf8 (ModifiedUtf8.encode text))) : p.text? index = some text := by
  rw [text?, rawText?, h]
  exact congrArg some (ModifiedUtf8.decode_encode text)

end Pool

end Clarify
