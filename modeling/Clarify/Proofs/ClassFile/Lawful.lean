import Clarify.Proofs.ClassFile.RoundTrip

/-!
# Lawful class files

What a class file has to be like so that it is read back as it was. The conditions are stated on
the class file itself, with a table of what each index has to name, and not by the checks of the
reader.

Results:
* `Pool.lawful_iff`: a pool passes the checks of the reader exactly if it is lawful.
* `ClassFile.parse_write_iff`: a class file is read back exactly if it is lawful.
-/

namespace Clarify

/-- What an index may be asked to name. -/
inductive Target where
  | text
  | classRef
  | nameAndType
  | member
deriving Repr, DecidableEq

/-- Whether a constant is what is asked for. -/
def Target.Admits (c : Constant) : Target → Prop
  | .text => ∃ bytes, c = .utf8 bytes
  | .classRef => ∃ name, c = .classRef name
  | .nameAndType => ∃ name descriptor, c = .nameAndType name descriptor
  | .member => ∃ kind owner pair, c = .memberRef kind owner pair

/-- The indices in a constant, and what each has to name. -/
def Constant.references : Constant → List (Target × UInt16)
  | .utf8 _ | .integer _ | .float _ | .long _ | .double _ => []
  | .classRef name | .module name | .package name => [(.text, name)]
  | .string value => [(.text, value)]
  | .memberRef _ owner pair => [(.classRef, owner), (.nameAndType, pair)]
  | .nameAndType name descriptor => [(.text, name), (.text, descriptor)]
  | .methodHandle _ reference => [(.member, reference)]
  | .methodType descriptor => [(.text, descriptor)]
  | .dynamic _ pair | .invokeDynamic _ pair => [(.nameAndType, pair)]

namespace Pool

/-- The pool has something at an index that answers what is asked for. -/
def Names (p : Pool) (target : Target) (index : UInt16) : Prop :=
  ∃ c, p.get? index = some c ∧ target.Admits c

/-- Slot 0 is not used, nor is a slot behind an 8-byte constant, and all others are. Texts are not
too long, handles are of the nine kinds, and every index names what it has to. -/
structure Lawful (p : Pool) : Prop where
  first : p.slots[0]? = some none
  size_le : p.size ≤ 65535
  gaps : ∀ k, p.slots[k + 1]? = some none ↔ ∃ c, p.slots[k]? = some (some c) ∧ c.isWide = true
  texts : ∀ index bytes, p.get? index = some (.utf8 bytes) → bytes.length ≤ 65535
  handles : ∀ index kind reference,
    p.get? index = some (.methodHandle kind reference) → 1 ≤ kind ∧ kind ≤ 9
  references : ∀ index c, p.get? index = some c → ∀ r ∈ c.references, p.Names r.1 r.2

variable {p : Pool}

/-! ## Slots -/

/-- Slots of which just those behind an 8-byte constant are not used are those of constants one
behind the other. -/
theorem exists_layOut {n : Nat} {slots : List (Option Constant)} (length : slots.length ≤ n)
    (used : slots[0]? ≠ some none) (gaps : ∀ k : Nat, slots[k + 1]? = some none ↔
      ∃ c, slots[k]? = some (some c) ∧ c.isWide = true) :
    ∃ constants, slots = layOut constants := by
  induction n generalizing slots with
  | zero => exact ⟨[], List.length_eq_zero_iff.1 (by omega)⟩
  | succ n ih =>
    rcases slots with _ | ⟨_ | c, rest⟩
    · exact ⟨[], rfl⟩
    · exact absurd rfl used
    rw [List.length_cons] at length
    have first := gaps 0
    rw [List.getElem?_cons_succ, List.getElem?_cons_zero] at first
    by_cases wide : c.isWide = true
    · obtain ⟨rest, rfl⟩ : ∃ rest', rest = none :: rest' := by
        rcases rest with _ | ⟨slot, rest'⟩
        · simp [wide] at first
        · exact ⟨rest', by simpa [wide] using first⟩
      have used' : rest[0]? ≠ some none := by simpa using gaps 1
      rw [List.length_cons] at length
      obtain ⟨constants, rfl⟩ := ih (by omega) used' fun k => gaps (k + 2)
      exact ⟨c :: constants, by rw [layOut_cons, slotsOf, if_pos wide]; rfl⟩
    · have used' : rest[0]? ≠ some none := by simpa [wide] using first
      obtain ⟨constants, rfl⟩ := ih (by omega) used' fun k => gaps (k + 1)
      exact ⟨c :: constants, by rw [layOut_cons, slotsOf, if_neg wide]; rfl⟩

theorem gaps_layOut (constants : List Constant) :
    (layOut constants)[0]? ≠ some none ∧ ∀ k : Nat, (layOut constants)[k + 1]? = some none ↔
      ∃ c, (layOut constants)[k]? = some (some c) ∧ c.isWide = true := by
  induction constants with
  | nil => simp [layOut]
  | cons c constants ih =>
    obtain ⟨used, gaps⟩ := ih
    rw [layOut_cons, slotsOf]
    by_cases wide : c.isWide = true
    · rw [if_pos wide]
      refine ⟨by simp, fun k => ?_⟩
      rcases k with _ | _ | k
      · simpa using wide
      · simpa using used
      · exact gaps k
    · rw [if_neg wide]
      refine ⟨by simp, fun k => ?_⟩
      cases k with
      | zero => simpa [wide] using used
      | succ k => exact gaps k

/-- The slots of a pool are laid out if slot 0 is not used, and of the others just those behind an
8-byte constant. -/
theorem laid_iff : (∃ constants, p.slots.toList = none :: layOut constants) ↔
    p.slots[0]? = some none ∧ ∀ k : Nat, p.slots[k + 1]? = some none ↔
      ∃ c, p.slots[k]? = some (some c) ∧ c.isWide = true := by
  simp only [← Array.getElem?_toList]
  constructor
  · rintro ⟨constants, laid⟩
    obtain ⟨used, gaps⟩ := gaps_layOut constants
    rw [laid]
    refine ⟨rfl, fun k => ?_⟩
    cases k with
    | zero => simpa using used
    | succ k => exact gaps k
  · rintro ⟨first, gaps⟩
    rcases slots : p.slots.toList with _ | ⟨slot, rest⟩
    · simp [slots] at first
    · rw [slots] at first gaps
      obtain rfl : slot = none := by simpa using first
      have used : rest[0]? ≠ some none := by simpa using gaps 0
      obtain ⟨constants, rfl⟩ := exists_layOut (Nat.le_refl _) used fun k => gaps (k + 1)
      exact ⟨constants, rfl⟩

/-! ## References -/

theorem names_text_iff {index : UInt16} :
    p.Names .text index ↔ ∃ bytes, p.get? index = some (.utf8 bytes) :=
  ⟨fun ⟨_, found, bytes, eq⟩ => ⟨bytes, eq ▸ found⟩, fun ⟨bytes, found⟩ => ⟨_, found, bytes, rfl⟩⟩

theorem names_classRef_iff {index : UInt16} :
    p.Names .classRef index ↔ ∃ name, p.get? index = some (.classRef name) :=
  ⟨fun ⟨_, found, name, eq⟩ => ⟨name, eq ▸ found⟩, fun ⟨name, found⟩ => ⟨_, found, name, rfl⟩⟩

theorem names_nameAndType_iff {index : UInt16} : p.Names .nameAndType index ↔
    ∃ name descriptor, p.get? index = some (.nameAndType name descriptor) :=
  ⟨fun ⟨_, found, name, descriptor, eq⟩ => ⟨name, descriptor, eq ▸ found⟩,
    fun ⟨name, descriptor, found⟩ => ⟨_, found, name, descriptor, rfl⟩⟩

theorem names_member_iff {index : UInt16} : p.Names .member index ↔
    ∃ kind owner pair, p.get? index = some (.memberRef kind owner pair) :=
  ⟨fun ⟨_, found, kind, owner, pair, eq⟩ => ⟨kind, owner, pair, eq ▸ found⟩,
    fun ⟨kind, owner, pair, found⟩ => ⟨_, found, kind, owner, pair, rfl⟩⟩

/-- The check of a constant passes if its indices name what they have to, and it is no handle of an
unknown kind. -/
theorem checkConstant_eq_ok_iff {c : Constant} : p.checkConstant c = .ok () ↔
    (∀ kind reference, c = .methodHandle kind reference → 1 ≤ kind ∧ kind ≤ 9) ∧
      ∀ r ∈ c.references, p.Names r.1 r.2 := by
  cases c with
  | utf8 _ | integer _ | float _ | long _ | double _ =>
    exact iff_of_true rfl ⟨by simp, by simp [Constant.references]⟩
  | classRef _ | string _ | methodType _ | module _ | package _ =>
    simp [checkConstant, Constant.references, expectText_eq_ok_iff, names_text_iff]
  | dynamic _ _ | invokeDynamic _ _ =>
    simp [checkConstant, Constant.references, expectNameAndType_eq_ok_iff, names_nameAndType_iff]
  | nameAndType _ _ =>
    simp [checkConstant, Constant.references, Except.bind_eq_ok_iff, expectText_eq_ok_iff,
      names_text_iff]
  | memberRef _ _ _ =>
    simp [checkConstant, Constant.references, Except.bind_eq_ok_iff, expectClass_eq_ok_iff,
      names_classRef_iff, expectNameAndType_eq_ok_iff, names_nameAndType_iff]
  | methodHandle kind reference =>
    have range : (kind < 1 || 9 < kind) = true ↔ ¬ (1 ≤ kind ∧ kind ≤ 9) := by
      rw [Bool.or_eq_true, decide_eq_true_eq, decide_eq_true_eq, UInt8.lt_iff_toNat_lt,
        UInt8.lt_iff_toNat_lt, UInt8.le_iff_toNat_le, UInt8.le_iff_toNat_le]
      omega
    have target : (∀ r ∈ (Constant.methodHandle kind reference).references, p.Names r.1 r.2) ↔
        p.expectMember reference = .ok () := by
      simp [Constant.references, expectMember_eq_ok_iff, names_member_iff]
    rw [target]
    unfold checkConstant
    dsimp only
    split
    · next unknown =>
      constructor
      · intro never
        cases never
      · rintro ⟨known, -⟩
        exact absurd (known kind reference rfl) (range.1 unknown)
    · next known =>
      have known : 1 ≤ kind ∧ kind ≤ 9 := Decidable.not_not.1 (mt range.2 known)
      refine (and_iff_right fun kind' reference' eq => ?_).symm
      cases eq
      exact known

/-- A pool passes the checks of the reader exactly if it is lawful. -/
theorem lawful_iff : p.Lawful ↔ p.Sound ∧ p.Short := by
  constructor
  · intro lawful
    refine ⟨⟨lawful.size_le, laid_iff.2 ⟨lawful.first, lawful.gaps⟩, fun index c found => ?_⟩,
      lawful.texts⟩
    refine checkConstant_eq_ok_iff.2 ⟨?_, lawful.references index c found⟩
    rintro kind reference rfl
    exact lawful.handles index kind reference found
  · rintro ⟨sound, short⟩
    have checked {index : UInt16} {c : Constant} (found : p.get? index = some c) :=
      checkConstant_eq_ok_iff.1 (sound.check index c found)
    obtain ⟨first, gaps⟩ := laid_iff.1 sound.laid
    exact {
      first
      size_le := sound.size_le
      gaps
      texts := short
      handles := fun index kind reference found => (checked found).1 kind reference rfl
      references := fun index c found => (checked found).2 }

end Pool

namespace ClassFile

/-- A version that is read, a lawful pool, indices that name what they have to, and parts that fit
their counts; a member has its body decoded exactly under the name `Code`. -/
structure Lawful (c : ClassFile) : Prop where
  version : 45 ≤ c.majorVersion ∧ c.majorVersion ≤ 69
  pool : c.pool.Lawful
  thisClass : c.pool.Names .classRef c.thisClass
  superClass : c.superClass = 0 ∨ c.pool.Names .classRef c.superClass
  interfaces : c.interfaces.length < 65536 ∧ ∀ index ∈ c.interfaces, c.pool.Names .classRef index
  fields : c.fields.size < 65536 ∧ ∀ m ∈ c.fields, m.Sound c.pool
  methods : c.methods.size < 65536 ∧ ∀ m ∈ c.methods, m.Sound c.pool
  attributes : c.attributes.length < 65536 ∧ ∀ a ∈ c.attributes, a.Fits
  attributeNames : ∀ a ∈ c.attributes, c.pool.Names .text a.name

variable {c : ClassFile}

theorem lawful_iff : c.Lawful ↔ c.Sound ∧ c.pool.Short := by
  constructor
  · intro lawful
    obtain ⟨pool, short⟩ := Pool.lawful_iff.1 lawful.pool
    refine ⟨{ lawful with
      pool := pool, thisClass := ?_, superClass := ?_, interfaces := ?_, attributeNames := ?_ },
      short⟩
    · exact Pool.names_classRef_iff.1 lawful.thisClass
    · exact lawful.superClass.imp_right Pool.names_classRef_iff.1
    · refine lawful.interfaces.imp_right fun each index mem => ?_
      exact Pool.names_classRef_iff.1 (each index mem)
    · exact fun a mem => Pool.names_text_iff.1 (lawful.attributeNames a mem)
  · rintro ⟨sound, short⟩
    refine { sound with
      pool := Pool.lawful_iff.2 ⟨sound.pool, short⟩, thisClass := ?_, superClass := ?_,
      interfaces := ?_, attributeNames := ?_ }
    · exact Pool.names_classRef_iff.2 sound.thisClass
    · exact sound.superClass.imp_right Pool.names_classRef_iff.2
    · refine sound.interfaces.imp_right fun each index mem => ?_
      exact Pool.names_classRef_iff.2 (each index mem)
    · exact fun a mem => Pool.names_text_iff.2 (sound.attributeNames a mem)

/-- A class file is read back from what is written exactly if it is lawful. -/
theorem parse_write_iff : parse c.write = .ok c ↔ c.Lawful := by
  rw [parse_eq_ok_iff, lawful_iff]
  exact and_iff_left rfl

end ClassFile

end Clarify
