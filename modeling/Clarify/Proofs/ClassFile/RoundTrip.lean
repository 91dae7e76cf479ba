import Clarify.Proofs.ClassFile.Reading

/-!
# Reading and writing class files

Reading takes exactly the written forms of the class files that can be written. For each part of a
class file there is one statement of both directions: which values are read, and from which bytes.

Results:
* `Constant.reads`, `Pool.reads`, `Code.parse_eq_ok_iff`: the parts.
* `ClassFile.parse_eq_ok_iff`: a class file is read from the bytes that it is written as, and only
  if it is `Sound` and no text is too long.
* `ClassFile.write_of_parse`: what was read is written back to the same bytes.
-/

namespace Clarify

open Reader Cursor

/-! ## Constants -/

namespace Constant

/-- Whether the length of a text fits its field. -/
def Fits : Constant → Prop
  | .utf8 bytes => bytes.length < 65536
  | _ => True

instance : DecidablePred Fits
  | .utf8 bytes => inferInstanceAs (Decidable (bytes.length < 65536))
  | .integer _ | .float _ | .long _ | .double _ | .classRef _ | .string _ | .memberRef .. |
    .nameAndType .. | .methodHandle .. | .methodType _ | .dynamic .. | .invokeDynamic .. |
    .module _ | .package _ => .isTrue trivial

variable {s t : Cursor} {c : Constant} {index : Nat}

/-- Every kind of constant is written as its tag and one or two fields. -/
theorem passes_write_of_read (h : read index s = .ok c t) : c.Fits ∧ s.Passes c.write t := by
  unfold read at h
  simp only [bind_eq_ok_iff, u8_eq_ok_iff] at h
  obtain ⟨tag, u, first, h⟩ := h
  have one {bytes : Bytes} (rest : u.Passes bytes t) : s.Passes (tag :: bytes) t :=
    passes_append_iff.2 ⟨u, first, rest⟩
  have two {bytes bytes' : Bytes} {v : Cursor} (rest : u.Passes bytes v)
      (rest' : v.Passes bytes' t) : s.Passes (tag :: (bytes ++ bytes')) t :=
    one (passes_append_iff.2 ⟨v, rest, rest'⟩)
  split at h
  case h_18 => exact (throw_eq_ok_iff.1 h).elim
  all_goals
    simp only [bind_eq_ok_iff, pure_eq_ok_iff, u8_eq_ok_iff, u16_eq_ok_iff, u32_eq_ok_iff,
      u64_eq_ok_iff, take_eq_ok_iff] at h
  case h_1 =>
    obtain ⟨length, v, number, bytes, w, ⟨same, rest⟩, rfl, rfl⟩ := h
    have small := length.toNat_lt
    rw [← UInt16.ofNat_toNat (x := length), ← same] at number
    exact ⟨show bytes.length < 65536 by omega, two number rest⟩
  case h_2 | h_3 | h_4 | h_5 | h_6 | h_7 | h_13 | h_16 | h_17 =>
    obtain ⟨value, v, rest, rfl, rfl⟩ := h
    exact ⟨trivial, one rest⟩
  all_goals
    obtain ⟨x, v, rest, y, w, rest', rfl, rfl⟩ := h
    exact ⟨trivial, two rest rest'⟩

theorem read_of_passes_write (fits : c.Fits) (h : s.Passes c.write t) : read index s = .ok c t := by
  have front {tag : UInt8} {bytes : Bytes} {s : Cursor} (h : s.Passes (tag :: bytes) t) :
      ∃ u, s.Passes [tag] u ∧ u.Passes bytes t :=
    passes_append_iff.1 (show s.Passes ([tag] ++ bytes) t from h)
  unfold read
  cases c with
  | utf8 bytes =>
    obtain ⟨u, tag, rest⟩ := front h
    obtain ⟨v, number, rest⟩ := passes_append_iff.1 rest
    refine bind_eq_ok_iff.2 ⟨_, u, u8_eq_ok_iff.2 tag, ?_⟩
    simp only [bind_eq_ok_iff, pure_eq_ok_iff, u16_eq_ok_iff, take_eq_ok_iff]
    exact ⟨_, v, number, bytes, t, ⟨(UInt16.toNat_ofNat_of_lt' fits).symm, rest⟩, rfl, rfl⟩
  | integer _ | float _ | long _ | double _ | classRef _ | string _ | methodType _ | module _
  | package _ =>
    obtain ⟨u, tag, rest⟩ := front h
    refine bind_eq_ok_iff.2 ⟨_, u, u8_eq_ok_iff.2 tag, ?_⟩
    simp only [bind_eq_ok_iff, pure_eq_ok_iff, u16_eq_ok_iff, u32_eq_ok_iff, u64_eq_ok_iff]
    exact ⟨_, t, rest, rfl, rfl⟩
  | methodHandle _ _ =>
    obtain ⟨u, tag, rest⟩ := front h
    obtain ⟨v, kind, rest⟩ := front rest
    refine bind_eq_ok_iff.2 ⟨_, u, u8_eq_ok_iff.2 tag, ?_⟩
    simp only [bind_eq_ok_iff, pure_eq_ok_iff, u8_eq_ok_iff, u16_eq_ok_iff]
    exact ⟨_, v, kind, _, t, rest, rfl, rfl⟩
  | nameAndType _ _ | dynamic _ _ | invokeDynamic _ _ =>
    obtain ⟨u, tag, rest⟩ := front h
    obtain ⟨v, rest, rest'⟩ := passes_append_iff.1 rest
    refine bind_eq_ok_iff.2 ⟨_, u, u8_eq_ok_iff.2 tag, ?_⟩
    simp only [bind_eq_ok_iff, pure_eq_ok_iff, u16_eq_ok_iff]
    exact ⟨_, v, rest, _, t, rest', rfl, rfl⟩
  | memberRef kind _ _ =>
    cases kind
    all_goals
      obtain ⟨u, tag, rest⟩ := front h
      obtain ⟨v, rest, rest'⟩ := passes_append_iff.1 rest
      refine bind_eq_ok_iff.2 ⟨_, u, u8_eq_ok_iff.2 tag, ?_⟩
      simp only [RefKind.tag, bind_eq_ok_iff, pure_eq_ok_iff, u16_eq_ok_iff]
      exact ⟨_, v, rest, _, t, rest', rfl, rfl⟩

theorem reads (index : Nat) : Reads (read index) Fits write :=
  fun _ _ _ => ⟨passes_write_of_read, fun ⟨fits, h⟩ => read_of_passes_write fits h⟩

end Constant

/-! ## Pools -/

namespace Pool

variable {p : Pool} {s t : Cursor} {index : UInt16} {u : Unit}

theorem bind_get_eq_ok_iff {f : Constant → Except FormatError Unit} :
    p.get index >>= f = .ok u ↔ ∃ c, p.get? index = some c ∧ f c = .ok u := by
  unfold get
  rcases p.get? index with _ | c
  · exact iff_of_false nofun nofun
  · rw [Except.bind_eq_ok_iff]
    simp

/-! ### References to other constants -/

theorem expectText_eq_ok_iff :
    p.expectText index = .ok u ↔ ∃ bytes, p.get? index = some (.utf8 bytes) := by
  rw [expectText, bind_get_eq_ok_iff]
  constructor
  · rintro ⟨c, found, h⟩
    cases c <;> cases h
    exact ⟨_, found⟩
  · rintro ⟨bytes, found⟩
    exact ⟨_, found, rfl⟩

theorem expectClass_eq_ok_iff :
    p.expectClass index = .ok u ↔ ∃ name, p.get? index = some (.classRef name) := by
  rw [expectClass, bind_get_eq_ok_iff]
  constructor
  · rintro ⟨c, found, h⟩
    cases c <;> cases h
    exact ⟨_, found⟩
  · rintro ⟨name, found⟩
    exact ⟨_, found, rfl⟩

theorem expectNameAndType_eq_ok_iff :
    p.expectNameAndType index = .ok u ↔
      ∃ name descriptor, p.get? index = some (.nameAndType name descriptor) := by
  rw [expectNameAndType, bind_get_eq_ok_iff]
  constructor
  · rintro ⟨c, found, h⟩
    cases c <;> cases h
    exact ⟨_, _, found⟩
  · rintro ⟨name, descriptor, found⟩
    exact ⟨_, found, rfl⟩

theorem expectMember_eq_ok_iff :
    p.expectMember index = .ok u ↔
      ∃ kind owner pair, p.get? index = some (.memberRef kind owner pair) := by
  rw [expectMember, bind_get_eq_ok_iff]
  constructor
  · rintro ⟨c, found, h⟩
    cases c <;> cases h
    exact ⟨_, _, _, found⟩
  · rintro ⟨kind, owner, pair, found⟩
    exact ⟨_, found, rfl⟩

/-! ### Slots -/

/-- The slots of constants one behind the other. -/
def layOut (constants : List Constant) : List (Option Constant) :=
  constants.flatMap fun c => slotsOf (some c)

theorem layOut_cons (c : Constant) (constants : List Constant) :
    layOut (c :: constants) = slotsOf (some c) ++ layOut constants :=
  List.flatMap_cons

theorem eq_nil_of_layOut_eq_nil {constants : List Constant} (h : layOut constants = []) :
    constants = [] := by
  cases constants with
  | nil => rfl
  | cons c constants =>
    obtain ⟨rest, head⟩ := slotsOf_some c
    rw [layOut_cons, head] at h
    cases h

theorem some_mem_layOut_iff {c : Constant} {constants : List Constant} :
    some c ∈ layOut constants ↔ c ∈ constants := by
  have one (d : Constant) : some c ∈ slotsOf (some d) ↔ c = d := by
    rw [slotsOf]
    split <;> simp
  simp only [layOut, List.mem_flatMap, one, exists_eq_right']

theorem flatMap_write_layOut (constants : List Constant) :
    (layOut constants).flatMap (fun slot => (slot.map Constant.write).getD []) =
      constants.flatMap Constant.write := by
  rw [layOut, List.flatMap_assoc]
  congr 1
  funext c
  rw [slotsOf]
  split <;> simp

/-- While a row of slots is too short, what completes it begins with a constant. -/
theorem exists_layOut_iff_of_lt {count : Nat} {slots row : Array (Option Constant)}
    (short : slots.size < count) :
    (∃ constants, row.toList = slots.toList ++ layOut constants ∧ row.size = count ∧
      (∀ c ∈ constants, c.Fits) ∧ s.Passes (constants.flatMap Constant.write) t) ↔
    ∃ c u, (c.Fits ∧ s.Passes c.write u) ∧ ∃ constants,
      row.toList = slots.toList ++ slotsOf (some c) ++ layOut constants ∧ row.size = count ∧
        (∀ c ∈ constants, c.Fits) ∧ u.Passes (constants.flatMap Constant.write) t := by
  constructor
  · rintro ⟨constants, slots', size, fits, passes⟩
    cases constants with
    | nil =>
      have := congrArg List.length slots'
      simp only [layOut, List.flatMap_nil, List.append_nil, Array.length_toList] at this
      omega
    | cons c constants =>
      obtain ⟨u, first, rest⟩ := passes_append_iff.1 passes
      refine ⟨c, u, ⟨fits c (by simp), first⟩, constants, ?_, size,
        fun d hd => fits d (by simp [hd]), rest⟩
      rw [slots', layOut_cons, List.append_assoc]
  · rintro ⟨c, u, ⟨fit, first⟩, constants, slots', size, fits, rest⟩
    refine ⟨c :: constants, ?_, size, ?_, passes_append_iff.2 ⟨u, first, rest⟩⟩
    · rw [slots', layOut_cons, List.append_assoc]
    · exact List.forall_mem_cons.2 ⟨fit, fits⟩

/-- The slots that are read go behind those that were there, until there are enough. -/
theorem readSlots_eq_ok_iff {count : Nat} {slots row : Array (Option Constant)}
    (room : slots.size ≤ count) :
    readSlots count slots s = .ok row t ↔ ∃ constants,
      row.toList = slots.toList ++ layOut constants ∧ row.size = count ∧
        (∀ c ∈ constants, c.Fits) ∧ s.Passes (constants.flatMap Constant.write) t := by
  induction slots using readSlots.induct count generalizing s with
  | case1 slots short ih1 ih2 =>
    rw [exists_layOut_iff_of_lt short, readSlots, dif_pos short, bind_eq_ok_iff]
    refine exists_congr fun c => exists_congr fun u => and_congr (Constant.reads _ _ _ _) ?_
    by_cases wide : c.isWide = true
    · rw [if_pos wide, slotsOf, if_pos wide]
      by_cases twice : slots.size + 1 < count
      · rw [if_pos twice, ih1 c twice (by simp only [Array.size_push]; omega)]
        simp only [Array.toList_push, List.append_assoc, List.cons_append, List.nil_append]
      · rw [if_neg twice, throw_eq_ok_iff]
        refine iff_of_false id ?_
        rintro ⟨constants, slots', size, -⟩
        have := congrArg List.length slots'
        simp only [List.length_append, Array.length_toList, List.length_cons] at this
        omega
    · rw [if_neg wide, slotsOf, if_neg wide, ih2 c (by simp only [Array.size_push]; omega)]
      simp only [Array.toList_push]
  | case2 slots full =>
    rw [readSlots, dif_neg full, pure_eq_ok_iff]
    constructor
    · rintro ⟨rfl, rfl⟩
      exact ⟨[], by simp [layOut], by omega, List.forall_mem_nil _, passes_nil_iff.2 rfl⟩
    · rintro ⟨constants, slots', size, -, passes⟩
      obtain rfl : constants = [] := by
        have length := congrArg List.length slots'
        rw [List.length_append, Array.length_toList, Array.length_toList] at length
        exact eq_nil_of_layOut_eq_nil (List.length_eq_zero_iff.1 (by omega))
      rw [layOut, List.flatMap_nil, List.append_nil] at slots'
      exact ⟨Array.toList_inj.1 slots'.symm, passes_nil_iff.1 passes⟩

/-! ### Whole pools -/

/-- A pool that can be written: it is not too large, its constants lie one behind the other, and
each refers to constants of the right kinds. -/
structure Sound (p : Pool) : Prop where
  size_le : p.size ≤ capacity
  laid : ∃ constants, p.slots.toList = none :: layOut constants
  check : ∀ index c, p.get? index = some c → p.checkConstant c = .ok ()

/-- No text of the pool is too long for its length field. -/
def Short (p : Pool) : Prop :=
  ∀ index bytes, p.get? index = some (.utf8 bytes) → bytes.length ≤ 65535

theorem short_of_all (h : p.slots.all fun slot => slot.all fun c => decide c.Fits) : p.Short := by
  intro index bytes found
  rw [get?_eq_some_iff] at found
  have fits := Array.all_eq_true_iff_forall_mem.1 h _ (Array.mem_of_getElem? found)
  exact Nat.le_of_lt_succ (of_decide_eq_true fits)

theorem some_mem_slots_iff (size : p.size ≤ capacity) {c : Constant} :
    some c ∈ p.slots ↔ ∃ index, p.get? index = some c := by
  rw [Array.mem_iff_getElem?]
  constructor
  · rintro ⟨k, found⟩
    have inside : k < p.size := (Array.getElem?_eq_some_iff.1 found).1
    have small : k < 65536 := Nat.lt_of_lt_of_le inside (Nat.le_trans size (by decide))
    refine ⟨UInt16.ofNat k, get?_eq_some_iff.2 ?_⟩
    rw [UInt16.toNat_ofNat_of_lt' small, found]
  · rintro ⟨index, found⟩
    exact ⟨index.toNat, get?_eq_some_iff.1 found⟩

theorem check_eq_ok_iff (size : p.size ≤ capacity) :
    p.check = .ok u ↔ ∀ index c, p.get? index = some c → p.checkConstant c = .ok () := by
  have rows (f : Option Constant → Except FormatError Unit) :
      p.slots.forM f = forM p.slots.toList f := by
    cases p.slots
    rw [Array.forM_eq_forM, List.forM_toArray, List.forM_eq_forM]
  rw [check, rows, Code.forM_eq_ok_iff]
  constructor
  · intro h index c found
    exact h (some c) (Array.mem_toList_iff.2 ((some_mem_slots_iff size).2 ⟨index, found⟩))
  · rintro h (_ | c) mem
    · rfl
    · obtain ⟨index, found⟩ := (some_mem_slots_iff size).1 (Array.mem_toList_iff.1 mem)
      exact h index c found

theorem mem_iff_of_laid {constants : List Constant} (size : p.size ≤ capacity)
    (laid : p.slots.toList = none :: layOut constants) {c : Constant} :
    c ∈ constants ↔ ∃ index, p.get? index = some c := by
  rw [← some_mem_slots_iff size, ← Array.mem_toList_iff, laid, List.mem_cons, some_mem_layOut_iff]
  simp

theorem short_iff {constants : List Constant} (size : p.size ≤ capacity)
    (laid : p.slots.toList = none :: layOut constants) :
    p.Short ↔ ∀ c ∈ constants, c.Fits := by
  constructor
  · intro short c hc
    obtain ⟨index, found⟩ := (mem_iff_of_laid size laid).1 hc
    cases c with
    | utf8 bytes => exact Nat.lt_succ_of_le (short index bytes found)
    | _ => trivial
  · intro fits index bytes found
    exact Nat.le_of_lt_succ (fits (.utf8 bytes) ((mem_iff_of_laid size laid).2 ⟨index, found⟩))

theorem reads : Reads read (fun p => p.Sound ∧ p.Short) write := by
  intro s p t
  have written {constants : List Constant} (laid : p.slots.toList = none :: layOut constants) :
      p.write = be16 (UInt16.ofNat p.size) ++ constants.flatMap Constant.write := by
    rw [write, laid, List.flatMap_cons, flatMap_write_layOut]
    rfl
  unfold read
  simp only [bind_eq_ok_iff, guard_eq_ok_iff, u16_eq_ok_iff]
  constructor
  · rintro ⟨count, u, number, nonzero, slots, v, readSlots, h⟩
    have positive : 1 ≤ count.toNat := by
      rw [← UInt16.toNat_inj] at nonzero
      exact Nat.one_le_iff_ne_zero.2 nonzero
    obtain ⟨constants, laid, size, fits, passes⟩ := (readSlots_eq_ok_iff positive).1 readSlots
    rcases checked : (Pool.mk slots).check with e | _
    · simp only [checked] at h
      exact (throw_eq_ok_iff.1 h).elim
    · simp only [checked] at h
      obtain ⟨rfl, rfl⟩ := pure_eq_ok_iff.1 h
      have small : (Pool.mk slots).size ≤ capacity := by
        have := count.toNat_lt
        rw [Pool.size, size, capacity]
        omega
      refine ⟨⟨⟨small, ⟨constants, laid⟩, (check_eq_ok_iff small).1 checked⟩,
        (short_iff small laid).2 fits⟩, ?_⟩
      rw [written laid, Pool.size, size, UInt16.ofNat_toNat]
      exact passes_append_iff.2 ⟨u, number, passes⟩
  · rintro ⟨⟨⟨small, ⟨constants, laid⟩, check⟩, short⟩, passes⟩
    rw [written laid] at passes
    obtain ⟨u, number, passes⟩ := passes_append_iff.1 passes
    have length := congrArg List.length laid
    rw [Array.length_toList, List.length_cons] at length
    have count : (UInt16.ofNat p.size).toNat = p.slots.size :=
      UInt16.toNat_ofNat_of_lt' (Nat.lt_of_le_of_lt small (by decide))
    refine ⟨_, u, number, ?_, p.slots, t, ?_, ?_⟩
    · intro zero
      rw [← UInt16.toNat_inj, count, UInt16.toNat_zero] at zero
      omega
    · rw [count, readSlots_eq_ok_iff (by rw [length]; exact Nat.le_add_left ..)]
      exact ⟨constants, laid, rfl, (short_iff small laid).1 short, passes⟩
    · have checked : p.check = .ok () := (check_eq_ok_iff small).2 check
      simp only [checked]
      rfl

end Pool

/-! ## Attributes -/

/-- Whether the length of the attribute fits its field. -/
def Attribute.Fits (a : Attribute) : Prop := a.info.length < 4294967296

namespace Attribute

theorem reads : Reads read Fits write := by
  intro s a t
  simp only [read, write, writeParts, bind_eq_ok_iff, pure_eq_ok_iff, u16_eq_ok_iff,
    u32_eq_ok_iff, take_eq_ok_iff, passes_append_iff]
  constructor
  · rintro ⟨name, u, first, length, v, second, info, w, ⟨same, rest⟩, rfl, rfl⟩
    refine ⟨?_, v, ⟨u, first, ?_⟩, rest⟩
    · rw [Fits, same]
      exact length.toNat_lt
    · rw [same, UInt32.ofNat_toNat]
      exact second
  · rintro ⟨fits, v, ⟨u, first, second⟩, rest⟩
    exact ⟨a.name, u, first, _, v, second, a.info, t,
      ⟨(UInt32.toNat_ofNat_of_lt' fits).symm, rest⟩, rfl, rfl⟩

theorem readsAll :
    Reads readAll (fun row => row.length < 65536 ∧ ∀ a ∈ row, a.Fits) writeAll := by
  intro s row t
  simp only [readAll, bind_eq_ok_iff, u16_eq_ok_iff]
  rw [counted_eq_ok_iff reads, and_assoc]
  rfl

end Attribute

/-! ## Bodies -/

namespace Code

variable {s t : Cursor}

theorem reads_readHandler : Reads readHandler (fun _ => True) writeHandler := by
  intro s h t
  simp only [readHandler, writeHandler, bind_eq_ok_iff, pure_eq_ok_iff, u16_eq_ok_iff,
    passes_append_iff, true_and]
  constructor
  · rintro ⟨start, u, first, stop, v, second, target, w, third, type, x, fourth, rfl, rfl⟩
    exact ⟨w, ⟨v, ⟨u, first, second⟩, third⟩, fourth⟩
  · rintro ⟨w, ⟨v, ⟨u, first, second⟩, third⟩, fourth⟩
    exact ⟨_, u, first, _, v, second, _, w, third, _, t, fourth, rfl, rfl⟩

/-- A body that can be written: its parts fit their counts, and its code can be decoded. -/
structure Sound (c : Code) : Prop where
  size_pos : 0 < c.bytes.size
  size_le : c.bytes.size ≤ 65535
  handlers : c.handlers.length < 65536
  attributes : c.attributes.length < 65536 ∧ ∀ a ∈ c.attributes, a.Fits
  decodes : ∃ instructions, c.instructions = .ok instructions

/-- A body is read up to the end of the bytes. -/
theorem read_eq_ok_iff {c : Code} :
    read s = .ok c t ↔ c.Sound ∧ s.Passes c.write t ∧ t.rest = [] := by
  unfold read
  simp only [bind_eq_ok_iff, guard_eq_ok_iff, u16_eq_ok_iff, u32_eq_ok_iff, take_eq_ok_iff,
    times_eq_ok_iff reads_readHandler, Attribute.readsAll _ _ _, remaining_eq_ok_iff, write,
    passes_append_iff]
  constructor
  · rintro ⟨maxStack, s₁, h₁, maxLocals, s₂, h₂, length, s₃, h₃, bounds, bytes, s₄, ⟨size, h₄⟩,
      count, s₅, h₅, handlers, s₆, ⟨number, -, h₆⟩, attributes, s₇, ⟨fits, h₇⟩, unread, _,
      ⟨behind, rfl⟩, none, h⟩
    generalize body : Code.mk _ _ _ _ _ = d at h
    rcases decodes : d.instructions with e | instructions
    · simp only [decodes] at h
      exact (throw_eq_ok_iff.1 h).elim
    simp only [decodes] at h
    obtain ⟨rfl, rfl⟩ := pure_eq_ok_iff.1 h
    obtain rfl := body
    obtain rfl : unread = 0 := Decidable.not_not.1 none
    simp only [Bool.or_eq_true, decide_eq_true_eq, not_or, UInt32.not_lt, ← UInt32.toNat_inj,
      UInt32.le_iff_toNat_le] at bounds
    refine ⟨⟨?_, ?_, ?_, fits, instructions, decodes⟩,
      ⟨s₆, ⟨s₅, ⟨s₄, ⟨s₃, ⟨s₂, ⟨s₁, h₁, h₂⟩, ?_⟩, h₄⟩, ?_⟩, h₆⟩, h₇⟩,
      List.length_eq_zero_iff.1 behind⟩
    · rw [List.size_toArray, size]
      exact Nat.pos_of_ne_zero bounds.1
    · rw [List.size_toArray, size]
      exact bounds.2
    · rw [number]
      exact count.toNat_lt
    · rw [List.size_toArray, size, UInt32.ofNat_toNat]
      exact h₃
    · rw [number, UInt16.ofNat_toNat]
      exact h₅
  · rintro ⟨sound, ⟨s₆, ⟨s₅, ⟨s₄, ⟨s₃, ⟨s₂, ⟨s₁, h₁, h₂⟩, h₃⟩, h₄⟩, h₅⟩, h₆⟩, h₇⟩, behind⟩
    have positive := sound.size_pos
    have small := sound.size_le
    have length : (UInt32.ofNat c.bytes.size).toNat = c.bytes.size :=
      UInt32.toNat_ofNat_of_lt' (Nat.lt_of_le_of_lt small (by decide))
    refine ⟨_, s₁, h₁, _, s₂, h₂, _, s₃, h₃, ?_, _, s₄, ⟨?_, h₄⟩, _, s₅, h₅, _, s₆,
      ⟨?_, fun _ _ => trivial, h₆⟩, _, t, ⟨sound.attributes, h₇⟩, _, t, ⟨rfl, rfl⟩, ?_,
      ?_⟩
    · simp only [Bool.or_eq_true, decide_eq_true_eq, not_or, UInt32.not_lt, ← UInt32.toNat_inj,
        UInt32.le_iff_toNat_le, length]
      exact ⟨Nat.ne_of_gt positive, small⟩
    · rw [length, Array.length_toList]
    · exact (UInt16.toNat_ofNat_of_lt' sound.handlers).symm
    · rw [behind]
      exact fun h => h rfl
    · obtain ⟨instructions, decodes⟩ := sound.decodes
      rw [show Code.mk c.maxStack c.maxLocals c.bytes.toList.toArray c.handlers c.attributes = c
        from rfl]
      simp only [decodes]
      exact pure_eq_ok_iff.2 ⟨rfl, rfl⟩

theorem parse_eq_ok_iff {c : Code} {bytes : Bytes} :
    parse read bytes = .ok c ↔ c.Sound ∧ bytes = c.write :=
  parse_eq_ok_iff_of_reads_all fun _ _ => read_eq_ok_iff

end Code

/-! ## Members -/

/-- An attribute of a member with its body written. -/
def MemberAttribute.raw : MemberAttribute → Attribute
  | .code name body => { name, info := body.write }
  | .other a => a

/-- An attribute of a member is a body exactly if it is named `Code`, and then one that can be
written. -/
structure MemberAttribute.Sound (pool : Pool) (a : MemberAttribute) : Prop where
  name : ∃ bytes, pool.get? a.raw.name = some (.utf8 bytes)
  isCode : pool.text? a.raw.name = some "Code" ↔ a.body?.isSome = true
  body : ∀ body, a.body? = some body → body.Sound

/-- A member that can be written. -/
structure Member.Sound (pool : Pool) (m : Member) : Prop where
  name : ∃ bytes, pool.get? m.name = some (.utf8 bytes)
  descriptor : ∃ bytes, pool.get? m.descriptor = some (.utf8 bytes)
  count : m.attributes.length < 65536
  fits : ∀ a ∈ m.attributes, a.raw.Fits
  attributes : ∀ a ∈ m.attributes, a.Sound pool

namespace ClassFile

variable {pool : Pool} {s t : Cursor}

theorem decodeMemberAttribute_eq_ok_iff {a : Attribute} {x : MemberAttribute} :
    decodeMemberAttribute pool a = .ok x ↔ a = x.raw ∧ x.Sound pool := by
  simp only [decodeMemberAttribute, Except.bind_eq_ok_iff, Pool.expectText_eq_ok_iff,
    exists_const]
  constructor
  · rintro ⟨text, h⟩
    split at h
    · next named =>
      obtain ⟨body, read, h⟩ := Except.bind_eq_ok_iff.1 h
      cases h
      obtain ⟨sound, written⟩ := Code.parse_eq_ok_iff.1 read
      obtain ⟨name, info⟩ := a
      obtain rfl : info = body.write := written
      refine ⟨rfl, text, iff_of_true named rfl, ?_⟩
      rintro _ ⟨⟩
      exact sound
    · next other =>
      cases h
      exact ⟨rfl, text, iff_of_false other Bool.false_ne_true, fun _ none => by cases none⟩
  · rintro ⟨rfl, text, isCode, sound⟩
    refine ⟨text, ?_⟩
    cases x with
    | code name body =>
      rw [if_pos (isCode.2 rfl)]
      exact Except.bind_eq_ok_iff.2
        ⟨body, Code.parse_eq_ok_iff.2 ⟨sound body rfl, rfl⟩, rfl⟩
    | other a =>
      rw [if_neg fun named => Bool.false_ne_true (isCode.1 named)]
      rfl

theorem reads_readMember : Reads (readMember pool) (Member.Sound pool) writeMember := by
  intro s m t
  have decoded {raw : List Attribute} {attributes : List MemberAttribute} :
      raw.mapM (decodeMemberAttribute pool) = .ok attributes ↔
        raw = attributes.map MemberAttribute.raw ∧ ∀ a ∈ attributes, a.Sound pool :=
    Except.mapM_eq_ok_iff fun a x => @decodeMemberAttribute_eq_ok_iff pool a x
  have written : writeMember m = be16 m.access ++ be16 m.name ++ be16 m.descriptor ++
      Attribute.writeAll (m.attributes.map MemberAttribute.raw) := by
    have each : writeMemberAttribute = fun a => a.raw.write := by
      funext a
      cases a <;> rfl
    rw [writeMember, Attribute.writeAll, List.length_map, List.flatMap_map, each,
      List.append_assoc _ (be16 _)]
  rw [written]
  unfold readMember
  simp only [bind_eq_ok_iff, u16_eq_ok_iff, require_eq_ok_iff, Pool.expectText_eq_ok_iff,
    Attribute.readsAll _ _ _, passes_append_iff]
  constructor
  · rintro ⟨access, s₁, h₁, name, s₂, h₂, descriptor, s₃, h₃, _, _, ⟨nameText, rfl⟩, _, _,
      ⟨descriptorText, rfl⟩, raw, s₄, ⟨⟨count, fits⟩, h₄⟩, h⟩
    rcases read : raw.mapM (decodeMemberAttribute pool) with e | attributes
    · simp only [read] at h
      exact (throw_eq_ok_iff.1 h).elim
    simp only [read] at h
    obtain ⟨rfl, rfl⟩ := pure_eq_ok_iff.1 h
    obtain ⟨rfl, sound⟩ := decoded.1 read
    rw [List.length_map] at count
    exact ⟨⟨nameText, descriptorText, count, List.forall_mem_map.1 fits, sound⟩,
      s₃, ⟨s₂, ⟨s₁, h₁, h₂⟩, h₃⟩, h₄⟩
  · rintro ⟨sound, s₃, ⟨s₂, ⟨s₁, h₁, h₂⟩, h₃⟩, h₄⟩
    refine ⟨_, s₁, h₁, _, s₂, h₂, _, s₃, h₃, (), s₃, ⟨sound.name, rfl⟩, (), s₃,
      ⟨sound.descriptor, rfl⟩, _, t, ⟨⟨?_, List.forall_mem_map.2 sound.fits⟩, h₄⟩, ?_⟩
    · rw [List.length_map]
      exact sound.count
    · simp only [decoded.2 ⟨rfl, sound.attributes⟩]
      exact pure_eq_ok_iff.2 ⟨rfl, rfl⟩

theorem reads_readMembers : Reads (readMembers pool)
    (fun row => row.size < 65536 ∧ ∀ m ∈ row, m.Sound pool) writeMembers := by
  intro s row t
  have rows : readMembers pool s = .ok row t ↔
      ∃ count u, s.Passes (be16 count) u ∧
        times count.toNat (readMember pool) u = .ok row.toList t := by
    simp only [readMembers, bind_eq_ok_iff, pure_eq_ok_iff, u16_eq_ok_iff]
    constructor
    · rintro ⟨count, u, number, members, v, read, rfl, rfl⟩
      exact ⟨count, u, number, read⟩
    · rintro ⟨count, u, number, read⟩
      exact ⟨count, u, number, row.toList, t, read, rfl, rfl⟩
  rw [rows, counted_eq_ok_iff reads_readMember, and_assoc]
  simp only [Array.length_toList, Array.mem_toList_iff, writeMembers]

theorem reads_readClassIndex : Reads (readClassIndex pool)
    (fun index => ∃ name, pool.get? index = some (.classRef name)) be16 := by
  intro s index t
  simp only [readClassIndex, bind_eq_ok_iff, pure_eq_ok_iff, u16_eq_ok_iff, require_eq_ok_iff,
    Pool.expectClass_eq_ok_iff]
  constructor
  · rintro ⟨index, u, passes, _, _, ⟨isClass, rfl⟩, rfl, rfl⟩
    exact ⟨isClass, passes⟩
  · rintro ⟨isClass, passes⟩
    exact ⟨index, t, passes, (), t, ⟨isClass, rfl⟩, rfl, rfl⟩

theorem reads_readOptionalClassIndex : Reads (readOptionalClassIndex pool)
    (fun index => index = 0 ∨ ∃ name, pool.get? index = some (.classRef name)) be16 := by
  intro s index t
  simp only [readOptionalClassIndex, bind_eq_ok_iff, u16_eq_ok_iff]
  constructor
  · rintro ⟨index, u, passes, h⟩
    split at h
    · simp only [bind_eq_ok_iff, require_eq_ok_iff, Pool.expectClass_eq_ok_iff,
        pure_eq_ok_iff] at h
      obtain ⟨_, _, ⟨isClass, rfl⟩, rfl, rfl⟩ := h
      exact ⟨.inr isClass, passes⟩
    · next zero =>
      obtain ⟨rfl, rfl⟩ := pure_eq_ok_iff.1 h
      exact ⟨.inl (Decidable.not_not.1 zero), passes⟩
  · rintro ⟨fits, passes⟩
    refine ⟨index, t, passes, ?_⟩
    split
    · next nonzero =>
      simp only [bind_eq_ok_iff, require_eq_ok_iff, Pool.expectClass_eq_ok_iff, pure_eq_ok_iff]
      exact ⟨(), t, ⟨fits.resolve_left nonzero, rfl⟩, trivial, rfl⟩
    · exact pure_eq_ok_iff.2 ⟨rfl, rfl⟩

/-- A class file that can be written. -/
structure Sound (c : ClassFile) : Prop where
  version : minMajorVersion ≤ c.majorVersion ∧ c.majorVersion ≤ maxMajorVersion
  pool : c.pool.Sound
  thisClass : ∃ name, c.pool.get? c.thisClass = some (.classRef name)
  superClass : c.superClass = 0 ∨ ∃ name, c.pool.get? c.superClass = some (.classRef name)
  interfaces : c.interfaces.length < 65536 ∧
    ∀ index ∈ c.interfaces, ∃ name, c.pool.get? index = some (.classRef name)
  fields : c.fields.size < 65536 ∧ ∀ m ∈ c.fields, m.Sound c.pool
  methods : c.methods.size < 65536 ∧ ∀ m ∈ c.methods, m.Sound c.pool
  attributes : c.attributes.length < 65536 ∧ ∀ a ∈ c.attributes, a.Fits
  attributeNames : ∀ a ∈ c.attributes, ∃ bytes, c.pool.get? a.name = some (.utf8 bytes)

theorem read_eq_ok_iff {c : ClassFile} :
    read s = .ok c t ↔ (c.Sound ∧ c.pool.Short) ∧ s.Passes c.write t ∧ t.rest = [] := by
  have texts (attributes : List Attribute) (pool : Pool) {u : Unit} :
      (attributes.forM fun a => pool.expectText a.name) = .ok u ↔
        ∀ a ∈ attributes, ∃ bytes, pool.get? a.name = some (.utf8 bytes) := by
    rw [List.forM_eq_forM, Code.forM_eq_ok_iff]
    simp only [Pool.expectText_eq_ok_iff]
  unfold read
  simp only [bind_eq_ok_iff, guard_eq_ok_iff, pure_eq_ok_iff, u16_eq_ok_iff, u32_eq_ok_iff,
    Pool.reads _ _ _, reads_readClassIndex _ _ _, reads_readOptionalClassIndex _ _ _,
    times_eq_ok_iff reads_readClassIndex, reads_readMembers _ _ _, Attribute.readsAll _ _ _,
    require_eq_ok_iff, texts, remaining_eq_ok_iff, write, passes_append_iff]
  constructor
  · rintro ⟨number, s₁, h₁, isMagic, minor, s₂, h₂, major, s₃, h₃, version, pool, s₄,
      ⟨⟨sound, short⟩, h₄⟩, access, s₅, h₅, this, s₆, ⟨isThis, h₆⟩, super, s₇, ⟨isSuper, h₇⟩,
      count, s₈, h₈, interfaces, s₉, ⟨length, isInterface, h₉⟩, fields, s₁₀, ⟨areFields, h₁₀⟩,
      methods, s₁₁, ⟨areMethods, h₁₁⟩, attributes, s₁₂, ⟨fit, h₁₂⟩, _, _, ⟨named, rfl⟩, unread, _,
      ⟨behind, rfl⟩, none, rfl, rfl⟩
    obtain rfl : unread = 0 := Decidable.not_not.1 none
    obtain rfl : number = magic := Decidable.not_not.1 isMagic
    simp only [Bool.or_eq_true, decide_eq_true_eq, not_or, UInt16.not_lt] at version
    refine ⟨⟨⟨version, sound, isThis, isSuper, ⟨?_, isInterface⟩, areFields, areMethods, fit,
      named⟩, short⟩, ⟨s₁₁, ⟨s₁₀, ⟨s₉, ⟨s₈, ⟨s₇, ⟨s₆, ⟨s₅, ⟨s₄, ⟨s₃, ⟨s₂, ⟨s₁, h₁, h₂⟩, h₃⟩, h₄⟩,
      h₅⟩, h₆⟩, h₇⟩, ?_⟩, h₉⟩, h₁₀⟩, h₁₁⟩, h₁₂⟩, List.length_eq_zero_iff.1 behind⟩
    · rw [length]
      exact count.toNat_lt
    · rw [length, UInt16.ofNat_toNat]
      exact h₈
  · rintro ⟨⟨sound, short⟩, ⟨s₁₁, ⟨s₁₀, ⟨s₉, ⟨s₈, ⟨s₇, ⟨s₆, ⟨s₅, ⟨s₄, ⟨s₃, ⟨s₂, ⟨s₁, h₁, h₂⟩, h₃⟩,
      h₄⟩, h₅⟩, h₆⟩, h₇⟩, h₈⟩, h₉⟩, h₁₀⟩, h₁₁⟩, h₁₂⟩, behind⟩
    refine ⟨_, s₁, h₁, not_not_intro rfl, _, s₂, h₂, _, s₃, h₃, ?_, _, s₄,
      ⟨⟨sound.pool, short⟩, h₄⟩, _, s₅, h₅, _, s₆, ⟨sound.thisClass, h₆⟩, _, s₇,
      ⟨sound.superClass, h₇⟩, _, s₈, h₈, _, s₉, ⟨?_, sound.interfaces.2, h₉⟩, _, s₁₀,
      ⟨sound.fields, h₁₀⟩, _, s₁₁, ⟨sound.methods, h₁₁⟩, _, t, ⟨sound.attributes, h₁₂⟩, (), t,
      ⟨sound.attributeNames, rfl⟩, _, t, ⟨rfl, rfl⟩, ?_, rfl, rfl⟩
    · simp only [Bool.or_eq_true, decide_eq_true_eq, not_or, UInt16.not_lt]
      exact sound.version
    · exact (UInt16.toNat_ofNat_of_lt' sound.interfaces.1).symm
    · rw [behind]
      exact not_not_intro rfl

/-- A class file is read from just those bytes that it is written as, if it can be written and no
text is too long. -/
theorem parse_eq_ok_iff {c : ClassFile} {bytes : Bytes} :
    parse bytes = .ok c ↔ (c.Sound ∧ c.pool.Short) ∧ bytes = c.write :=
  parse_eq_ok_iff_of_reads_all fun _ _ => read_eq_ok_iff

/-- What was read is written back to the same bytes. -/
theorem write_of_parse {c : ClassFile} {bytes : Bytes} (h : parse bytes = .ok c) :
    c.write = bytes :=
  (parse_eq_ok_iff.1 h).2.symm

/-- A class with a number that takes two slots and a method that loads it. -/
def longClassBytes : Bytes :=
  [0xCA, 0xFE, 0xBA, 0xBE, 0, 0, 0, 52,
    -- seven slots behind slot 0: `A`, its class, `Code`, `()V`, a `long`, and `m`
    0, 8, 1, 0, 1, 0x41, 7, 0, 1, 1, 0, 4, 0x43, 0x6F, 0x64, 0x65, 1, 0, 3, 0x28, 0x29, 0x56,
    5, 0, 0, 0, 0, 0, 0, 0, 1, 1, 0, 1, 0x6D,
    -- flags, the class, no superclass, no interfaces, no fields
    0, 0x21, 0, 2, 0, 0, 0, 0, 0, 0,
    -- the method and its body
    0, 1, 0, 1, 0, 7, 0, 4, 0, 1, 0, 3, 0, 0, 0, 17, 0, 2, 0, 1, 0, 0, 0, 5,
    0x14, 0, 5, 0x58, 0xB1, 0, 0, 0, 0, 0, 0]

/-- The class in `longClassBytes`. -/
def longClass : ClassFile where
  minorVersion := 0
  majorVersion := 52
  pool := ⟨#[none, some (.utf8 [0x41]), some (.classRef 1), some (.utf8 [0x43, 0x6F, 0x64, 0x65]),
    some (.utf8 [0x28, 0x29, 0x56]), some (.long 1), none, some (.utf8 [0x6D])]⟩
  access := Access.public ||| Access.super
  thisClass := 2
  superClass := 0
  interfaces := []
  fields := #[]
  methods := #[{ access := Access.public, name := 7, descriptor := 4
                 attributes := [.code 3 ⟨2, 1, #[0x14, 0, 5, 0x58, 0xB1], [], []⟩] }]
  attributes := []

theorem parse_longClass : parse longClassBytes = .ok longClass :=
  Except.eq_ok_of_toOption (by decide +kernel)

theorem write_of_parse_longClassBytes :
    parse longClassBytes = .ok longClass ∧ longClass.write = longClassBytes :=
  ⟨parse_longClass, write_of_parse parse_longClass⟩

end ClassFile

end Clarify
