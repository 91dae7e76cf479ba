import Clarify.Proofs.ClassFile.WellFormed

/-!
# What readers consume

A reader that returns a value has passed some bytes: they were in front of the cursor, and now
they are behind it. For the readers of words and rows this says when they succeed as well.

Results:
* `passes_append_iff`: passing two byte strings is passing one after the other.
* `u16_eq_ok_iff`, `take_eq_ok_iff`: a word or a stretch of bytes is read where it stands.
* `times_eq_ok_iff`, `counted_eq_ok_iff`: a row is read where its items stand one behind the other.
-/

namespace Clarify

/-- The second cursor stands right behind the given bytes, which are in front of the first one. -/
def Cursor.Passes (s : Cursor) (bytes : Bytes) (t : Cursor) : Prop :=
  s.rest = bytes ++ t.rest ∧ t.offset = s.offset + bytes.length

namespace Cursor

variable {s t u : Cursor} {a b : Bytes}

theorem passes_nil_iff : s.Passes [] t ↔ s = t := by
  obtain ⟨rest, offset⟩ := s
  obtain ⟨rest', offset'⟩ := t
  simp only [Passes, List.nil_append, List.length_nil, Nat.add_zero, Cursor.mk.injEq]
  exact and_congr_right fun _ => eq_comm

theorem Passes.eq_mk (h : s.Passes a t) :
    ∃ rest offset, s = ⟨a ++ rest, offset⟩ ∧ t = ⟨rest, offset + a.length⟩ := by
  obtain ⟨rest, offset⟩ := s
  obtain ⟨rest', offset'⟩ := t
  obtain ⟨front, place⟩ := h
  dsimp only at front place
  exact ⟨rest', offset, by rw [front], by rw [place]⟩

theorem passes_append_iff : s.Passes (a ++ b) t ↔ ∃ u, s.Passes a u ∧ u.Passes b t := by
  constructor
  · rintro ⟨rest, offset⟩
    refine ⟨⟨b ++ t.rest, s.offset + a.length⟩, ⟨?_, rfl⟩, rfl, ?_⟩
    · rw [rest, List.append_assoc]
    · rw [offset, List.length_append, Nat.add_assoc]
  · rintro ⟨u, ⟨rest, offset⟩, rest', offset'⟩
    refine ⟨?_, ?_⟩
    · rw [rest, rest', List.append_assoc]
    · rw [offset', offset, List.length_append, Nat.add_assoc]

end Cursor

namespace Reader

open Cursor

variable {α β : Type} {s t : Cursor}

/-- The reader takes exactly what fits, in its written form. -/
def Reads (item : Reader α) (fits : α → Prop) (write : α → Bytes) : Prop :=
  ∀ s a t, item s = .ok a t ↔ fits a ∧ s.Passes (write a) t

/-! ## Bytes and words -/

theorem u8_eq_ok_iff {b : UInt8} : u8 s = .ok b t ↔ s.Passes [b] t := by
  obtain ⟨rest, offset⟩ := s
  obtain ⟨rest', offset'⟩ := t
  rw [u8, Passes]
  rcases rest with _ | ⟨x, rest⟩
  · simp
  · simp only [EStateM.Result.ok.injEq, Cursor.mk.injEq, List.singleton_append, List.cons.injEq,
      List.length_singleton, and_assoc]
    exact and_congr_right fun _ => and_congr_right fun _ => eq_comm

theorem u16_eq_ok_iff {w : UInt16} : u16 s = .ok w t ↔ s.Passes (be16 w) t := by
  constructor
  · intro h
    unfold u16 at h
    split at h
    · next hi lo rest eq =>
      cases h
      rw [Passes, be16_word16, eq]
      exact ⟨rfl, rfl⟩
    · cases h
  · intro h
    obtain ⟨rest, offset, rfl, rfl⟩ := h.eq_mk
    exact u16_cons w rest offset

theorem u32_eq_ok_iff {w : UInt32} : u32 s = .ok w t ↔ s.Passes (be32 w) t := by
  constructor
  · intro h
    unfold u32 at h
    split at h
    · next b0 b1 b2 b3 rest eq =>
      cases h
      rw [Passes, be32_word32, eq]
      exact ⟨rfl, rfl⟩
    · cases h
  · intro h
    obtain ⟨rest, offset, rfl, rfl⟩ := h.eq_mk
    exact u32_cons w rest offset

theorem word64_halves (w : UInt64) :
    word64 (UInt32.ofNat (w.toNat / 4294967296)) (UInt32.ofNat w.toNat) = w := by
  have := w.toNat_lt
  apply UInt64.toNat_inj.1
  simp only [word64, UInt32.toNat_ofNat', UInt64.toNat_ofNat']
  omega

theorem be64_word64 (hi lo : UInt32) : be64 (word64 hi lo) = be32 hi ++ be32 lo := by
  have := hi.toNat_lt
  have := lo.toNat_lt
  have value : (word64 hi lo).toNat = hi.toNat * 4294967296 + lo.toNat := by
    simp only [word64, UInt64.toNat_ofNat']
    omega
  have high : UInt32.ofNat ((word64 hi lo).toNat / 4294967296) = hi := by
    apply UInt32.toNat_inj.1
    simp only [value, UInt32.toNat_ofNat']
    omega
  have low : UInt32.ofNat (word64 hi lo).toNat = lo := by
    apply UInt32.toNat_inj.1
    simp only [value, UInt32.toNat_ofNat']
    omega
  rw [be64, high, low]

theorem u64_eq_ok_iff {w : UInt64} : u64 s = .ok w t ↔ s.Passes (be64 w) t := by
  simp only [u64, bind_eq_ok_iff, pure_eq_ok_iff, u32_eq_ok_iff]
  constructor
  · rintro ⟨hi, u, first, lo, v, second, rfl, rfl⟩
    rw [be64_word64, passes_append_iff]
    exact ⟨u, first, second⟩
  · intro h
    obtain ⟨u, first, second⟩ := passes_append_iff.1 h
    exact ⟨_, u, first, _, t, second, word64_halves w, rfl⟩

theorem take_eq_ok_iff {n : Nat} {bytes : Bytes} :
    take n s = .ok bytes t ↔ bytes.length = n ∧ s.Passes bytes t := by
  constructor
  · intro h
    unfold take at h
    dsimp only at h
    split at h
    · next enough =>
      cases h
      refine ⟨enough, (List.take_append_drop n s.rest).symm, ?_⟩
      rw [enough]
    · cases h
  · rintro ⟨rfl, h⟩
    obtain ⟨rest, offset, rfl, rfl⟩ := h.eq_mk
    exact take_eq_ok bytes rest offset

theorem remaining_eq_ok_iff {n : Nat} : remaining s = .ok n t ↔ s.rest.length = n ∧ s = t := by
  rw [remaining, EStateM.Result.ok.injEq]

theorem parse_eq_ok_iff {item : Reader α} {bytes : Bytes} {a : α} :
    parse item bytes = .ok a ↔ ∃ t, item (Cursor.start bytes) = .ok a t := by
  rw [parse, EStateM.run]
  split
  · next here => simp [here]
  · next here => simp [here]

/-- An item that goes up to the end of the bytes is parsed from its written form only. -/
theorem parse_eq_ok_iff_of_reads_all {item : Reader α} {a : α} {fits : Prop} {written : Bytes}
    (h : ∀ s t, item s = .ok a t ↔ fits ∧ s.Passes written t ∧ t.rest = []) {bytes : Bytes} :
    parse item bytes = .ok a ↔ fits ∧ bytes = written := by
  simp only [parse_eq_ok_iff, h]
  constructor
  · rintro ⟨t, fit, ⟨rest, -⟩, behind⟩
    rw [behind, List.append_nil] at rest
    exact ⟨fit, rest⟩
  · rintro ⟨fit, rfl⟩
    exact ⟨⟨[], bytes.length⟩, fit, ⟨(List.append_nil _).symm, (Nat.zero_add _).symm⟩, rfl⟩

/-! ## Rows -/

theorem timesOnto_eq_ok_iff {item : Reader α} {fits : α → Prop} {write : α → Bytes}
    (reads : Reads item fits write) {n : Nat} {acc row : List α} :
    timesOnto item n acc s = .ok row t ↔ ∃ l, row = acc.reverse ++ l ∧ l.length = n ∧
      (∀ a ∈ l, fits a) ∧ s.Passes (l.flatMap write) t := by
  induction n generalizing acc s with
  | zero =>
    rw [timesOnto, pure_eq_ok_iff]
    constructor
    · rintro ⟨rfl, rfl⟩
      exact ⟨[], by simp, rfl, List.forall_mem_nil _, passes_nil_iff.2 rfl⟩
    · rintro ⟨l, rfl, empty, -, passes⟩
      obtain rfl := List.length_eq_zero_iff.1 empty
      exact ⟨by simp, passes_nil_iff.1 passes⟩
  | succ n ih =>
    simp only [timesOnto, bind_eq_ok_iff, reads _ _ _, ih]
    constructor
    · rintro ⟨a, u, ⟨fit, first⟩, l, rfl, rfl, fits, rest⟩
      refine ⟨a :: l, by simp, rfl, ?_, passes_append_iff.2 ⟨u, first, rest⟩⟩
      rintro b hb
      obtain rfl | hb := List.mem_cons.1 hb
      · exact fit
      · exact fits b hb
    · rintro ⟨l, rfl, length, fits, passes⟩
      obtain ⟨a, l, rfl⟩ := List.exists_cons_of_length_eq_add_one length
      obtain ⟨u, first, rest⟩ := passes_append_iff.1 passes
      refine ⟨a, u, ⟨fits a (by simp), first⟩, l, by simp, ?_, fun b hb => fits b (by simp [hb]),
        rest⟩
      simpa using length

theorem times_eq_ok_iff {item : Reader α} {fits : α → Prop} {write : α → Bytes}
    (reads : Reads item fits write) {n : Nat} {row : List α} :
    times n item s = .ok row t ↔ row.length = n ∧ (∀ a ∈ row, fits a) ∧
      s.Passes (row.flatMap write) t := by
  rw [times, timesOnto_eq_ok_iff reads]
  simp only [List.reverse_nil, List.nil_append]
  exact ⟨fun ⟨l, same, h⟩ => same ▸ h, fun h => ⟨row, rfl, h⟩⟩

/-- A row behind the number of its items. -/
theorem counted_eq_ok_iff {item : Reader α} {fits : α → Prop} {write : α → Bytes}
    (reads : Reads item fits write) {row : List α} :
    (∃ count u, s.Passes (be16 count) u ∧ times count.toNat item u = .ok row t) ↔
      row.length < 65536 ∧ (∀ a ∈ row, fits a) ∧
        s.Passes (be16 (UInt16.ofNat row.length) ++ row.flatMap write) t := by
  simp only [times_eq_ok_iff reads, passes_append_iff]
  constructor
  · rintro ⟨count, u, number, length, fits, rest⟩
    refine ⟨?_, fits, u, ?_, rest⟩
    · rw [length]
      exact count.toNat_lt
    · rw [length, UInt16.ofNat_toNat]
      exact number
  · rintro ⟨small, fits, u, number, rest⟩
    exact ⟨_, u, number, (UInt16.toNat_ofNat_of_lt' small).symm, fits, rest⟩

end Reader

end Clarify
