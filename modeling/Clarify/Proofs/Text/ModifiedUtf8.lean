import Clarify.Text.ModifiedUtf8

/-!
# Text in class files reads back

Encoding a text and reading the bytes gives the text again.

Results:
* `units_encodeUnits`: the units are read back as they were.
* `decodeLossy_ofString`: the characters of a text are read back from its units.
* `decode_encode`: a text is read back from its bytes.
* `encode_canonical`: what the bytes of a text are made of, and that no other bytes are written
  again as they were read.
-/

namespace Clarify

/-! ## Units -/

namespace ModifiedUtf8

theorem isTail_iff (b : UInt8) : isTail b = true ↔ 0x80 ≤ b.toNat ∧ b.toNat < 0xC0 := by
  simp [isTail, UInt8.le_iff_toNat_le, UInt8.lt_iff_toNat_lt]

theorem next_of_one {b : UInt8} (hb : b.toNat < 0x80) (rest : Bytes) :
    next b rest = (UInt16.ofNat b.toNat, rest) := by
  have one : b < 0x80 := UInt8.lt_iff_toNat_lt.2 hb
  have value : b.toUInt16 = UInt16.ofNat b.toNat := by
    rw [← UInt8.toNat_toUInt16, UInt16.ofNat_toNat]
  unfold next
  rw [if_pos one, value]

theorem next_of_two {b c : UInt8} (lo : 0xC0 ≤ b.toNat) (hi : b.toNat < 0xE0)
    (tail : isTail c = true) (rest : Bytes) :
    next b (c :: rest) =
      (UInt16.ofNat ((b.toNat - 0xC0) * 0x40 + (c.toNat - 0x80)), rest) := by
  have notOne : ¬ b < 0x80 := by
    rw [UInt8.lt_iff_toNat_lt]
    exact Nat.not_lt.2 (Nat.le_trans (by decide) lo)
  have two : (0xC0 ≤ b && b < 0xE0) = true := by
    rw [Bool.and_eq_true, decide_eq_true_eq, decide_eq_true_eq]
    exact ⟨UInt8.le_iff_toNat_le.2 lo, UInt8.lt_iff_toNat_lt.2 hi⟩
  unfold next
  simp only [if_neg notOne, if_pos two, if_pos tail]

theorem next_of_three {b c d : UInt8} (lo : 0xE0 ≤ b.toNat) (hi : b.toNat < 0xF0)
    (tail : isTail c = true) (tail' : isTail d = true) (rest : Bytes) :
    next b (c :: d :: rest) =
      (UInt16.ofNat ((b.toNat - 0xE0) * 0x1000 + (c.toNat - 0x80) * 0x40 + (d.toNat - 0x80)),
        rest) := by
  have notOne : ¬ b < 0x80 := by
    rw [UInt8.lt_iff_toNat_lt]
    exact Nat.not_lt.2 (Nat.le_trans (by decide) lo)
  have notTwo : ¬ (0xC0 ≤ b && b < 0xE0) = true := by
    rw [Bool.and_eq_true, decide_eq_true_eq, decide_eq_true_eq, UInt8.lt_iff_toNat_lt]
    exact fun h => Nat.not_lt.2 lo h.2
  have three : (0xE0 ≤ b && b < 0xF0) = true := by
    rw [Bool.and_eq_true, decide_eq_true_eq, decide_eq_true_eq]
    exact ⟨UInt8.le_iff_toNat_le.2 lo, UInt8.lt_iff_toNat_lt.2 hi⟩
  have tails : (isTail c && isTail d) = true := by rw [tail, tail']; rfl
  unfold next
  simp only [if_neg notOne, if_neg notTwo, if_pos three, if_pos tails]

/-- A unit is read back from its bytes. -/
theorem next_encodeUnit (u : UInt16) (rest : Bytes) :
    ∃ b tail, encodeUnit u = b :: tail ∧ next b (tail ++ rest) = (u, rest) := by
  have hu := u.toNat_lt
  have byte {n : Nat} (hn : n < 256) : (UInt8.ofNat n).toNat = n := UInt8.toNat_ofNat_of_lt hn
  have tail (n : Nat) : isTail (UInt8.ofNat (0x80 + n % 0x40)) = true := by
    rw [isTail_iff, byte (by omega)]
    omega
  unfold encodeUnit
  simp only
  split
  · next short =>
    refine ⟨_, _, rfl, ?_⟩
    rw [List.nil_append, next_of_one (by rw [byte (by omega)]; exact short.2), byte (by omega),
      UInt16.ofNat_toNat]
  split
  · next long two =>
    refine ⟨_, _, rfl, ?_⟩
    have value : (0xC0 + u.toNat / 0x40 - 0xC0) * 0x40 + (0x80 + u.toNat % 0x40 - 0x80) =
      u.toNat := by omega
    have first : (UInt8.ofNat (0xC0 + u.toNat / 0x40)).toNat = 0xC0 + u.toNat / 0x40 :=
      byte (by omega)
    rw [List.cons_append, List.nil_append,
      next_of_two (by omega) (by omega) (tail _), first, byte (by omega), value, UInt16.ofNat_toNat]
  · next long three =>
    refine ⟨_, _, rfl, ?_⟩
    have value : (0xE0 + u.toNat / 0x1000 - 0xE0) * 0x1000 +
        (0x80 + u.toNat / 0x40 % 0x40 - 0x80) * 0x40 + (0x80 + u.toNat % 0x40 - 0x80) =
      u.toNat := by omega
    have first : (UInt8.ofNat (0xE0 + u.toNat / 0x1000)).toNat = 0xE0 + u.toNat / 0x1000 :=
      byte (by omega)
    rw [List.cons_append, List.cons_append, List.nil_append,
      next_of_three (by omega) (by omega) (tail _) (tail _), first, byte (by omega),
      byte (by omega), value, UInt16.ofNat_toNat]

/-- The units are read back as they were. -/
theorem units_encodeUnits (us : List UInt16) : units (encodeUnits us) = us := by
  induction us with
  | nil => simp [encodeUnits, units, unitsOnto]
  | cons u us ih =>
    obtain ⟨b, tail, bytes, read⟩ := next_encodeUnit u (encodeUnits us)
    rw [encodeUnits_cons, bytes, List.cons_append, units_cons, read, ih]

/-- The bytes of a unit: none is zero, and none announces a fourth byte. -/
theorem range_of_mem_encodeUnit {u : UInt16} {b : UInt8} (mem : b ∈ encodeUnit u) :
    b ≠ 0 ∧ b < 0xF0 := by
  have hu := u.toNat_lt
  have range {n : Nat} (pos : 0 < n) (hn : n < 0xF0) :
      UInt8.ofNat n ≠ 0 ∧ UInt8.ofNat n < 0xF0 := by
    have byte : n < 256 := by omega
    have value : (UInt8.ofNat n).toNat = n := UInt8.toNat_ofNat_of_lt byte
    constructor
    · intro zero
      rw [zero, UInt8.toNat_zero] at value
      omega
    · rw [UInt8.lt_iff_toNat_lt, value]
      exact hn
  unfold encodeUnit at mem
  simp only at mem
  split at mem
  · next short =>
    obtain rfl := List.mem_singleton.1 mem
    exact range (by omega) (by omega)
  split at mem
  · next long two =>
    simp only [List.mem_cons, List.not_mem_nil, or_false] at mem
    rcases mem with rfl | rfl
    · exact range (by omega) (by omega)
    · exact range (by omega) (by omega)
  · next long three =>
    -- the last two bytes carry six bits each, the first one the four that are left
    simp only [List.mem_cons, List.not_mem_nil, or_false] at mem
    rcases mem with rfl | rfl | rfl
    · exact range (by omega) (by omega)
    · exact range (by omega) (by omega)
    · exact range (by omega) (by omega)

theorem range_of_mem_encode {text : String} {b : UInt8} (mem : b ∈ encode text) :
    b ≠ 0 ∧ b < 0xF0 := by
  obtain ⟨u, -, memUnit⟩ := List.mem_flatMap.1 mem
  exact range_of_mem_encodeUnit memUnit

end ModifiedUtf8

/-! ## Characters -/

namespace Utf16

theorem isHigh_iff (u : UInt16) : isHigh u = true ↔ 0xD800 ≤ u.toNat ∧ u.toNat < 0xDC00 := by
  simp [isHigh, UInt16.le_iff_toNat_le, UInt16.lt_iff_toNat_lt]

theorem isLow_iff (u : UInt16) : isLow u = true ↔ 0xDC00 ≤ u.toNat ∧ u.toNat < 0xE000 := by
  simp [isLow, UInt16.le_iff_toNat_le, UInt16.lt_iff_toNat_lt]

/-- A character is read from its units. -/
theorem itemsOnto_ofChar (acc : List Item) (c : Char) (rest : List UInt16) :
    itemsOnto acc (ofChar c ++ rest) = itemsOnto (.char c :: acc) rest := by
  have valid : c.toNat < 0xD800 ∨ 0xDFFF < c.toNat ∧ c.toNat < 0x110000 := c.valid
  have word {n : Nat} (hn : n < 65536) : (UInt16.ofNat n).toNat = n :=
    UInt16.toNat_ofNat_of_lt hn
  unfold ofChar
  simp only
  split
  · next basic =>
    have unit := word basic
    have notHigh : ¬ isHigh (UInt16.ofNat c.toNat) = true := by rw [isHigh_iff, unit]; omega
    have notLow : ¬ isLow (UInt16.ofNat c.toNat) = true := by rw [isLow_iff, unit]; omega
    rw [List.singleton_append, itemsOnto.eq_def]
    simp only
    rw [if_neg notHigh, if_neg notLow, unit, Char.ofNat_toNat]
  · next supplementary =>
    have hi : (UInt16.ofNat (0xD800 + (c.toNat - 0x10000) / 0x400)).toNat =
        0xD800 + (c.toNat - 0x10000) / 0x400 := word (by omega)
    have lo : (UInt16.ofNat (0xDC00 + (c.toNat - 0x10000) % 0x400)).toNat =
        0xDC00 + (c.toNat - 0x10000) % 0x400 := word (by omega)
    have high : isHigh (UInt16.ofNat (0xD800 + (c.toNat - 0x10000) / 0x400)) = true := by
      rw [isHigh_iff, hi]; omega
    have low : isLow (UInt16.ofNat (0xDC00 + (c.toNat - 0x10000) % 0x400)) = true := by
      rw [isLow_iff, lo]; omega
    have value : 0x10000 + (0xD800 + (c.toNat - 0x10000) / 0x400 - 0xD800) * 0x400 +
        (0xDC00 + (c.toNat - 0x10000) % 0x400 - 0xDC00) = c.toNat := by omega
    rw [List.cons_append, List.cons_append, List.nil_append, itemsOnto, if_pos high, if_pos low,
      ofPair, hi, lo, value, Char.ofNat_toNat]

theorem itemsOnto_ofChars (acc : List Item) (chars : List Char) :
    itemsOnto acc (ofChars chars) = acc.reverse ++ chars.map .char := by
  induction chars generalizing acc with
  | nil => rw [ofChars, List.flatMap_nil, itemsOnto, List.map_nil, List.append_nil]
  | cons c chars ih =>
    rw [ofChars_cons, itemsOnto_ofChar, ih, List.reverse_cons, List.append_assoc]
    rfl

/-- The characters of a text are read back from its units. -/
theorem decodeLossy_ofString (text : String) : decodeLossy (ofString text) = text := by
  have lossy : Item.lossy ∘ Item.char = id := rfl
  rw [decodeLossy, ofString, items, itemsOnto_ofChars, List.reverse_nil, List.nil_append,
    List.map_map, lossy, List.map_id, String.ofList_toList]

/-- No unit of a text stands alone. -/
theorem decode?_ofString (text : String) : decode? (ofString text) = some text := by
  have all (chars : List Char) : (chars.map Item.char).mapM Item.char? = some chars := by
    induction chars with
    | nil => rfl
    | cons c chars ih =>
      rw [List.map_cons, List.mapM_cons, ih]
      rfl
  rw [decode?, ofString, items, itemsOnto_ofChars, List.reverse_nil, List.nil_append, all,
    Option.map_some, String.ofList_toList]

end Utf16

/-- A text is read back from its bytes. -/
theorem ModifiedUtf8.decode_encode (text : String) : decode (encode text) = text := by
  rw [decode, encode, units_encodeUnits, Utf16.decodeLossy_ofString]

/-- A text is read back from its bytes, as characters and as UTF-16 units, and these have neither
a zero byte nor one that UTF-8 would begin four bytes with. Bytes are written again as they were
read exactly when they are the bytes of a text: what reading repairs stays repaired. -/
theorem ModifiedUtf8.encode_canonical :
    (∀ text, decode (encode text) = text ∧ (∀ b ∈ encode text, b ≠ 0 ∧ b < 0xF0) ∧
      units (encode text) = Utf16.ofString text) ∧
    ∀ bytes, encode (decode bytes) = bytes ↔ ∃ text, bytes = encode text := by
  constructor
  · intro text
    exact ⟨decode_encode text, fun b => range_of_mem_encode, units_encodeUnits _⟩
  · intro bytes
    constructor
    · intro again
      exact ⟨decode bytes, again.symm⟩
    · rintro ⟨text, rfl⟩
      rw [decode_encode]

end Clarify
