import Clarify.Archive.Entry

/-!
# What entries contain

The name of an entry says whether it contains a class, and new contents are read back. New contents
are written in blocks of plain bytes, so reading them back needs no codes: the head of each block
tells its kind and whether it is the last one, and its length is written twice.

Results:
* `kind_eq_bytecodeUnit_iff`: which entries contain a class.
* `decompress?_compress`: what is compressed is found again.
* `content_withContent`: the new contents of an entry are read back.
-/

namespace Clarify

/-! ## Classes by name -/

theorem endsWith_iff {name suffix : String} :
    name.endsWith suffix = true ↔ suffix.toList <:+ name.toList := by
  rw [← String.endsWith_toSlice, String.Slice.endsWith_string_iff, String.copy_toSlice]

/-- A name that ends like that of a class ends in no separator. -/
theorem not_endsWith_singleton {name : String} {c : Char} (isUnit : name.endsWith ".class" = true)
    (other : c ≠ 's') : name.endsWith (String.singleton c) = false := by
  rw [Bool.eq_false_iff, ne_eq, endsWith_iff]
  rintro ⟨front, ends⟩
  obtain ⟨front', ends'⟩ := endsWith_iff.1 isUnit
  have last := congrArg List.getLast? (ends.trans ends'.symm)
  simp at last
  exact other last

theorem EntryKind.ofName_eq_bytecodeUnit_iff {name : String} :
    ofName name = .bytecodeUnit ↔ name.endsWith ".class" = true := by
  unfold ofName
  by_cases isUnit : name.endsWith ".class" = true
  · have unseparated : name.endsWith "/" = false :=
      not_endsWith_singleton isUnit (c := '/') (by decide)
    simp [unseparated, isUnit]
  · rw [if_neg isUnit]
    split <;> simp [isUnit]

/-- The separator of another sort that counts for entries makes no difference for classes. -/
theorem Archive.Entry.kind_eq_bytecodeUnit_iff {e : Archive.Entry} :
    e.kind = .bytecodeUnit ↔ e.name.endsWith ".class" = true := by
  rw [kind, ← EntryKind.ofName_eq_bytecodeUnit_iff]
  split
  · next separated =>
    refine iff_of_false (by simp) fun isUnit => ?_
    have unseparated : e.name.endsWith "\\" = false :=
      not_endsWith_singleton (EntryKind.ofName_eq_bytecodeUnit_iff.1 isUnit) (c := '\\') (by decide)
    rw [separated] at unseparated
    cases unseparated
  · rfl

/-! ## Blocks of plain bytes -/

namespace Deflate

theorem number_le16 {n : Nat} (h : n < 65536) :
    (UInt8.ofNat n).toNat + 256 * (UInt8.ofNat (n / 256)).toNat = n := by
  simp only [UInt8.toNat_ofNat']
  omega

theorem plainBytes_append (begun : List Bool) (front rest : Bytes) (out : Array UInt8) :
    plainBytes front.length ⟨⟨begun, front ++ rest⟩, out⟩ =
      .ok () ⟨⟨[], rest⟩, out.appendList front⟩ := by
  simp [plainBytes, Bits.wholeBytes]

theorem plainBlock_append {front : Bytes} (short : front.length ≤ blockSize) (begun : List Bool)
    (rest : Bytes) (out : Array UInt8) :
    plainBlock ⟨⟨begun, le16 front.length ++ le16 (65535 - front.length) ++ front ++ rest⟩, out⟩ =
      .ok () ⟨⟨[], rest⟩, out.appendList front⟩ := by
  unfold blockSize at short
  have length := number_le16 (n := front.length) (by omega)
  have inverse := number_le16 (n := 65535 - front.length) (by omega)
  simp only [le16, List.cons_append, List.nil_append, plainBlock, bind, EStateM.bind, plainByte,
    reading, Bits.wholeBytes]
  rw [length, inverse, if_neg (by omega)]
  exact plainBytes_append [] front rest out

/-- The head of a block says whether it is the last one, and that its bytes are plain. -/
theorem blocksFrom_append (steps blocks : Nat) (last : Bool) {front : Bytes}
    (short : front.length ≤ blockSize) (rest : Bytes) (out : Array UInt8) :
    blocksFrom steps (blocks + 1) ⟨⟨[], (if last then 1 else 0) :: (le16 front.length
      ++ le16 (65535 - front.length) ++ front ++ rest)⟩, out⟩ =
    if last then .ok () ⟨⟨[], rest⟩, out.appendList front⟩
    else blocksFrom steps blocks ⟨⟨[], rest⟩, out.appendList front⟩ := by
  have isLast (body : Bytes) : number 1 ⟨⟨[], (if last then 1 else 0) :: body⟩, out⟩ =
      .ok last.toNat ⟨⟨List.replicate 7 false, body⟩, out⟩ := by
    cases last <;> rfl
  have kind (body : Bytes) : number 2 ⟨⟨List.replicate 7 false, body⟩, out⟩ =
      .ok 0 ⟨⟨List.replicate 5 false, body⟩, out⟩ := rfl
  rw [blocksFrom]
  simp only [bind, EStateM.bind]
  rw [isLast]
  dsimp only
  rw [kind]
  dsimp only
  rw [show block steps 0 = plainBlock from rfl, plainBlock_append short]
  cases last <;> rfl

theorem plainBlocks_succ (blocks : Nat) (bytes : Bytes) :
    plainBlocks (blocks + 1) bytes =
      (if (bytes.drop blockSize).isEmpty then 1 else 0) :: (le16 (bytes.take blockSize).length
        ++ le16 (65535 - (bytes.take blockSize).length) ++ bytes.take blockSize
        ++ if (bytes.drop blockSize).isEmpty then []
          else plainBlocks blocks (bytes.drop blockSize)) :=
  rfl

/-- Blocks that hold all bytes are read back as these bytes. -/
theorem blocksFrom_plainBlocks (steps : Nat) {written blocks : Nat} {bytes : Bytes}
    (any : 0 < written) (enough : bytes.length ≤ written * blockSize)
    (room : (plainBlocks written bytes).length < blocks) (out : Array UInt8) :
    ∃ bits, blocksFrom steps blocks ⟨⟨[], plainBlocks written bytes⟩, out⟩ =
      .ok () ⟨bits, out.appendList bytes⟩ := by
  induction written generalizing blocks bytes out with
  | zero => contradiction
  | succ written ih =>
    obtain _ | blocks := blocks
    · contradiction
    rw [plainBlocks_succ] at room ⊢
    rw [blocksFrom_append steps blocks _ (List.length_take_le ..)]
    by_cases last : (bytes.drop blockSize).isEmpty = true
    · have all : bytes.take blockSize = bytes :=
        List.take_of_length_le (List.drop_eq_nil_iff.1 (List.isEmpty_iff.1 last))
      rw [if_pos last, all]
      exact ⟨_, rfl⟩
    · rw [if_neg last, if_neg last]
      simp only [if_neg last, List.length_append, List.length_cons] at room
      have more : 0 < (bytes.drop blockSize).length := by
        rw [List.isEmpty_iff] at last
        exact List.length_pos_iff.2 last
      rw [Nat.succ_mul] at enough
      obtain ⟨bits, rest⟩ := @ih blocks (bytes.drop blockSize)
        (Nat.pos_of_ne_zero fun none => by simp [none] at enough more; omega)
        (by rw [List.length_drop]; omega) (by omega) (out.appendList (bytes.take blockSize))
      have gathered : (out.appendList (bytes.take blockSize)).appendList (bytes.drop blockSize) =
          out.appendList bytes :=
        Array.ext' (by simp)
      exact ⟨bits, gathered ▸ rest⟩

theorem decompress?_compress (bytes : Bytes) : decompress? (compress bytes) = some bytes := by
  have enough : bytes.length ≤ (bytes.length / blockSize + 1) * blockSize := by
    unfold blockSize
    omega
  have room : (compress bytes).length < (Bits.ofBytes (compress bytes)).size + 1 := by
    simp only [Bits.size, Bits.ofBytes]
    omega
  obtain ⟨bits, read⟩ := blocksFrom_plainBlocks ((Bits.ofBytes (compress bytes)).size + 1)
    (Nat.succ_pos _) enough room #[]
  have read : blocksFrom ((Bits.ofBytes (compress bytes)).size + 1)
      ((Bits.ofBytes (compress bytes)).size + 1) ⟨Bits.ofBytes (compress bytes), #[]⟩ =
        .ok () ⟨bits, #[].appendList bytes⟩ := read
  simp only [decompress?, EStateM.run, read]
  simp

end Deflate

/-! ## New contents -/

namespace Archive.Entry

theorem content_ofContent (name : String) {packing : Packing} {bytes : Bytes}
    (known : packing.unpack? (packing.pack bytes) = some bytes) :
    (ofContent name packing bytes).content = .ok bytes := by
  cases packing with
  | stored => exact content_ofContent_stored name bytes
  | deflated => simp [ofContent, content, obstacle?, unpacked, known]
  | other code => cases known

/-- New contents of an entry are read back, in whichever way it is packed. -/
theorem content_withContent (e : Entry) (bytes : Bytes) :
    (e.withContent bytes).content = .ok bytes := by
  refine content_ofContent e.name ?_
  unfold packingAnew
  split
  · rfl
  · exact Deflate.decompress?_compress bytes

end Archive.Entry

end Clarify
