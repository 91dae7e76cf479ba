import Clarify.Archive.Huffman

/-!
# Deflate

The compressed form of archive entries: blocks of plain bytes, or of symbols that stand for bytes
and for repetitions of what came before. Writing uses blocks of plain bytes only.
-/

namespace Clarify.Deflate

/-! ## Reading -/

/-- Why reading stops before the end of the last block. -/
inductive Stop where
  /-- There are no bits left. -/
  | cutShort
  /-- The bits are no compressed data. -/
  | corrupt
deriving Repr, DecidableEq

/-- What is still to be read, and the bytes found so far. -/
structure Progress where
  bits : Bits
  out : Array UInt8

/-- A step of reading. -/
abbrev Step := EStateM Stop Progress

/-- Stops at bits that are no compressed data. -/
def corrupt {α : Type} : Step α := throw .corrupt

/-- What is read from the bits, if there are enough of them. -/
def reading {α : Type} (read : Bits → Option (α × Bits)) : Step α := fun p =>
  match read p.bits with
  | some (a, bits) => .ok a { p with bits }
  | none => .error .cutShort p

/-- Reads a number of `count` bits. -/
def number (count : Nat) : Step Nat := reading fun s => s.number? count

/-- Reads a symbol. Bits that begin no row of the code are no compressed data. -/
def symbol (code : Huffman) : Step Nat := fun p =>
  match code.next p.bits with
  | .symbol value bits => .ok value { p with bits }
  | .unused => .error .corrupt p
  | .noBits => .error .cutShort p

/-- Appends a byte to what was found. -/
def found (b : UInt8) : Step Unit := modify fun p => { p with out := p.out.push b }

/-- Goes on at the next whole byte and reads a byte. -/
def plainByte : Step UInt8 := reading fun s =>
  match s.wholeBytes with
  | b :: rest => some (b, ⟨[], rest⟩)
  | [] => none

/-- Appends `count` bytes as they stand, or as many as there are. -/
def plainBytes (count : Nat) : Step Unit := fun p =>
  let bytes := p.bits.wholeBytes
  let p' : Progress := ⟨⟨[], bytes.drop count⟩, p.out.appendList (bytes.take count)⟩
  if count ≤ bytes.length then .ok () p' else .error .cutShort p'

/-- Appends `count` bytes that stand `distance` bytes before the end of what there is, and may
reach into the bytes appended themselves. -/
def repeated (distance count : Nat) (out : Array UInt8) : Array UInt8 :=
  match count with
  | 0 => out
  | count + 1 => repeated distance count (out.push (out.getD (out.size - distance) 0))

/-- The smallest value of each symbol for a length or a distance, and how many bits are added. -/
abbrev Ranges := Array (Nat × Nat)

/-- The lengths of repetitions, from symbol 257 on. -/
def lengthRanges : Ranges := #[
  (3, 0), (4, 0), (5, 0), (6, 0), (7, 0), (8, 0), (9, 0), (10, 0), (11, 1), (13, 1), (15, 1),
  (17, 1), (19, 2), (23, 2), (27, 2), (31, 2), (35, 3), (43, 3), (51, 3), (59, 3), (67, 4),
  (83, 4), (99, 4), (115, 4), (131, 5), (163, 5), (195, 5), (227, 5), (258, 0)]

/-- The distances of repetitions. -/
def distanceRanges : Ranges := #[
  (1, 0), (2, 0), (3, 0), (4, 0), (5, 1), (7, 1), (9, 2), (13, 2), (17, 3), (25, 3), (33, 4),
  (49, 4), (65, 5), (97, 5), (129, 6), (193, 6), (257, 7), (385, 7), (513, 8), (769, 8),
  (1025, 9), (1537, 9), (2049, 10), (3073, 10), (4097, 11), (6145, 11), (8193, 12), (12289, 12),
  (16385, 13), (24577, 13)]

/-- Reads the value of a symbol. -/
def ranged (ranges : Ranges) (symbol : Nat) : Step Nat := do
  match ranges[symbol]? with
  | some (least, bits) => return least + (← number bits)
  | none => corrupt

/-- The codes of a block: one for bytes and lengths, one for distances. -/
structure Codes where
  main : Huffman
  distances : Huffman

/-- Reads the symbols of a block up to its end. Each one takes one of `steps`. -/
def symbols (steps : Nat) (codes : Codes) : Step Unit :=
  match steps with
  | 0 => corrupt
  | steps + 1 => do
    let value ← symbol codes.main
    if value < 256 then
      found (UInt8.ofNat value)
      symbols steps codes
    else if value = 256 then return
    else
      let length ← ranged lengthRanges (value - 257)
      let distance ← ranged distanceRanges (← symbol codes.distances)
      if (← get).out.size < distance then corrupt
      modify fun p => { p with out := repeated distance length p.out }
      symbols steps codes

/-- The codes of blocks that bring none of their own. -/
def fixedCodes? : Option Codes := do
  let lengths := List.replicate 144 8 ++ List.replicate 112 9 ++ List.replicate 24 7
    ++ List.replicate 8 8
  return { main := ← Huffman.ofLengths? lengths
           distances := ← Huffman.ofLengths? (List.replicate 30 5) }

/-- The order in which the lengths of the code for lengths are written. -/
def lengthOrder : List Nat := [16, 17, 18, 0, 8, 7, 9, 6, 10, 5, 11, 4, 12, 3, 13, 2, 14, 1, 15]

/-- Reads lengths of rows behind the reversed `found` until there are `count` of them. -/
def lengths (steps : Nat) (code : Huffman) (count : Nat) (found : List Nat) : Step (List Nat) :=
  match steps with
  | 0 => corrupt
  | steps + 1 => do
    if found.length = count then return found.reverse
    if count < found.length then corrupt
    let value ← symbol code
    if value < 16 then lengths steps code count (value :: found)
    else
      let (length, extra) ←
        if value = 16 then
          match found with
          | last :: _ => pure (last, 3 + (← number 2))
          | [] => corrupt
        else if value = 17 then pure (0, 3 + (← number 3))
        else pure (0, 11 + (← number 7))
      lengths steps code count (List.replicate extra length ++ found)

/-- The most bytes and lengths that a code may be for. -/
def maxMainCount : Nat := 286

/-- The most distances that a code may be for. -/
def maxDistanceCount : Nat := 30

/-- The code for lengths of rows. It may not have gaps. -/
def codeOfLengths? (lengths : List Nat) : Option Huffman :=
  (Huffman.ofLengths? lengths).filter Huffman.isComplete

/-- A code for what a block holds. It may have gaps only if it is trivial. -/
def codeOfSymbols? (lengths : List Nat) : Option Huffman :=
  (Huffman.ofLengths? lengths).filter fun code => code.isComplete || code.isTrivial

/-- Reads the codes that a block brings. -/
def ownCodes : Step Codes := do
  let mainCount := 257 + (← number 5)
  let distanceCount := 1 + (← number 5)
  let orderCount := 4 + (← number 4)
  if maxMainCount < mainCount || maxDistanceCount < distanceCount then corrupt
  let short ← (lengthOrder.take orderCount).mapM fun place => return (place, ← number 3)
  let table := (List.range 19).map fun place => ((short.find? (·.1 == place)).map Prod.snd).getD 0
  match codeOfLengths? table with
  | none => corrupt
  | some code =>
    let count := mainCount + distanceCount
    let all ← lengths (count + 1) code count []
    match codeOfSymbols? (all.take mainCount), codeOfSymbols? (all.drop mainCount) with
    | some main, some distances => return { main, distances }
    | _, _ => corrupt

/-- Reads a block of plain bytes. -/
def plainBlock : Step Unit := do
  let length := (← plainByte).toNat + 256 * (← plainByte).toNat
  let inverse := (← plainByte).toNat + 256 * (← plainByte).toNat
  if length + inverse ≠ 65535 then corrupt
  plainBytes length

/-- Reads the contents of a block of the given kind. -/
def block (steps kind : Nat) : Step Unit :=
  match kind with
  | 0 => plainBlock
  | 1 =>
    match fixedCodes? with
    | some codes => symbols steps codes
    | none => corrupt
  | 2 => do symbols steps (← ownCodes)
  | _ => corrupt

/-- Reads blocks up to the last one. Each one takes one of `blocks`. -/
def blocksFrom (steps blocks : Nat) : Step Unit :=
  match blocks with
  | 0 => corrupt
  | blocks + 1 => do
    let last ← number 1
    let kind ← number 2
    block steps kind
    if last = 1 then return else blocksFrom steps blocks

/-- The bytes that a byte string is the compressed form of. What follows the last block does not
matter. Every symbol and every block takes at least one bit, so there are steps enough. -/
def decompress? (bytes : Bytes) : Option Bytes :=
  let s := Bits.ofBytes bytes
  match (blocksFrom (s.size + 1) (s.size + 1)).run ⟨s, #[]⟩ with
  | .ok () p => some p.out.toList
  | .error _ _ => none

/-! ## Writing -/

/-- A number below 65536 in two bytes, the low one first. -/
def le16 (n : Nat) : Bytes := [UInt8.ofNat n, UInt8.ofNat (n / 256)]

/-- The most bytes that a plain block can hold. -/
def blockSize : Nat := 65535

/-- The blocks for a byte string. Each one takes one of `blocks`. -/
def plainBlocks (blocks : Nat) (bytes : Bytes) : Bytes :=
  match blocks with
  | 0 => []
  | blocks + 1 =>
    let front := bytes.take blockSize
    let rest := bytes.drop blockSize
    let last := rest.isEmpty
    (if last then 1 else 0) :: le16 front.length ++ le16 (65535 - front.length) ++ front
      ++ if last then [] else plainBlocks blocks rest

/-- A compressed form of a byte string. -/
def compress (bytes : Bytes) : Bytes := plainBlocks (bytes.length / blockSize + 1) bytes

end Clarify.Deflate
