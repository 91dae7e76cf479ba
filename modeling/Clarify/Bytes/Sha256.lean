import Clarify.Bytes

/-!
# SHA-256

The 256-bit secure hash: a message is padded to whole blocks of sixty-four bytes, each block is
spread over sixty-four words, and the words are mixed into a state of eight words.
-/

namespace Clarify.Sha256

/-- The first 32 bits of the fractional parts of the cube roots of the first 64 primes. -/
def roundConstants : Array UInt32 := #[
  0x428a2f98, 0x71374491, 0xb5c0fbcf, 0xe9b5dba5, 0x3956c25b, 0x59f111f1, 0x923f82a4, 0xab1c5ed5,
  0xd807aa98, 0x12835b01, 0x243185be, 0x550c7dc3, 0x72be5d74, 0x80deb1fe, 0x9bdc06a7, 0xc19bf174,
  0xe49b69c1, 0xefbe4786, 0x0fc19dc6, 0x240ca1cc, 0x2de92c6f, 0x4a7484aa, 0x5cb0a9dc, 0x76f988da,
  0x983e5152, 0xa831c66d, 0xb00327c8, 0xbf597fc7, 0xc6e00bf3, 0xd5a79147, 0x06ca6351, 0x14292967,
  0x27b70a85, 0x2e1b2138, 0x4d2c6dfc, 0x53380d13, 0x650a7354, 0x766a0abb, 0x81c2c92e, 0x92722c85,
  0xa2bfe8a1, 0xa81a664b, 0xc24b8b70, 0xc76c51a3, 0xd192e819, 0xd6990624, 0xf40e3585, 0x106aa070,
  0x19a4c116, 0x1e376c08, 0x2748774c, 0x34b0bcb5, 0x391c0cb3, 0x4ed8aa4a, 0x5b9cca4f, 0x682e6ff3,
  0x748f82ee, 0x78a5636f, 0x84c87814, 0x8cc70208, 0x90befffa, 0xa4506ceb, 0xbef9a3f7, 0xc67178f2]

/-- The eight words of the hash under way. -/
structure State where
  a : UInt32
  b : UInt32
  c : UInt32
  d : UInt32
  e : UInt32
  f : UInt32
  g : UInt32
  h : UInt32

/-- The first 32 bits of the fractional parts of the square roots of the first 8 primes. -/
def State.initial : State :=
  ⟨0x6a09e667, 0xbb67ae85, 0x3c6ef372, 0xa54ff53a, 0x510e527f, 0x9b05688c, 0x1f83d9ab, 0x5be0cd19⟩

/-- Rotation to the right by `n` bits, for `n` from 1 to 31. -/
def rotateRight (w n : UInt32) : UInt32 := (w >>> n) ||| (w <<< (32 - n))

/-- The padded message: the message, one bit, zeros up to eight bytes before the end of a block,
and the length in bits. -/
def pad (message : ByteArray) : ByteArray :=
  let zeros := (119 - message.size % 64) % 64
  let marked := message.push 0x80
  let filled := (List.replicate zeros (0 : UInt8)).foldl ByteArray.push marked
  (be64 (UInt64.ofNat (message.size * 8))).foldl ByteArray.push filled

/-- The byte at a position, zero behind the end. -/
def byteAt (data : ByteArray) (i : Nat) : UInt8 :=
  if h : i < data.size then data[i] else 0

/-- The sixty-four words of the block that starts at `start`. -/
def schedule (data : ByteArray) (start : Nat) : Array UInt32 :=
  let first := (Array.range 16).map fun i =>
    let at' := start + 4 * i
    word32 (byteAt data at') (byteAt data (at' + 1)) (byteAt data (at' + 2)) (byteAt data (at' + 3))
  (List.range 48).foldl (fun w i =>
    let w15 := w.getD (i + 1) 0
    let w2 := w.getD (i + 14) 0
    let s0 := rotateRight w15 7 ^^^ rotateRight w15 18 ^^^ (w15 >>> 3)
    let s1 := rotateRight w2 17 ^^^ rotateRight w2 19 ^^^ (w2 >>> 10)
    w.push (w.getD i 0 + s0 + w.getD (i + 9) 0 + s1)) first

/-- One of the sixty-four mixing steps, with its round constant and message word added up. -/
def State.step (s : State) (input : UInt32) : State :=
  let s1 := rotateRight s.e 6 ^^^ rotateRight s.e 11 ^^^ rotateRight s.e 25
  let choice := (s.e &&& s.f) ^^^ ((~~~ s.e) &&& s.g)
  let t1 := s.h + s1 + choice + input
  let s0 := rotateRight s.a 2 ^^^ rotateRight s.a 13 ^^^ rotateRight s.a 22
  let majority := (s.a &&& s.b) ^^^ (s.a &&& s.c) ^^^ (s.b &&& s.c)
  ⟨t1 + (s0 + majority), s.a, s.b, s.c, s.d + t1, s.e, s.f, s.g⟩

/-- The state after the block that starts at `start`. -/
def State.block (s : State) (data : ByteArray) (start : Nat) : State :=
  let words := schedule data start
  let t := (List.range 64).foldl
    (fun t i => t.step (roundConstants.getD i 0 + words.getD i 0)) s
  ⟨s.a + t.a, s.b + t.b, s.c + t.c, s.d + t.d, s.e + t.e, s.f + t.f, s.g + t.g, s.h + t.h⟩

/-- The 32 bytes of the SHA-256 hash of a message. -/
def digest (message : ByteArray) : Bytes :=
  let data := pad message
  let s := (List.range (data.size / 64)).foldl (fun s i => s.block data (64 * i)) State.initial
  [s.a, s.b, s.c, s.d, s.e, s.f, s.g, s.h].flatMap be32

/-- Every digest has thirty-two bytes. -/
theorem length_digest (message : ByteArray) : (digest message).length = 32 := rfl

end Clarify.Sha256
