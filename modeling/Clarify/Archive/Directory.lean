import Clarify.Bytes

/-!
# Where the directory of an archive is

A record near the end of a file tells where the directory of an archive begins and how many
entries it describes. Where its fields are too narrow, a wide record stands somewhere in front of
it, and a locator between the two says where. A file may have other bytes in front of the archive,
so all places in it may be shifted by their number.

Results:
* `numberAt?_lt`: a number of so many bytes is below that power of 256.
-/

namespace Clarify.Archive

/-- The number in `count` bytes from `place` on, the lowest byte first. -/
def numberAt? (file : Array UInt8) (place count : Nat) : Option Nat :=
  match count with
  | 0 => some 0
  | count + 1 => do
    let low ← file[place]?
    let high ← numberAt? file (place + 1) count
    return low.toNat + 256 * high

theorem numberAt?_lt {file : Array UInt8} {place count n : Nat}
    (h : numberAt? file place count = some n) : n < Nat.pow 256 count := by
  induction count generalizing place n with
  | zero =>
    simp only [numberAt?, Option.some.injEq] at h
    subst h
    decide
  | succ count ih =>
    simp only [numberAt?, Option.bind_eq_bind, Option.bind_eq_some_iff] at h
    obtain ⟨low, _, high, found, eq⟩ := h
    have bound := ih found
    have small := low.toNat_lt
    injection eq with eq
    have step : Nat.pow 256 (count + 1) = Nat.pow 256 count * 256 := rfl
    omega

/-- Whether a mark stands at a place. -/
def isMarked (file : Array UInt8) (mark place : Nat) : Bool := numberAt? file place 4 == some mark

/-- The first of `count` places from `place` on where something is found. -/
def firstFrom? {α : Type} (look : Nat → Option α) (place count : Nat) : Option α :=
  match count with
  | 0 => none
  | count + 1 =>
    match look place with
    | some found => some found
    | none => firstFrom? look (place + 1) count

/-- What marks the description of an entry. -/
def descriptionMark : Nat := 0x02014b50

/-- The directory of an archive. -/
structure Directory where
  /-- How far all places are shifted. -/
  shift : Nat
  /-- Where the directory begins in the archive. -/
  place : Nat
  /-- How many entries it describes. -/
  count : Nat
  /-- The part of the archive that the record is in, and the one that the directory is in. -/
  disk : Nat
  directoryDisk : Nat

/-- Where the directory begins in the file. -/
def Directory.start (d : Directory) : Nat := d.place + d.shift

/-! ## The record at the end -/

/-- The record at the end of an archive. -/
structure EndRecord where
  disk : Nat
  directoryDisk : Nat
  countHere : Nat
  count : Nat
  directoryPlace : Nat
  commentLength : Nat

namespace EndRecord

/-- What marks the record. -/
def mark : Nat := 0x06054b50

/-- The length of the record without its comment. -/
def size : Nat := 22

/-- The record at a place. Its comment must end within the file. -/
def at? (file : Array UInt8) (place : Nat) : Option EndRecord := do
  guard (isMarked file mark place)
  let record : EndRecord := {
    disk := ← numberAt? file (place + 4) 2
    directoryDisk := ← numberAt? file (place + 6) 2
    countHere := ← numberAt? file (place + 8) 2
    count := ← numberAt? file (place + 10) 2
    directoryPlace := ← numberAt? file (place + 16) 4
    commentLength := ← numberAt? file (place + 20) 2 }
  guard (place + size + record.commentLength ≤ file.size)
  return record

/-- Whether a field is too narrow, so that there may be a wide record. -/
def isNarrow (r : EndRecord) : Bool := r.count = 0xffff || r.directoryPlace = 0xffffffff

/-- How far all places are shifted in an archive whose record stands at `place`: up to the first
description that is found where the directory should begin or behind. -/
def shift? (r : EndRecord) (file : Array UInt8) (place : Nat) : Option Nat :=
  if r.count = 0 then some (place - r.directoryPlace)
  else
    firstFrom?
      (fun p => if isMarked file descriptionMark p then some (p - r.directoryPlace) else none)
      r.directoryPlace (place - 3 - r.directoryPlace)

/-- The directory that the record at `place` tells of. -/
def directory? (r : EndRecord) (file : Array UInt8) (place : Nat) : Option Directory := do
  return {
    shift := ← r.shift? file place, place := r.directoryPlace, count := r.countHere
    disk := r.disk, directoryDisk := r.directoryDisk }

end EndRecord

/-! ## The wide record -/

/-- What tells where the wide record is. -/
structure Locator where
  directoryDisk : Nat
  recordPlace : Nat
  diskCount : Nat

namespace Locator

/-- What marks the locator. -/
def mark : Nat := 0x07064b50

/-- The length of the locator. -/
def size : Nat := 20

/-- The locator at a place. -/
def at? (file : Array UInt8) (place : Nat) : Option Locator := do
  guard (isMarked file mark place)
  return {
    directoryDisk := ← numberAt? file (place + 4) 4
    recordPlace := ← numberAt? file (place + 8) 8
    diskCount := ← numberAt? file (place + 16) 4 }

/-- The locator in front of a record at a place. -/
def before? (file : Array UInt8) (place : Nat) : Option Locator :=
  if size ≤ place then at? file (place - size) else none

end Locator

namespace WideRecord

/-- What marks the record. -/
def mark : Nat := 0x06064b50

/-- The length of what stands in front of the part whose length is written down. -/
def headLength : Nat := 12

/-- The least length of that part. -/
def leastLength : Nat := 44

/-- The length of the shortest description. -/
def leastDescription : Nat := 46

/-- The directory that a wide record at `place` tells of, and whether the record agrees with
itself. It has to reach up to the locator. -/
def at? (file : Array UInt8) (l : Locator) (locatorPlace place : Nat) :
    Option (Directory × Bool) := do
  guard (isMarked file mark place)
  let length ← numberAt? file (place + 4) 8
  let madeBy ← numberAt? file (place + 12) 2
  let needed ← numberAt? file (place + 14) 2
  let countHere ← numberAt? file (place + 24) 8
  let directory : Directory := {
    shift := place - l.recordPlace
    place := ← numberAt? file (place + 48) 8
    count := ← numberAt? file (place + 32) 8
    disk := ← numberAt? file (place + 16) 4
    directoryDisk := ← numberAt? file (place + 20) 4 }
  guard (leastLength ≤ length)
  guard (place + headLength + length = locatorPlace)
  guard (directory.directoryDisk = l.directoryDisk)
  guard (leastDescription * directory.count + directory.place ≤ place)
  return (directory, countHere ≤ directory.count && needed ≤ madeBy)

/-- The directory that a locator leads to. The first wide record that is found counts. -/
def directory? (file : Array UInt8) (l : Locator) (locatorPlace : Nat) : Option Directory := do
  guard (l.diskCount ≤ 1)
  let (directory, agrees) ←
    firstFrom? (at? file l locatorPlace) l.recordPlace (locatorPlace - l.recordPlace)
  guard agrees
  return directory

end WideRecord

/-! ## The directory -/

/-- The directory of the archive whose record stands at `place`. -/
def directoryAt? (file : Array UInt8) (place : Nat) : Option Directory := do
  let record ← EndRecord.at? file place
  let directory ←
    match if record.isNarrow then Locator.before? file place else none with
    | some l => WideRecord.directory? file l (place - Locator.size)
    | none => record.directory? file place
  guard (directory.disk = directory.directoryDisk)
  return directory

end Clarify.Archive
