import Clarify.Archive.Description
import Clarify.Archive.Directory
import Clarify.Archive.Entry
import Clarify.Text.Cp437

/-!
# Archives

An archive is a row of entries with different names. In its file each entry begins with a header
of its own, and a directory behind the entries describes them once more. What the directory says
is what counts; the header of an entry only tells where its bytes begin. An archive with an entry
that has no header can be read, but not that entry.

Results:
* `names_ofEntries_nodup`: the entries of an archive that was read have different names.
-/

namespace Clarify

/-- An archive: its entries in order. -/
structure Archive where
  entries : List Archive.Entry
deriving Repr, DecidableEq

namespace Archive

/-- The names of the entries. -/
def names (a : Archive) : List String := a.entries.map Entry.name

/-! ## Different names -/

/-- Entries with another one. It takes the place of one that has its name already. -/
def insertEntry (entries : List Entry) (e : Entry) : List Entry :=
  if entries.any fun other => other.name == e.name then
    entries.map fun other => if other.name == e.name then e else other
  else entries ++ [e]

/-- The archive of the given entries: of those with one name the last counts, at the place of the
first. -/
def ofEntries (entries : List Entry) : Archive := ⟨entries.foldl insertEntry []⟩

/-! ## Reading -/

/-- What marks the header of an entry. -/
def entryMark : Nat := 0x04034b50

/-- The length of a header without the name and the remarks. -/
def headerSize : Nat := 30

/-- The bytes of an entry whose header stands at `place`: at most `size`, or as many as there are
up to the end of the file. -/
def packedAt? (file : Array UInt8) (place size : Nat) : Option Bytes := do
  guard (isMarked file entryMark place)
  let nameLength ← numberAt? file (place + 26) 2
  let remarksLength ← numberAt? file (place + 28) 2
  let start := place + headerSize + nameLength + remarksLength
  return (file.extract start (start + size)).toList

/-- The description at `place`, and the place behind it. -/
def descriptionAt? (file : Array UInt8) (place : Nat) : Option (Description × Nat) := do
  guard (isMarked file descriptionMark place)
  let field (offset count : Nat) := numberAt? file (place + offset) count
  let flags ← field 8 2
  let packing ← field 10 2
  let time ← field 12 2
  let date ← field 14 2
  let checksum ← field 16 4
  let packedSize ← field 20 4
  let size ← field 24 4
  let nameEnd := place + 46 + (← field 28 2)
  let remarksEnd := nameEnd + (← field 30 2)
  let stop := remarksEnd + (← field 32 2)
  let offset ← field 42 4
  guard (stop ≤ file.size)
  let decode (bytes : Bytes) : String :=
    if flags.testBit 11 then Utf8.decodeLossy bytes else Cp437.decode bytes
  let writtenName := (file.extract (place + 46) nameEnd).toList
  let description : Description := {
    name := decode writtenName, writtenName, comment := decode (file.extract remarksEnd stop).toList
    packing, time := Timestamp.ofWords? date time, isEncrypted := flags.testBit 0
    isSealed := false, checksum := UInt32.ofNat checksum, packedSize, size, place := offset }
  return (← description.annotate? (file.extract nameEnd remarksEnd).toList, stop)

/-- The way of packing of what is sealed. Which one is meant is in a remark. -/
def sealedCode : Nat := 99

/-- The entry that a description in a directory tells of. Its header must stand in front of the
directory. -/
def entryOf? (file : Array UInt8) (directory : Directory) (d : Description) : Option Entry := do
  let place := d.place + directory.shift
  guard (place < directory.start)
  guard (d.packing ≠ sealedCode || d.isSealed)
  return {
    name := d.name, packing := .ofCode d.packing, time := d.time, isEncrypted := d.isEncrypted
    isSealed := d.isSealed, checksum := d.checksum, size := d.size, packedSize := d.packedSize
    packed? := packedAt? file place d.packedSize }

/-- The entries that are described from `place` on, `count` of them. -/
def entriesAt? (file : Array UInt8) (directory : Directory) (place count : Nat) :
    Option (List Entry) :=
  match count with
  | 0 => some []
  | count + 1 => do
    let (description, place) ← descriptionAt? file place
    let entry ← entryOf? file directory description
    return entry :: (← entriesAt? file directory place count)

/-- The archive whose record stands at `place`. -/
def archiveAt? (file : Array UInt8) (place : Nat) : Option Archive := do
  let directory ← directoryAt? file place
  return ofEntries (← entriesAt? file directory directory.start directory.count)

/-- The archive whose record stands at the last possible of the first `count` places. -/
def lastArchive? (file : Array UInt8) (count : Nat) : Option Archive :=
  match count with
  | 0 => none
  | place + 1 =>
    match archiveAt? file place with
    | some archive => some archive
    | none => lastArchive? file place

/-- The archive in a file. -/
def read? (file : Bytes) : Option Archive :=
  let file := file.toArray
  lastArchive? file (file.size + 1 - EndRecord.size)

/-! ## Writing -/

/-- A number below `256 ^ count` in `count` bytes, the lowest first. -/
def bytesOf (count n : Nat) : Bytes :=
  match count with
  | 0 => []
  | count + 1 => UInt8.ofNat n :: bytesOf count (n / 256)

/-- The flags of an entry: they tell how its name is encoded. -/
def flags (e : Entry) : Nat :=
  if e.name.toList.all fun c => c.toNat < 128 then 0 else 2048

/-- Whether a size of an entry is too large for its field. -/
def isWide (e : Entry) : Bool := Remark.tooLarge < max e.size e.packedSize

/-- The remarks on an entry: its sizes if they are too large. -/
def remarks (e : Entry) : Bytes :=
  if isWide e then bytesOf 2 1 ++ bytesOf 2 16 ++ bytesOf 8 e.size ++ bytesOf 8 e.packedSize else []

/-- A size as it stands in its field. -/
def sizeField (e : Entry) (size : Nat) : Bytes :=
  bytesOf 4 (if isWide e then Remark.tooLarge else size)

/-- The fields that the header of an entry and its description share. -/
def commonFields (e : Entry) : Bytes :=
  let time := e.time.getD .epoch
  bytesOf 2 (flags e) ++ bytesOf 2 e.packing.code ++ bytesOf 2 time.timeWord
    ++ bytesOf 2 time.dateWord ++ bytesOf 4 e.checksum.toNat ++ sizeField e e.packedSize
    ++ sizeField e e.size ++ bytesOf 2 (Utf8.encode e.name).length
    ++ bytesOf 2 (remarks e).length

/-- The version of the format that is needed for reading. -/
def neededVersion : Nat := 20

/-- An entry with its header. -/
def entryBytes (e : Entry) : Bytes :=
  bytesOf 4 entryMark ++ bytesOf 2 neededVersion ++ commonFields e ++ Utf8.encode e.name
    ++ remarks e ++ e.packed?.getD []

/-- The description of an entry that stands at `place`. -/
def description (e : Entry) (place : Nat) : Bytes :=
  bytesOf 4 descriptionMark ++ bytesOf 2 neededVersion ++ bytesOf 2 neededVersion
    ++ commonFields e ++ bytesOf 2 0 ++ bytesOf 2 0 ++ bytesOf 2 0 ++ bytesOf 4 0
    ++ bytesOf 4 place ++ Utf8.encode e.name ++ remarks e

/-- The descriptions of entries that stand one behind the other from `place` on. -/
def directoryBytes (place : Nat) : List Entry → Bytes
  | [] => []
  | e :: rest => description e place ++ directoryBytes (place + (entryBytes e).length) rest

/-- The file of an archive. -/
def write (a : Archive) : Bytes :=
  let body := (a.entries.map entryBytes).flatten
  let directory := directoryBytes 0 a.entries
  body ++ directory ++ bytesOf 4 EndRecord.mark ++ bytesOf 2 0 ++ bytesOf 2 0
    ++ bytesOf 2 a.entries.length ++ bytesOf 2 a.entries.length ++ bytesOf 4 directory.length
    ++ bytesOf 4 body.length ++ bytesOf 2 0

/-! ## Names are different -/

theorem nodup_insertEntry {entries : List Entry} (e : Entry)
    (different : (entries.map Entry.name).Nodup) :
    ((insertEntry entries e).map Entry.name).Nodup := by
  unfold insertEntry
  split
  · next h =>
    have same : (entries.map fun other => if other.name == e.name then e else other).map
        Entry.name = entries.map Entry.name := by
      rw [List.map_map]
      apply List.map_congr_left
      intro other _
      by_cases eq : other.name = e.name <;> simp [eq]
    rw [same]
    exact different
  · next h =>
    simp only [List.any_eq_true, beq_iff_eq, not_exists, not_and] at h
    rw [List.map_append, List.nodup_append]
    refine ⟨different, by simp, ?_⟩
    intro name isThere other isNew
    obtain ⟨entry, mem, rfl⟩ := List.mem_map.1 isThere
    simp only [List.map_cons, List.map_nil, List.mem_singleton] at isNew
    subst isNew
    exact h entry mem

theorem names_ofEntries_nodup (entries : List Entry) : (ofEntries entries).names.Nodup := by
  have general : ∀ rest start : List Entry, (start.map Entry.name).Nodup →
      ((rest.foldl insertEntry start).map Entry.name).Nodup := by
    intro rest
    induction rest with
    | nil => exact fun _ h => h
    | cons e rest ih => exact fun start h => ih _ (nodup_insertEntry e h)
  exact general entries [] List.nodup_nil

end Archive

end Clarify
