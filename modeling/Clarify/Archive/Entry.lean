import Clarify.Archive.Deflate
import Clarify.Archive.Timestamp
import Clarify.Bytes.Crc32

/-!
# Archive entries

An entry of an archive has a name and holds bytes in packed form. What it is follows from its
name. Its contents can be read if they are found where they should be and are not encrypted, the
way they were packed is known, and they agree with their check value.

Results:
* `content_ofContent_stored`: the contents of a new entry that is stored are read back.
-/

namespace Clarify

/-- What an entry is. -/
inductive EntryKind where
  | bytecodeUnit
  | resource
  | directory
deriving Repr, DecidableEq

namespace EntryKind

/-- The word for a kind. -/
def word : EntryKind → String
  | bytecodeUnit => "bytecode_unit"
  | resource => "resource"
  | directory => "directory"

/-- What an entry of the given name is (`EntryKind::classify`). -/
def ofName (name : String) : EntryKind :=
  if name.endsWith "/" then directory
  else if name.endsWith ".class" then bytecodeUnit
  else resource

end EntryKind

/-- How the bytes of an entry are packed. -/
inductive Packing where
  | stored
  | deflated
  /-- Some way that cannot be unpacked, with its number. -/
  | other (code : Nat)
deriving Repr, DecidableEq

namespace Packing

/-- The number of a way of packing. -/
def code : Packing → Nat
  | stored => 0
  | deflated => 8
  | other code => code

/-- The way of packing of the given number. -/
def ofCode : Nat → Packing
  | 0 => stored
  | 8 => deflated
  | code => other code

/-- The bytes in a packed form. -/
def pack (bytes : Bytes) : Packing → Bytes
  | deflated => Deflate.compress bytes
  | _ => bytes

/-- The bytes that a packed form is made of. -/
def unpack? (packed : Bytes) : Packing → Option Bytes
  | stored => some packed
  | deflated => Deflate.decompress? packed
  | other _ => none

end Packing

/-- Why an entry cannot be read. -/
inductive EntryError where
  | encrypted
  /-- There is no header in front of its bytes. -/
  | noHeader
  | unknownPacking (code : Nat)
  /-- It is encrypted under a key that is not known. -/
  | sealed
  | badData
  | badChecksum
deriving Repr, DecidableEq

/-- The wording of a cause. -/
def EntryError.message : EntryError → String
  | encrypted => "unsupported Zip archive: Password required to decrypt file"
  | noHeader => "invalid Zip archive: Invalid local file header"
  | unknownPacking _ => "unsupported Zip archive: Compression method not supported"
  | sealed => "provided password is incorrect"
  | badData => "corrupt deflate stream"
  | badChecksum => "Invalid checksum"

/-- An entry of an archive. -/
structure Archive.Entry where
  name : String
  packing : Packing
  /-- Its date, if the one written down exists. -/
  time : Option Timestamp
  isEncrypted : Bool
  /-- Whether it has remarks on a key. -/
  isSealed : Bool
  /-- The check value of the contents. -/
  checksum : UInt32
  /-- The length of the contents as it was written down. -/
  size : Nat
  /-- The length of the packed bytes as it was written down. -/
  packedSize : Nat
  /-- The packed bytes, if there is a header in front of them. They may be fewer than were written
  down. -/
  packed? : Option Bytes
deriving Repr, DecidableEq

namespace Archive.Entry

/-- A new entry, of no date. -/
def ofContent (name : String) (packing : Packing) (content : Bytes) : Entry :=
  let packed := packing.pack content
  { name, packing, time := some .epoch, isEncrypted := false, isSealed := false
    checksum := Crc32.checksum content, size := content.length, packedSize := packed.length
    packed? := some packed }

/-- What an entry is. A name that ends in a separator of either sort is that of a directory. -/
def kind (e : Entry) : EntryKind :=
  if e.name.endsWith "\\" then .directory else .ofName e.name

/-- Why an entry cannot be opened, whatever is in it. -/
def obstacle? (e : Entry) : Option EntryError :=
  if e.isEncrypted then some .encrypted
  else if e.packed?.isNone then some .noHeader
  else match e.packing with
    | .other code => some (.unknownPacking code)
    | _ => if e.isSealed then some .sealed else none

/-- What an entry that can be opened contains. -/
def unpacked (e : Entry) : Except EntryError Bytes :=
  match e.packed?.bind e.packing.unpack? with
  | none => .error .badData
  | some content => if Crc32.checksum content = e.checksum then .ok content else .error .badChecksum

/-- What an entry contains. -/
def content (e : Entry) : Except EntryError Bytes :=
  match e.obstacle? with
  | some obstacle => .error obstacle
  | none => e.unpacked

/-- The way of packing for new contents of an entry. -/
def packingAnew (e : Entry) : Packing :=
  if e.packing = .stored then .stored else .deflated

/-- Why an entry cannot be copied: there are no bytes to copy. -/
def gap? (e : Entry) : Option EntryError := if e.packed?.isNone then some .noHeader else none

/-- The entry with new contents, of no date. -/
def withContent (e : Entry) (content : Bytes) : Entry := ofContent e.name e.packingAnew content

theorem content_ofContent_stored (name : String) (bytes : Bytes) :
    (ofContent name .stored bytes).content = .ok bytes := by
  simp [ofContent, content, obstacle?, unpacked, Packing.pack, Packing.unpack?]

end Archive.Entry

end Clarify
