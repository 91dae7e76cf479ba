import Clarify.Tables.Record
import Clarify.Text.Utf16
import Clarify.Text.Utf8

/-!
# Files of pages

Tables are kept in a file of pages of one size. The rows of a table are the leaves of a tree, in
order: a page has rows, or leads to other pages, or both in turn. A record that is too long for
its page goes on in a chain of other pages. The first page begins with a description of the file,
and the tree that it belongs to tells where all other trees begin.

Results:
* `localSize_le`: what stays in a page has room there.
* `PageKind.ofCode?_code`: the number of a kind is understood.
-/

namespace Clarify.Tables

/-! ## The description of a file -/

/-- How texts are encoded. -/
inductive TextEncoding where
  | utf8
  | utf16Low
  | utf16High
deriving Repr, DecidableEq

namespace TextEncoding

/-- The encoding of the given number. -/
def ofCode : Nat → TextEncoding
  | 2 => utf16Low
  | 3 => utf16High
  | _ => utf8

/-- The units that pairs of bytes stand for. -/
def units (pair : UInt8 → UInt8 → UInt16) : Bytes → List UInt16
  | first :: second :: rest => pair first second :: units pair rest
  | _ => []

/-- The text that some bytes stand for, or what is wrong with it. -/
def decode (bytes : Bytes) : TextEncoding → Except Utf8.Fault String
  | utf8 => Utf8.decode bytes
  | utf16Low => .ok (Utf16.decodeLossy (units (fun first second => word16 second first) bytes))
  | utf16High => .ok (Utf16.decodeLossy (units word16 bytes))

end TextEncoding

/-- What a page of a tree has in it. -/
inductive PageKind where
  /-- Rows with numbers. -/
  | numberedLeaf
  /-- Pages below, and the numbers that separate them. -/
  | numberedBranch
  /-- Rows without numbers, in the order of their values. -/
  | keyedLeaf
  /-- Pages below, and the rows that separate them. -/
  | keyedBranch
deriving Repr, DecidableEq

namespace PageKind

/-- The number of a kind. -/
def code : PageKind → Nat
  | keyedBranch => 2
  | numberedBranch => 5
  | keyedLeaf => 10
  | numberedLeaf => 13

/-- The kind of the given number. -/
def ofCode? : Nat → Option PageKind
  | 2 => some keyedBranch
  | 5 => some numberedBranch
  | 10 => some keyedLeaf
  | 13 => some numberedLeaf
  | _ => none

theorem ofCode?_code (kind : PageKind) : ofCode? kind.code = some kind := by
  cases kind <;> rfl

/-- The length of what stands in a page in front of the places of its cells. -/
def headSize : PageKind → Nat
  | numberedLeaf | keyedLeaf => 8
  | numberedBranch | keyedBranch => 12

end PageKind

/-- A file of pages. -/
structure PageFile where
  bytes : Array UInt8
  pageSize : Nat
  /-- The bytes of a page that are not reserved for others. -/
  usable : Nat
  pageCount : Nat
  encoding : TextEncoding
  /-- The version that the tables are marked with. -/
  version : Int

/-- Why a file is not read. -/
inductive PageError where
  /-- It is some other file. -/
  | foreign
  /-- It does not agree with itself. -/
  | malformed
deriving Repr, DecidableEq

/-- The number in `count` bytes from `place` on, the highest first. Behind the end of a file there
are zeros. -/
def numberAt (file : Array UInt8) (place count : Nat) : Nat :=
  match count with
  | 0 => 0
  | count + 1 => 256 * numberAt file place count + (file.getD (place + count) 0).toNat

namespace PageFile

/-- What a file of pages begins with. -/
def mark : Bytes := Utf8.encode "SQLite format 3\x00"

/-- The length of the description of a file. -/
def headSize : Nat := 100

/-- The latest form that can be read. -/
def latestForm : Nat := 2

/-- The fractions of a page that records may take up, which are always the same. -/
def fractions : List Nat := [64, 32, 32]

/-- The least number of usable bytes. -/
def leastUsable : Nat := 480

/-- The size of a page for what is written down about it. The largest size has no room there. -/
def pageSizeOf (written : Nat) : Nat := if written = 1 then 65536 else written

/-- Whether a page may be of a size. -/
def isPageSize (size : Nat) : Bool :=
  [512, 1024, 2048, 4096, 8192, 16384, 32768, 65536].contains size

/-- The file in some bytes. How many pages it has is written down, unless the file was changed by
a program that does not do so. -/
def ofBytes (file : Array UInt8) : Except PageError PageFile := do
  let field := numberAt file
  let pageSize := pageSizeOf (field 16 2)
  let usable := pageSize - field 20 1
  if (file.extract 0 mark.length).toList ≠ mark ∨ latestForm < field 19 1
      ∨ [field 21 1, field 22 1, field 23 1] ≠ fractions ∨ !isPageSize pageSize then
    throw .foreign
  let pagesThere := (file.size + pageSize - 1) / pageSize
  let written := field 28 4
  let pageCount := if written = 0 ∨ field 24 4 ≠ field 92 4 then pagesThere else written
  if pagesThere < pageCount then throw .malformed
  if usable < leastUsable then throw .foreign
  return {
    bytes := file, pageSize, usable, pageCount
    encoding := .ofCode (field 56 4), version := signed 4 (field 60 4) }

/-- The number in `count` bytes from `place` on. -/
def number (f : PageFile) (place count : Nat) : Nat := numberAt f.bytes place count

/-- The bytes from `place` up to `stop`. -/
def slice (f : PageFile) (place stop : Nat) : Bytes := (f.bytes.extract place stop).toList

/-- Where a page begins. Pages are counted from one. -/
def start (f : PageFile) (page : Nat) : Nat := (page - 1) * f.pageSize

/-- Whether there is a page of the given number. -/
def hasPage (f : PageFile) (page : Nat) : Bool := 1 ≤ page && page ≤ f.pageCount

/-! ## Records that span pages -/

/-- How many bytes of a record may stand in the page of a row. -/
def rowRoom (usable : Nat) : Nat := usable - 35

/-- How many bytes of a record may stand in a page in which the records tell the way. -/
def keyRoom (usable : Nat) : Nat := (usable - 12) * 64 / 255 - 23

/-- How many bytes of a record stay in its page at least. -/
def leastLocal (usable : Nat) : Nat := (usable - 12) * 32 / 255 - 23

/-- How many bytes of a record of the given size stay in its page: all if there is room, else so
many that the last of the other pages is full, or the least. -/
def localSize (usable room size : Nat) : Nat :=
  if size ≤ room then size
  else
    let filling := leastLocal usable + (size - leastLocal usable) % (usable - 4)
    if filling ≤ room then filling else min room (leastLocal usable)

theorem localSize_le {usable room size : Nat} : localSize usable room size ≤ room := by
  unfold localSize
  dsimp only
  split
  · assumption
  · split
    · assumption
    · exact Nat.min_le_left _ _

/-- The last `size` bytes of a record, in a chain of pages. Each page takes one of `steps`. -/
def chain? (f : PageFile) (steps page size : Nat) : Option Bytes :=
  if size = 0 then some []
  else
    match steps with
    | 0 => none
    | steps + 1 => do
      guard (f.hasPage page)
      let start := f.start page
      let taken := min size (f.usable - 4)
      let rest ← chain? f steps (f.number start 4) (size - taken)
      return f.slice (start + 4) (start + 4 + taken) ++ rest

/-- The record of the given size that begins at `place`. -/
def recordAt? (f : PageFile) (room place size : Nat) : Option (List Cell) := do
  let kept := localSize f.usable room size
  guard (place + kept ≤ f.bytes.size)
  let chained ← f.chain? f.pageCount (f.number (place + kept) 4) (size - kept)
  record? (f.slice place (place + kept) ++ chained)

/-! ## Trees -/

/-- A row of a table. -/
structure Row where
  /-- The number of the row, in a table that is ordered by such numbers. -/
  number? : Option Int
  cells : List Cell

/-- The number in varying form at `place`, and the place behind it. -/
def varintAt? (f : PageFile) (place : Nat) : Option (Nat × Nat) := do
  let bytes := f.slice place (place + 9)
  let (n, rest) ← Varint.read? bytes
  return (n, place + (bytes.length - rest.length))

/-- The row with a number at `place`. -/
def numberedRowAt? (f : PageFile) (place : Nat) : Option Row := do
  let (size, place) ← f.varintAt? place
  let (n, place) ← f.varintAt? place
  return { number? := some (signed 8 n), cells := ← f.recordAt? (rowRoom f.usable) place size }

/-- The row without a number at `place`. -/
def keyedRowAt? (f : PageFile) (place : Nat) : Option Row := do
  let (size, place) ← f.varintAt? place
  return { number? := none, cells := ← f.recordAt? (keyRoom f.usable) place size }

/-- The most levels that a tree may have. -/
def mostLevels : Nat := 20

/-- The rows of a tree of so many levels at most. -/
def rowsBelow? (f : PageFile) (levels page : Nat) : Option (List Row) :=
  match levels with
  | 0 => none
  | levels + 1 => do
    guard (f.hasPage page)
    let start := f.start page
    let head := if page = 1 then start + headSize else start
    let kind ← PageKind.ofCode? (f.number head 1)
    let places := (List.range (f.number (head + 3) 2)).map fun i =>
      start + f.number (head + kind.headSize + 2 * i) 2
    let lastChild := f.number (head + 8) 4
    match kind with
    | .numberedLeaf => places.mapM f.numberedRowAt?
    | .keyedLeaf => places.mapM f.keyedRowAt?
    | .numberedBranch =>
      let parts ← places.mapM fun place => rowsBelow? f levels (f.number place 4)
      return parts.flatten ++ (← rowsBelow? f levels lastChild)
    | .keyedBranch =>
      let parts ← places.mapM fun place => do
        return (← rowsBelow? f levels (f.number place 4)) ++ [← f.keyedRowAt? (place + 4)]
      return parts.flatten ++ (← rowsBelow? f levels lastChild)

/-- The rows of the tree that begins at a page. -/
def rows? (f : PageFile) (page : Nat) : Option (List Row) := f.rowsBelow? mostLevels page

/-! ## Tables by name -/

/-- The text in a value. -/
def text? (f : PageFile) : Cell → Option String
  | .text bytes => (f.encoding.decode bytes).toOption
  | _ => none

/-- Where the tables begin, by their names. -/
def tables? (f : PageFile) : Option (List (String × Nat)) := do
  let rows ← f.rows? 1
  return rows.filterMap fun row =>
    match row.cells with
    | kind :: name :: _ :: .integer page :: _ => do
      guard (f.text? kind = some "table")
      return (← f.text? name, page.toNat)
    | _ => none

end PageFile

end Clarify.Tables
