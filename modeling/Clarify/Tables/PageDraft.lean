import Clarify.Tables.PageFile

/-!
# A file of pages in the making

Pages are made one after the other, from the second one on: first those with rows, then those that
lead to them, up to a single page at the root of a tree. The first page, with the description of
the file and the way to all trees, is made last.

Results:
* `append_fit`: cutting a row of cells in two loses none.
-/

namespace Clarify.Tables

/-- A table to be written. -/
structure TableDraft where
  name : String
  /-- The statement that describes its columns. -/
  statement : String
  /-- Whether its rows have numbers. Rows without numbers stand in the order of their values. -/
  isNumbered : Bool
  rows : List PageFile.Row

/-- The pages made so far. -/
abbrev Making := StateM (Array Bytes)

namespace PageDraft

open PageFile

/-- The size of the pages that are made. All of it is used. -/
def pageSize : Nat := 4096

/-- Adds a page; tells its number. -/
def addPage (page : Bytes) : Making Nat := do
  modify (·.push page)
  return (← get).size + 1

/-! ## Pages of cells -/

/-- The bytes of a page of cells: where they are, and the cells themselves at its end. The page
begins with the bytes in `front`. -/
def page (front : Bytes) (kind : PageKind) (rightmost : Option Nat) (cells : List Bytes) : Bytes :=
  let body := cells.flatten
  let place := pageSize - body.length
  let pointers := (cells.foldl (fun (places, place) cell =>
    (bytesOf 2 place :: places, place + cell.length)) ([], place)).1.reverse.flatten
  let head := front ++ bytesOf 1 kind.code ++ bytesOf 2 0 ++ bytesOf 2 cells.length
    ++ bytesOf 2 place ++ bytesOf 1 0 ++ (match rightmost with
      | some child => bytesOf 4 child
      | none => []) ++ pointers
  head ++ List.replicate (place - head.length) 0 ++ body

/-- What a page has room for besides what is in front of its cells. -/
def cellRoom : Nat := pageSize - 12

/-- As many cells as have room, and the others. A cell takes two bytes more for its place. -/
def fit {α : Type} (size : α → Nat) (room : Nat) : List α → List α × List α
  | [] => ([], [])
  | cell :: cells =>
    if size cell + 2 ≤ room then
      let (inside, outside) := fit size (room - (size cell + 2)) cells
      (cell :: inside, outside)
    else ([], cell :: cells)

theorem append_fit {α : Type} (size : α → Nat) (room : Nat) (cells : List α) :
    (fit size room cells).1 ++ (fit size room cells).2 = cells := by
  induction cells generalizing room with
  | nil => rfl
  | cons cell cells ih =>
    unfold fit
    split
    · simp [ih]
    · rfl

/-- How a row of cells is cut: what stands in a page, and, if that is not all, a cell that
separates it from the others, and these. -/
abbrev Cut (α : Type) := List α × Option (α × List α)

/-- Cuts where the separating cell stays in the page. -/
def cutBehind {α : Type} (size : α → Nat) (cells : List α) : Cut α :=
  match fit size cellRoom cells with
  | (inside, []) => (inside, none)
  | (inside, outside) => (inside, inside.getLast?.map fun last => (last, outside))

/-- Cuts where the separating cell stands in neither part. Neither part is empty. -/
def cutAround {α : Type} (size : α → Nat) (cells : List α) : Cut α :=
  match fit size cellRoom cells with
  | (inside, []) => (inside, none)
  | (inside, [last]) => (inside.dropLast, inside.getLast?.map fun middle => (middle, [last]))
  | (inside, middle :: outside) => (inside, some (middle, outside))

/-- A page that is led to, and the cell that separates it from the next one. -/
abbrev Link := Nat × Bytes

/-- Makes the pages of a level; tells the links to all but the last one, and that one. -/
def addLevel {α : Type} (cut : List α → Cut α) (page : List α → Option α → Bytes)
    (separator : α → Bytes) (steps : Nat) (cells : List α) : Making (List Link × Nat) :=
  match steps, cut cells with
  | steps + 1, (inside, some (middle, outside)) => do
    let here ← addPage (page inside (some middle))
    let (links, last) ← addLevel cut page separator steps outside
    return ((here, separator middle) :: links, last)
  | _, (inside, _) => return ([], ← addPage (page inside none))

/-- The cell for a link. -/
def linkCell (l : Link) : Bytes := bytesOf 4 l.1 ++ l.2

/-- Makes the pages that lead to those of a level, up to the root; tells its number. -/
def addBranches (kind : PageKind) (levels : Nat) (links : List Link) (last : Nat) : Making Nat :=
  match levels with
  | 0 => return last
  | levels + 1 => do
    if links.isEmpty then return last
    let branch (inside : List Link) (middle : Option Link) : Bytes :=
      let rightmost := match middle with
        | some (child, _) => child
        | none => last
      page [] kind (some rightmost) (inside.map linkCell)
    let (links, last) ← addLevel (cutAround fun l => (linkCell l).length) branch Prod.snd
      links.length links
    addBranches kind levels links last

/-! ## Trees -/

/-- Some bytes cut into parts of the given length. Each part takes one of `steps`. -/
def parts (length steps : Nat) (bytes : Bytes) : List Bytes :=
  match steps with
  | 0 => []
  | steps + 1 =>
    if bytes.isEmpty then [] else bytes.take length :: parts length steps (bytes.drop length)

/-- Puts bytes into a chain of pages; tells the first one, or zero if there is none. -/
def addChain (bytes : Bytes) : Making Nat :=
  let length := pageSize - 4
  (parts length (bytes.length / length + 1) bytes).foldrM
    (fun part next =>
      addPage (bytesOf 4 next ++ part ++ List.replicate (length - part.length) 0)) 0

/-- The size of a record in varying form, and the part of it that stays in its page, with the way
to the rest. -/
def addRecord (room : Nat) (cells : List Cell) : Making (Bytes × Bytes) := do
  let bytes := recordBytes cells
  let size := Varint.encode bytes.length
  let kept := localSize pageSize room bytes.length
  if kept = bytes.length then return (size, bytes)
  return (size, bytes.take kept ++ bytesOf 4 (← addChain (bytes.drop kept)))

/-- The number of a row and its cell, where the number stands behind the size of the record. -/
def addNumberedRow (row : Row) : Making (Bytes × Bytes) := do
  let number := Varint.encode (unsigned 8 (row.number?.getD 0))
  let (size, bytes) ← addRecord (rowRoom pageSize) row.cells
  return (number, size ++ number ++ bytes)

/-- The least length of a cell. -/
def leastCell : Nat := 4

/-- The cell of a row without a number. -/
def addKeyedRow (row : Row) : Making Bytes := do
  let (size, bytes) ← addRecord (keyRoom pageSize) row.cells
  return size ++ bytes ++ List.replicate (leastCell - (size.length + bytes.length)) 0

/-- Makes the tree of rows with numbers; tells its root. -/
def addNumberedTree (rows : List Row) : Making Nat := do
  let cells ← rows.mapM addNumberedRow
  let leaf (inside : List (Bytes × Bytes)) (_ : Option (Bytes × Bytes)) : Bytes :=
    page [] .numberedLeaf none (inside.map Prod.snd)
  let (links, last) ← addLevel (cutBehind fun cell => cell.2.length) leaf Prod.fst
    cells.length cells
  addBranches .numberedBranch mostLevels links last

/-- Makes the tree of rows without numbers; tells its root. -/
def addKeyedTree (rows : List Row) : Making Nat := do
  let cells ← rows.mapM addKeyedRow
  let leaf (inside : List Bytes) (_ : Option Bytes) : Bytes := page [] .keyedLeaf none inside
  let (links, last) ← addLevel (cutAround List.length) leaf id cells.length cells
  addBranches .keyedBranch mostLevels links last

/-! ## The first page -/

/-- Makes the tree of a table; tells the row about it in the first page. -/
def addTable (t : TableDraft) : Making (List Cell) := do
  let root ← if t.isNumbered then addNumberedTree t.rows else addKeyedTree t.rows
  let text (s : String) : Cell := .text (Utf8.encode s)
  return [text "table", text t.name, text t.name, .integer root, text t.statement]

/-- The description of a file that has so many pages. -/
def head (version : Int) (pageCount : Nat) : Bytes :=
  PageFile.mark ++ bytesOf 2 pageSize ++ bytesOf 1 1 ++ bytesOf 1 1 ++ bytesOf 1 0
    ++ fractions.flatMap (bytesOf 1) ++ bytesOf 4 1 ++ bytesOf 4 pageCount ++ bytesOf 4 0
    ++ bytesOf 4 0 ++ bytesOf 4 1 ++ bytesOf 4 4 ++ bytesOf 4 0 ++ bytesOf 4 0 ++ bytesOf 4 1
    ++ bytesOf 4 (unsigned 4 version) ++ List.replicate 28 0 ++ bytesOf 4 1 ++ bytesOf 4 3045000

/-- The file of some tables. There is room for all of them in the first page. -/
def fileOf (version : Int) (tables : List TableDraft) : Bytes :=
  let (descriptions, pages) := (tables.mapM addTable).run #[]
  let rows := descriptions.zipIdx.map fun (cells, i) =>
    let bytes := recordBytes cells
    Varint.encode bytes.length ++ Varint.encode (i + 1) ++ bytes
  page (head version (pages.size + 1)) .numberedLeaf none rows ++ pages.toList.flatten

end PageDraft

end Clarify.Tables
