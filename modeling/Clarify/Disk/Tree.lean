import Clarify.Disk.Files
import Clarify.Disk.Path
import Std.Data.TreeMap

/-!
# A tree of files

A system whose files are held in a value, with a clock that stands still. Paths are followed as
they are written: a name leads into a directory and two dots out of it.

Results:
* `find?_put`: what was put somewhere is found there.
-/

namespace Clarify

/-- What stands in a tree. -/
inductive Node where
  | file (bytes : Bytes)
  | directory
deriving Repr, DecidableEq

/-- The kind of what stands in a tree. -/
def Node.kind : Node → FileKind
  | file _ => .file
  | directory => .directory

/-- A tree of files. -/
structure Tree where
  /-- What there is besides the root, by its absolute path. -/
  nodes : Std.TreeMap String Node
  workingDirectory : String
  time : String

namespace Tree

/-- A place: the names that lead to it from the root, the last one first. -/
abbrev Place := List String

/-- The absolute path of a place. -/
def pathOf (p : Place) : String := "/" ++ "/".intercalate p.reverse

/-- What there is at a place. -/
def find? (t : Tree) (p : Place) : Option Node :=
  if p.isEmpty then some .directory else t.nodes[pathOf p]?

/-- The tree with something at a place. -/
def put (t : Tree) (p : Place) (n : Node) : Tree := { t with nodes := t.nodes.insert (pathOf p) n }

theorem find?_put (t : Tree) {p : Place} (n : Node) (inside : p ≠ []) :
    (t.put p n).find? p = some n := by
  simp [find?, put, inside]

/-! ## Following paths -/

/-- The most bytes that a name may have. -/
def maxNameLength : Nat := 255

/-- The number of bytes that a path may not reach. -/
def pathLimit : Nat := 4096

/-- The place that is reached by the given steps. Every step has to be made in a directory. -/
def follow (t : Tree) (p : Place) : List String → Except FileError Place
  | [] => .ok p
  | step :: rest =>
    match t.find? p with
    | none => .error .missing
    | some (.file _) => .error .notDirectory
    | some .directory =>
      if step = "." then follow t p rest
      else if step = ".." then follow t p.tail rest
      else if maxNameLength < step.utf8ByteSize then .error .nameTooLong
      else follow t (step :: p) rest

/-- Where a path starts. -/
def base (t : Tree) (path : String) : Place :=
  if Path.isAbsolute path then [] else (Path.pieces t.workingDirectory).reverse

/-- Whether a path has a zero character in it, which no path may have. -/
def hasZero (path : String) : Bool := path.toList.contains '\x00'

/-- The place of a path, whether or not there is anything. -/
def place (t : Tree) (path : String) : Except FileError Place :=
  if hasZero path then .error .zeroInPath
  else if pathLimit ≤ path.utf8ByteSize then .error .nameTooLong
  else if path.isEmpty then .error .missing
  else t.follow (t.base path) (Path.pieces path)

/-- Whether a path ends in a slash and so can only be that of a directory. -/
def wantsDirectory (path : String) : Bool := path.toList.getLast? == some '/'

/-- What there is at a path, and its place. -/
def lookup (t : Tree) (path : String) : Except FileError (Place × Node) := do
  let p ← t.place path
  match t.find? p with
  | none => throw .missing
  | some (.file bytes) =>
    if wantsDirectory path then throw .notDirectory else return (p, .file bytes)
  | some .directory => return (p, .directory)

/-- What there is at a path. -/
def kind (t : Tree) (path : String) : Except FileError FileKind :=
  return (← t.lookup path).2.kind

/-- What there is at a path, if anything can be found there. -/
def kind? (t : Tree) (path : String) : Option FileKind := (t.kind path).toOption

/-- The names of what stands in a directory. -/
def names (t : Tree) (path : String) : List String :=
  match t.lookup path with
  | .ok (p, .directory) =>
    t.nodes.toList.filterMap fun (other, _) =>
      match (Path.pieces other).reverse with
      | name :: above => if above = p then some name else none
      | [] => none
  | _ => []

/-! ## Reading and writing -/

/-- What a file holds. -/
def read (t : Tree) (path : String) : Except FileError Bytes := do
  match (← t.lookup path).2 with
  | .file bytes => return bytes
  | .directory => throw .isDirectory

/-- The tree with a file at a path. -/
def write (t : Tree) (path : String) (bytes : Bytes) : Except FileError Tree := do
  let p ← t.place path
  match t.find? p with
  | some .directory => throw .isDirectory
  | some (.file _) => if wantsDirectory path then throw .notDirectory
  | none => if wantsDirectory path then throw .isDirectory
  return t.put p (.file bytes)

/-- The tree with more at the end of a file. -/
def append (t : Tree) (path : String) (bytes : Bytes) : Except FileError Tree :=
  match t.read path with
  | .ok stored => t.write path (stored ++ bytes)
  | .error .missing => t.write path bytes
  | .error e => .error e

/-- The tree with a new file in the place of what was at a path. A path that ends in a dot or two
names no place for a file, but leads there. -/
def replace (t : Tree) (path : String) (bytes : Bytes) : Except FileError Tree := do
  if hasZero path then throw .badArgument
  let steps := Path.pieces path
  match steps.getLast? with
  | none => throw .busy
  | some last =>
    if last = "." ∨ last = ".." then
      let p ← t.follow (t.base path) steps
      match t.find? p with
      | some .directory => throw .busy
      | some (.file _) => throw .notDirectory
      | none => throw .missing
    else
      let p ← t.place path
      if wantsDirectory path then throw .notDirectory
      if t.find? p = some .directory then throw .isDirectory
      return t.put p (.file bytes)

/-- The tree with a new directory at a path. -/
def createDirectory (t : Tree) (path : String) : Except FileError Tree := do
  let p ← t.place path
  if (t.find? p).isSome then throw .exists
  return t.put p .directory

/-- A change of the tree, unless it fails. -/
def changing (change : Tree → Except FileError Tree) : StateM Tree (Except FileError Unit) :=
  fun t =>
    match change t with
    | .ok t' => (.ok (), t')
    | .error e => (.error e, t)

/-- Makes sure that there is a directory at a path, and those above it. Each of these takes one of
`steps`. Those that were made stay if a later one fails. -/
def createDirectoriesWithin (steps : Nat) (path : String) :
    StateM Tree (Except FileError Unit) := do
  match steps with
  | 0 => return .error .missing
  | steps + 1 =>
    if path.isEmpty then return .ok ()
    let create := changing fun t => t.createDirectory path
    let settle (result : Except FileError Unit) : StateM Tree (Except FileError Unit) := do
      match result with
      | .ok () => return .ok ()
      | .error e => return if (← get).kind? path = some .directory then .ok () else .error e
    match ← create with
    | .error .missing =>
      match Path.parent? path with
      | none => return .error (.other "failed to create whole tree")
      | some above =>
        match ← createDirectoriesWithin steps above with
        | .error e => return .error e
        | .ok () => settle (← create)
    | result => settle result

/-- Makes sure that there is a directory at a path, and those above it. The path gets shorter with
each of them. -/
def createDirectories (path : String) : StateM Tree (Except FileError Unit) :=
  createDirectoriesWithin (path.length + 1) path

/-! ## The tree as a system -/

/-- What is asked of a tree that stays as it is. -/
def asking {α : Type} (question : Tree → α) : StateM Tree α := fun t => (question t, t)

instance : Files (StateM Tree) where
  read path := asking fun t => t.read path
  write path bytes := changing fun t => t.write path bytes
  append path bytes := changing fun t => t.append path bytes
  replace path bytes := changing fun t => t.replace path bytes
  createDirectories path := createDirectories path
  kind path := asking fun t => t.kind path
  canonical? path := asking fun t =>
    match t.lookup path with
    | .ok (p, _) => some (pathOf p)
    | .error _ => none
  workingDirectory := asking Tree.workingDirectory
  now := asking Tree.time

end Tree

end Clarify
