/-!
# Paths

A path is a text in which slashes separate names. Repeated slashes and single dots between them
do not matter, two dots lead to the directory above, and a slash in front makes a path absolute.
A path keeps the form that it was written in.

Results:
* `join_absolute`: an absolute path is not taken as relative to anything.
-/

namespace Clarify.Path

/-- Whether a path starts at the root. -/
def isAbsolute (path : String) : Bool := path.toList.head? == some '/'

/-- The path to `part` as seen from `base`. -/
def join (base part : String) : String :=
  if isAbsolute part then part
  else
    match base.toList.getLast? with
    | none => part
    | some '/' => base ++ part
    | some _ => base ++ "/" ++ part

theorem join_absolute (base : String) {part : String} (h : isAbsolute part = true) :
    join base part = part := by
  simp [join, h]

/-! ## Names -/

/-- The texts between slashes, behind the reversed `begun`. -/
def piecesOnto (begun : List Char) : List Char → List String
  | [] => [String.ofList begun.reverse]
  | c :: rest =>
    if c = '/' then String.ofList begun.reverse :: piecesOnto [] rest
    else piecesOnto (c :: begun) rest

/-- The names that a path leads through, single dots included. -/
def pieces (path : String) : List String :=
  (piecesOnto [] path.toList).filter fun piece => !piece.isEmpty

/-- The steps of a path: the root or a single dot if it starts there, and the names. -/
def components (path : String) : List String :=
  let names := (pieces path).filter (· ≠ ".")
  if isAbsolute path then "/" :: names
  else if (pieces path).head? = some "." then "." :: names
  else names

/-- Whether two paths have the same steps. -/
def same (path other : String) : Bool := components path == components other

/-- The path as seen from `base`, if it leads through `base`. -/
def relativeTo? (base path : String) : Option String :=
  let front := components base
  let all := components path
  if front.isPrefixOf all then some ("/".intercalate (all.drop front.length)) else none

/-! ## The last name -/

/-- A reversed path without slashes and single dots at its end. -/
def trimEnd : List Char → List Char
  | ['/'] => ['/']
  | '/' :: rest => trimEnd rest
  | '.' :: '/' :: rest => trimEnd ('/' :: rest)
  | path => path

/-- The last name of a path and the path in front of it, each reversed. -/
def splitLast (path : String) : List Char × List Char :=
  (trimEnd path.toList.reverse).span (· ≠ '/')

/-- The last name of a path, if it ends with one. -/
def fileName? (path : String) : Option String :=
  let name := String.ofList (splitLast path).1.reverse
  if name = "" ∨ name = "." ∨ name = ".." then none else some name

/-- The path without its last step, if it has one. -/
def parent? (path : String) : Option String :=
  match splitLast path with
  | ([], _) => none
  | (_, front) => some (String.ofList (trimEnd front).reverse)

/-- A name split at its last dot, unless that is its first character or there is none. -/
def splitDot (name : String) : String × Option String :=
  let reversed := name.toList.reverse
  let ending := reversed.takeWhile (· ≠ '.')
  match reversed.drop (ending.length + 1) with
  | [] => (name, none)
  | front => (String.ofList front.reverse, some (String.ofList ending.reverse))

/-- The last name without its ending. -/
def stem? (path : String) : Option String := (fileName? path).map fun name => (splitDot name).1

/-- The ending of the last name, behind its last dot. -/
def extension? (path : String) : Option String :=
  (fileName? path).bind fun name => (splitDot name).2

end Clarify.Path
