import Clarify.Bytes

/-!
# Files

What the program asks of the system it runs on: to read, write and replace files, to create
directories, to tell what is there, and the time.
-/

namespace Clarify

/-- Why a file could not be read or written. -/
inductive FileError where
  | missing
  | exists
  | notDirectory
  | isDirectory
  /-- Nothing can be put in the place of what is there. -/
  | busy
  | badArgument
  | nameTooLong
  /-- The path has a zero character in it. -/
  | zeroInPath
  /-- The file holds bytes that are no text. -/
  | notText
  | other (text : String)
deriving Repr, DecidableEq

/-- The wording of a cause. -/
def FileError.message : FileError → String
  | missing => "No such file or directory (os error 2)"
  | «exists» => "File exists (os error 17)"
  | notDirectory => "Not a directory (os error 20)"
  | isDirectory => "Is a directory (os error 21)"
  | busy => "Device or resource busy (os error 16)"
  | badArgument => "Invalid argument (os error 22)"
  | nameTooLong => "File name too long (os error 36)"
  | zeroInPath => "file name contained an unexpected NUL byte"
  | notText => "stream did not contain valid UTF-8"
  | other text => text

/-- What is found at a path. -/
inductive FileKind where
  | file
  | directory
deriving Repr, DecidableEq

/-- A system with files. -/
class Files (m : Type → Type) where
  /-- What a file holds. -/
  read : String → m (Except FileError Bytes)
  /-- Gives a file new contents; one that is missing is begun. -/
  write : String → Bytes → m (Except FileError Unit)
  /-- Adds to what a file holds; one that is missing is begun. -/
  append : String → Bytes → m (Except FileError Unit)
  /-- Puts a new file in the place of what was there, at once. -/
  replace : String → Bytes → m (Except FileError Unit)
  /-- Makes sure that there is a directory, with all those above it. -/
  createDirectories : String → m (Except FileError Unit)
  /-- What there is at a path. -/
  kind : String → m (Except FileError FileKind)
  /-- The one path without detours to what there is at a path. -/
  canonical? : String → m (Option String)
  workingDirectory : m String
  /-- The time, as it is written down. -/
  now : m String

/-- What there is at a path, if anything can be found there. -/
def Files.kind? {m : Type → Type} [Monad m] [Files m] (path : String) : m (Option FileKind) :=
  return (← Files.kind path).toOption

end Clarify
