import Clarify.Disk.Moment
import Clarify.Project.CommandLine
import Std.Time.DateTime.Timestamp

/-!
# The program

The command line on the files of the system that the program runs on.
-/

namespace Clarify

/-- The cause of a failure that the system tells of. -/
def FileError.ofSystem : IO.Error → FileError
  | .noFileOrDirectory .. => .missing
  | .alreadyExists .. => .exists
  | .inappropriateType _ _ "not a directory" => .notDirectory
  | .inappropriateType _ _ "is a directory" => .isDirectory
  | .resourceBusy .. => .busy
  | .invalidArgument _ 36 _ => .nameTooLong
  | .invalidArgument .. => .badArgument
  | .permissionDenied .. => .other "Permission denied (os error 13)"
  | e => .other (toString e)

/-- What comes of something that the system may fail at. -/
def attempt {α : Type} (action : IO α) : IO (Except FileError α) := do
  match ← action.toBaseIO with
  | .ok a => return .ok a
  | .error e => return .error (.ofSystem e)

/-- Something that the system is asked to do at a path. No path has a zero character in it. -/
def attemptAt {α : Type} (path : String) (action : IO α) : IO (Except FileError α) :=
  if path.toList.contains '\x00' then return .error .zeroInPath else attempt action

/-- Adds to a file. -/
def appendFile (path : String) (bytes : Bytes) : IO Unit := do
  let file ← IO.FS.Handle.mk path .append
  file.write ⟨bytes.toArray⟩
  file.flush

/-- Puts a new file in the place of what is at a path. It is written beside that first. -/
def replaceFile (path : String) (bytes : Bytes) : IO Unit := do
  let draft := Path.join (FileRun.directoryOf path) ".clarify.part"
  IO.FS.writeBinFile draft ⟨bytes.toArray⟩
  try IO.FS.rename draft path
  catch e =>
    IO.FS.removeFile draft
    throw e

/-- What there is at a path. -/
def kindOf (path : String) : IO FileKind := do
  let found ← IO.FS.realPath path
  return if ← found.isDir then .directory else .file

instance : Files IO where
  read path := attemptAt path do return (← IO.FS.readBinFile path).toList
  write path bytes := attemptAt path (IO.FS.writeBinFile path ⟨bytes.toArray⟩)
  append path bytes := attemptAt path (appendFile path bytes)
  replace path bytes := do
    match ← attemptAt path (replaceFile path bytes) with
    | .error .zeroInPath => return .error .badArgument
    | done => return done
  createDirectories path := attemptAt path (IO.FS.createDirAll path)
  kind path := attemptAt path (kindOf path)
  canonical? path := do return (← attemptAt path (IO.FS.realPath path)).toOption.map (·.toString)
  workingDirectory := return (← IO.currentDir).toString
  now := do
    let time ← Std.Time.Timestamp.now
    return (Moment.mk (time.toNanosecondsSinceUnixEpoch.val / 1000000).toNat).text

end Clarify

/-- Does what the command line asks for. -/
def main (args : List String) : IO UInt32 := do
  let answer : Clarify.Answer ← Clarify.Answer.toWords Clarify.Disturbance.none args
  IO.print answer.shown
  IO.eprint answer.complaint
  return answer.code
