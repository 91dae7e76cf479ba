import Clarify.Archive.Entry
import Clarify.Disk.Files

/-!
# Why a run fails

A run fails only if the old archive cannot be opened, if one of its entries cannot even be copied,
or if the new archive cannot be written. It is broken off if its settings lead to numbers that are
too large to count with. An error is told as a row of sentences, each one the
cause of the one before.

Results:
* `head?_chain`: the first sentence is the message.
-/

namespace Clarify

/-- Why an archive is not opened (`ArchiveOpenError`). -/
inductive OpenError where
  | unreadable (path : String) (cause : FileError)
  | noArchive (path : String)
  | sameAsInput (path : String)
deriving Repr, DecidableEq

namespace OpenError

/-- What is wrong with a file that holds no archive. -/
def formatMessage : String := "invalid Zip archive: Could not find EOCD"

/-- The wording of a cause. -/
def message : OpenError → String
  | unreadable path cause => s!"Failed to open archive {path}: {cause.message}"
  | noArchive path => s!"{path} is not a valid archive container: {formatMessage}"
  | sameAsInput path => s!"Output archive {path} would overwrite the input archive"

/-- The causes behind a cause. -/
def sources : OpenError → List String
  | unreadable _ cause => [cause.message]
  | noArchive _ => [formatMessage]
  | sameAsInput _ => []

end OpenError

/-- Why a run fails. -/
inductive RunError where
  | opening (e : OpenError)
  | copying (cause : EntryError)
  | writing (cause : FileError)
  | overflow
deriving Repr, DecidableEq

namespace RunError

/-- The wording of a cause. -/
def message : RunError → String
  | opening e => e.message
  | copying cause => "Failed to write output archive: " ++ cause.message
  | writing cause => "I/O error: " ++ cause.message
  | overflow => "A number in the settings of the run is too large"

/-- An error and the causes behind it. -/
def chain : RunError → List String
  | opening e => e.message :: e.sources
  | copying cause => [(copying cause).message, cause.message]
  | writing cause => [(writing cause).message, cause.message]
  | overflow => [overflow.message]

theorem head?_chain (e : RunError) : e.chain.head? = some e.message := by
  cases e <;> rfl

end RunError

end Clarify
