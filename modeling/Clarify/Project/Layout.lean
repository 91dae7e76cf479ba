import Clarify.Disk.Path

/-!
# The layout of a project

Where the files of a project are, as seen from its root.
-/

namespace Clarify

/-- A project at some root (`ProjectLayout`). -/
structure Layout where
  root : String
deriving Repr, DecidableEq

namespace Layout

/-- The directory of the project's own files. -/
def metaDirectory (l : Layout) : String := Path.join l.root ".unravel"

/-- The configuration. -/
def configPath (l : Layout) : String := Path.join l.metaDirectory "project.json"

/-- The database of a new project. -/
def databasePath (l : Layout) : String := Path.join l.metaDirectory "project.db"

/-- The run log of a new project. -/
def logPath (l : Layout) : String := Path.join l.metaDirectory "deobf.log"

/-- The directory of finished archives. -/
def outputsDirectory (l : Layout) : String := Path.join l.root "outputs"

/-- A path as seen from the root, if it leads through the root
(`ProjectLayout::relative_string`). -/
def relative (l : Layout) (path : String) : String := (Path.relativeTo? l.root path).getD path

/-- A path that is relative to the root or absolute. -/
def resolve (l : Layout) (path : String) : String := Path.join l.root path

/-- The output for an archive if none is given (`ProjectLayout::default_output_for`). -/
def defaultOutput (l : Layout) (input : String) : String :=
  let stem := ((Path.stem? input).filter fun stem => !stem.isEmpty).getD "archive"
  let ending := (Path.extension? input).getD "jar"
  Path.join l.outputsDirectory (stem ++ "-deobf." ++ ending)

/-- The name of a project if none is given (`infer_project_name`). -/
def projectName (l : Layout) : String := (Path.fileName? l.root).getD "unnamed-project"

end Layout

end Clarify
