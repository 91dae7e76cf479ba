import Clarify.Disk.Files
import Clarify.Disk.Path
import Clarify.Run.ArchiveRun
import Clarify.Run.RunError
import Clarify.Run.Schedule

/-!
# A run from file to file

The old archive is read from a file and the new one is written to another, which is complete or
not there at all. The log gets a first line when both are open, and a last line unless the run is
broken off. Its lines are added to its file as the run goes on.
-/

namespace Clarify.FileRun

variable {m : Type → Type} [Monad m] [Files m]

/-- Whether a path leads to the same file as the path of a file that is there (`same_file`). -/
def isSameFile (input output : String) : m Bool := do
  match ← Files.canonical? input with
  | none => return Path.same input output
  | some input =>
    match ← Files.canonical? output with
    | some output => return Path.same input output
    | none =>
      match Path.parent? output, Path.fileName? output with
      | some above, some name =>
        let above := if above.isEmpty then "." else above
        match ← Files.canonical? above with
        | some above => return Path.same (Path.join above name) input
        | none => return false
      | _, _ => return false

/-- The archive in a file (`open_zip`). -/
def openArchive (path : String) : m (Except OpenError Archive) := do
  match ← Files.read path with
  | .error .isDirectory => return .error (.noArchive path)
  | .error cause => return .error (.unreadable path cause)
  | .ok bytes =>
    match Archive.read? bytes with
    | some archive => return .ok archive
    | none => return .error (.noArchive path)

/-- The directory that a file is in. -/
def directoryOf (path : String) : String :=
  match Path.parent? path with
  | some above => if above.isEmpty then "." else above
  | none => "."

/-- The archive, when there is a directory for the output file. -/
def beginOutput (output : String) (archive : Archive) : m (Except OpenError Archive) := do
  match ← Files.createDirectories (directoryOf output) with
  | .error cause => return .error (.unreadable output cause)
  | .ok () => return .ok archive

/-- The archive in the input file, to be put together anew in the output file. -/
def openSource (input output : String) : m (Except OpenError Archive) := do
  if ← isSameFile input output then return .error (.sameAsInput output)
  match ← openArchive input with
  | .error e => return .error e
  | .ok archive => beginOutput output archive

/-- The archive in the input file, to be read first and then put together anew in the output
file. -/
def openBoth (input output : String) : m (Except OpenError Archive) := do
  match ← openArchive input with
  | .error e => return .error e
  | .ok archive =>
    if ← isSameFile input output then return .error (.sameAsInput output)
    beginOutput output archive

/-- Puts an archive in its place. -/
def writeArchive (path : String) (archive : Archive) : m (Except RunError Unit) := do
  match ← Files.replace path archive.write with
  | .ok () => return .ok ()
  | .error cause => return .error (.writing cause)

/-! ## The log file -/

/-- Adds the lines that a log has got since it was `earlier` to its file. What the file does not
take is lost. -/
def writeLines (earlier log : RunLog) : m Unit := do
  if let some path := log.path then
    discard (Files.append path (Utf8.encode (log.textSince earlier)))

/-- Whether two paths lead to one file that is there. -/
def isOneFile (path other : String) : m Bool := do
  match ← Files.canonical? path with
  | some place => return (← Files.canonical? other) == some place
  | none => return false

/-- Whether a new file at a path takes the place of the log file. Lines that are written later do
not get into the new file. -/
def replacesLog (log : RunLog) (path : String) : m Bool :=
  match log.path with
  | some logPath => isOneFile logPath path
  | none => return false

/-! ## The run -/

/-- What a run goes through, besides the files: the mapping and the log. -/
structure State where
  store : Mapping
  log : RunLog

/-- The first line of a run. -/
def firstLine (input output : String) (archive : Archive) (p : NamePredictor) : String :=
  s!"=== Deobfuscation started: {input} -> {output} "
    ++ s!"({archive.entries.length} entries, predictor {p.word}) ==="

/-- The last line of a run that succeeded. -/
def finishLine (r : RunReport) : String := s!"=== Deobfuscation finished: {r.summary} ==="

/-- The last line of a run that failed. -/
def failLine (e : RunError) : String := s!"=== Deobfuscation failed: {e.message} ==="

/-- A log with more lines of one time. -/
def appendAll (log : RunLog) (time : String) (notes : List Note) : RunLog :=
  notes.foldl (fun log n => log.append time n) log

/-- The report on a run. -/
def report (input output : String) (logPath : Option String) (archive : Archive)
    (o : ArchiveRun.Outcome) (startedAt finishedAt : String) : RunReport where
  input := input
  output := output
  logPath := logPath
  status := o.status
  entries := archive.entries.length
  units := o.units
  transformed := o.transformed
  skipped := o.skipped
  predictedMappings := o.predicted
  collisions := o.collisions
  timedOut := o.timedOut
  counts := o.counts
  startedAt := startedAt
  finishedAt := finishedAt

/-- How many seconds a clock can count up to. -/
def clockLimit : Nat := 0x8000000000000000

/-- How many seconds a clock has counted at least when a run starts. -/
def clockStart : Nat := 60

/-- Whether the deadline of a run is too late for a clock. -/
def deadlineOverflows (setup : RunSetup) : Bool :=
  clockLimit ≤ setup.timeoutSeconds + clockStart

/-- Whether the jobs that a run may have at a time are too many to be counted. -/
def jobsOverflow (setup : RunSetup) : Bool :=
  UInt64.size ≤ Schedule.workers setup.workers + setup.queueCapacity

/-- Runs over the archive in one file into another file. The lines of the log are in its file
before the new archive is in its place. -/
def run (d : Disturbance) (setup : RunSetup) (s : State) (input output : String) :
    m (Except RunError RunReport × State) := do
  if deadlineOverflows setup then return (.error .overflow, s)
  let startedAt ← Files.now
  let failed (s : State) (e : RunError) : m (Except RunError RunReport × State) := do
    let log := s.log.fail (← Files.now) (failLine e)
    writeLines s.log log
    return (.error e, { s with log })
  match ← openBoth input output with
  | .error e => failed s (.opening e)
  | .ok archive =>
    let (_, begun) := s.log.begin startedAt (firstLine input output archive setup.policy.predictor)
    if jobsOverflow setup then
      writeLines s.log begun
      return (.error .overflow, { s with log := begun })
    let o := ArchiveRun.run d setup s.store archive
    let log := appendAll begun startedAt o.notes
    writeLines s.log log
    let s : State := { store := o.store, log }
    match o.fault? with
    | some cause => failed s (.copying cause)
    | none =>
      let isReplaced ← replacesLog log output
      match ← writeArchive output o.archive with
      | .error e => failed s e
      | .ok () =>
        let finishedAt ← Files.now
        let r := report input output log.path archive o startedAt finishedAt
        let finished := log.finish finishedAt (finishLine r)
        if !isReplaced then writeLines log finished
        return (.ok r, { s with log := finished })

end Clarify.FileRun
