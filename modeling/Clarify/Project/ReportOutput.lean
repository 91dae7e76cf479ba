import Clarify.Json.Printer
import Clarify.Run.Report

/-!
# Printed reports

A report on a run as JSON and as text.
-/

namespace Clarify

/-- The changes in a run to be printed. -/
def ChangeCounts.toOutput (c : ChangeCounts) : Json.Output :=
  .record [
    ("symbols_renamed", .nat c.symbolsRenamed),
    ("references_rewritten", .nat c.referencesRenamed),
    ("literals_recovered", .nat c.literalsRecovered),
    ("literal_failures", .nat c.literalFailures),
    ("jumps_threaded", .nat c.jumpsThreaded),
    ("branches_collapsed", .nat c.branchesCollapsed),
    ("methods_removed", .nat c.methodsRemoved),
    ("native_methods", .nat c.nativeMethods)]

namespace RunReport

/-- A report to be printed. -/
def toOutput (r : RunReport) : Json.Output :=
  .record [
    ("input", .text r.input),
    ("output", .text r.output),
    ("log_path", match r.logPath with
      | some path => .text path
      | none => .null),
    ("status", .text r.status.word),
    ("entries", .nat r.entries),
    ("units", .nat r.units),
    ("transformed", .nat r.transformed),
    ("skipped", .nat r.skipped),
    ("predicted_mappings", .nat r.predictedMappings),
    ("collisions", .nat r.collisions),
    ("timed_out", .bool r.timedOut),
    ("stats", r.counts.toOutput),
    ("started_at", .text r.startedAt),
    ("finished_at", .text r.finishedAt)]

/-- The lines of a report. -/
def lines (r : RunReport) : List String :=
  [s!"Deobfuscation {r.status.word}:",
    s!"  Input: {r.input}",
    s!"  Output: {r.output}",
    s!"  Units: {r.transformed} transformed, {r.skipped} skipped",
    s!"  Literals recovered: {r.counts.literalsRecovered}",
    s!"  Symbols renamed: {r.counts.symbolsRenamed}",
    s!"  Methods removed: {r.counts.methodsRemoved}"]
  ++ (if r.counts.nativeMethods = 0 then [] else
    [s!"  Native methods (manual review): {r.counts.nativeMethods}"])
  ++ (match r.logPath with
    | some path => [s!"  Log: {path}"]
    | none => [])

end RunReport

end Clarify
