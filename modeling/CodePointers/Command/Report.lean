import CodePointers.Json
import CodePointers.Snapshot
import CodePointers.Tracker.Scan

/-!
The reports of the commands: what a scan of a workspace found, and what points at one line. Both
are written as text, with paths relative to the root, or as JSON, with full paths.
-/

namespace CodePointers

structure ScanReport where
  root : Path
  summary : ScanSummary
  targets : List TargetEntry

structure RefsReport where
  root : Path
  file : Path
  line : Nat
  references : List Reference

def scannedTracker (disk : Disk) (root : Path) (settings : Settings) : ScanSummary × Tracker :=
  let (summary, session) := Session.scan disk { tracker := .ofDisk disk root settings }
  (summary, session.tracker)

def joinLines (lines : List String) : String := String.join (lines.map (· ++ "\n"))

def LineRange.json (range : LineRange) : Json :=
  .object [("start_line", .number range.first), ("end_line", .number range.last)]

def Reference.json (reference : Reference) : Json :=
  .object [
    ("source_file", .string reference.source.text),
    ("source_start_offset", .number reference.start),
    ("source_end_offset", .number reference.stop),
    ("target_start_line", .number reference.lines.first),
    ("target_end_line", .number reference.lines.last),
    ("definition_line", .number reference.definitionLine)]

def RangeEntry.json (entry : RangeEntry) : Json :=
  .object [("range", entry.range.json), ("references", .array (entry.references.map (·.json)))]

def TargetEntry.json (entry : TargetEntry) : Json :=
  .object [("file", .string entry.file.text), ("ranges", .array (entry.ranges.map (·.json)))]

def ScanSummary.json (summary : ScanSummary) : Json :=
  .object [
    ("files_seen", .number summary.filesSeen),
    ("files_indexed", .number summary.filesIndexed),
    ("files_failed", .number summary.filesFailed),
    ("files_skipped", .number summary.filesSkipped),
    ("files_removed", .number summary.filesRemoved),
    ("references", .number summary.references),
    ("parse_failures", .number summary.parseFailures),
    ("unresolved", .number summary.unresolved),
    ("cancelled", .boolean summary.cancelled)]

def renderDuration (nanoseconds : Nat) : String :=
  let (unit, name) :=
    if 1000000000 ≤ nanoseconds then (1000000000, "s")
    else if 1000000 ≤ nanoseconds then (1000000, "ms")
    else if 1000 ≤ nanoseconds then (1000, "µs")
    else (1, "ns")
  let hundredths := (100 * nanoseconds + unit / 2) / unit
  let whole := hundredths / 100
  let decimals := [Nat.digitChar (hundredths / 10 % 10), Nat.digitChar (hundredths % 10)]
  s!"{whole}." ++ String.ofList decimals ++ name

namespace ScanReport

def ofDisk (disk : Disk) (root : Path) (settings : Settings) : ScanReport :=
  let (summary, tracker) := scannedTracker disk root settings
  { root := tracker.layout.root, summary, targets := tracker.snapshot }

def json (report : ScanReport) : Json :=
  .object [("root", .string report.root.text), ("summary", report.summary.json),
    ("targets", .array (report.targets.map (·.json)))]

def referenceLine (report : ScanReport) (reference : Reference) : String :=
  let source := Path.displayWithin report.root reference.source
  s!"    <- {source}:{reference.definitionLine}"

def rangeLines (report : ScanReport) (entry : RangeEntry) : List String :=
  s!"  {String.ofList entry.range.label}" :: entry.references.map report.referenceLine

def targetLines (report : ScanReport) (entry : TargetEntry) : List String :=
  Path.displayWithin report.root entry.file :: entry.ranges.flatMap report.rangeLines

def summaryLines (report : ScanReport) (duration : String) : List String :=
  let summary := report.summary
  let targets := report.targets.length
  [s!"  {summary.filesSeen} files scanned in {duration} ({summary.filesIndexed} indexed, " ++
      s!"{summary.filesSkipped} skipped, {summary.filesFailed} failed)",
    s!"  {summary.references} references into {targets} files, {summary.unresolved} unresolved, " ++
      s!"{summary.parseFailures} malformed"]

def text (report : ScanReport) (duration : String) : String :=
  joinLines (
    [s!"=== coderef scan: {report.root.display} ===", ""] ++
    report.targets.flatMap report.targetLines ++
    (if report.targets.isEmpty then [] else [""]) ++
    report.summaryLines duration)

end ScanReport

namespace RefsReport

def ofDisk (disk : Disk) (root file : Path) (line : Nat) (settings : Settings) : RefsReport :=
  let (_, tracker) := scannedTracker disk root settings
  { root := tracker.layout.root, file := tracker.resolveInput disk file, line
    references := sorted Reference.bySource (tracker.referencesAt disk file line) }

def json (report : RefsReport) : Json :=
  .object [("root", .string report.root.text), ("file", .string report.file.text),
    ("line", .number report.line), ("references", .array (report.references.map (·.json)))]

def referenceLine (report : RefsReport) (reference : Reference) : String :=
  let source := Path.displayWithin report.root reference.source
  s!"{source}:{reference.definitionLine}  -> {String.ofList reference.lines.label}"

def text (report : RefsReport) : String :=
  if report.references.isEmpty then
    let file := Path.displayWithin report.root report.file
    joinLines [s!"No references to {file}:{report.line}"]
  else joinLines (report.references.map report.referenceLine)

end RefsReport

def followingLine (summary : ScanSummary) : String :=
  s!"Indexed {summary.filesIndexed} files, {summary.references} references " ++
    s!"({summary.unresolved} unresolved). Watching for changes; Ctrl-C to stop."

end CodePointers
