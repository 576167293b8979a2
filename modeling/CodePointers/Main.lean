import CodePointers.Command
import CodePointers.FileEvent
import CodePointers.Resolution.Candidates

/-!
The command line program: it takes in the part of the file system that a command can ask about,
runs the command on it, and prints the result.
-/

namespace CodePointers

def pathOf (name : String) : Path := .ofText name.toList

/-- Takes in a file. Only texts that can be indexed and manifests are read, of all other files it
matters only that they are there. -/
def takeFile (disk : Disk) (entry : IO.FS.DirEntry) (modified : Nat) : IO Disk := do
  let path := pathOf entry.path.toString
  if hasIndexedExtension path || entry.fileName == manifestName then
    try
      let bytes ← IO.FS.readBinFile entry.path
      return disk.write path { content := .ofBytes bytes.toList, modified }
    catch _ => return disk.write path { content := .binary [255], modified }
  else return disk.write path { content := .text [], modified }

/-- Takes in what lies at and below an entry; links are passed over. -/
partial def takeTree (disk : Disk) (entry : IO.FS.DirEntry) : IO Disk := do
  let metadata ← entry.path.symlinkMetadata
  match metadata.type with
  | .file =>
      let modified := metadata.modified
      takeFile disk entry (1000000000 * modified.sec.toNat + modified.nsec.toNat)
  | .dir =>
      let mut disk := disk.makeFolder (pathOf entry.path.toString)
      let entries ← try entry.path.readDir catch _ => pure #[]
      for inner in entries do
        disk ← try takeTree disk inner catch _ => pure disk
      return disk
  | _ => return disk

def outerCandidates (disk : Disk) (root : Path) : List Path :=
  let layout := Layout.ofDisk disk root
  let occurrences := (layout.indexableFiles disk).flatMap fun file =>
    match disk.file? file with
    | some { content := .text text, .. } => Occurrence.findAll text
    | _ => []
  let candidates := occurrences.flatMap fun found => match Pointer.parse found.text with
    | .error _ => []
    | .ok pointer => Resolution.candidatesOf layout pointer.moduleName pointer.relativePath
  (candidates.map (·.path)).filter fun path => !path.isWithin layout.root

def takeWorkspace (disk : Disk) (entry : IO.FS.DirEntry) : IO Disk := do
  let mut disk ← takeTree disk entry
  for path in outerCandidates disk (pathOf entry.path.toString) do
    let outside : IO.FS.DirEntry := { root := "/", fileName := path.display }
    if (← outside.path.pathExists) && !(← outside.path.isDir) then
      disk := disk.write path { content := .text [], modified := 0 }
  return disk

def takeArguments (arguments : List String) : IO Disk := do
  let here ← IO.currentDir
  let mut disk := Disk.empty.makeFolder (pathOf here.toString)
  for argument in arguments.drop 1 do
    let entry : IO.FS.DirEntry := { root := here, fileName := argument }
    if argument != "" && !argument.startsWith "-" && (← entry.path.pathExists) then
      let entry : IO.FS.DirEntry := { root := ← IO.FS.realPath entry.path, fileName := "" }
      let named : IO.FS.DirEntry := { root := "/", fileName := entry.root.toString }
      disk ← takeWorkspace disk named
  return disk

partial def follow (arguments : List String) (disk : Disk) (tracker : Tracker) : IO Unit := do
  IO.sleep 1000
  let current ← takeArguments arguments
  if current.root = disk.root then follow arguments disk tracker
  else follow arguments current (tracker.applyBatch current [.rescan])

def runProgram (arguments : List String) : IO UInt32 := do
  let start ← IO.monoNanosNow
  let disk ← match arguments.head? with
    | some "scan" | some "refs" | some "watch" => takeArguments arguments
    | _ => pure Disk.empty
  let run := Command.run disk (pathOf (← IO.currentDir).toString) (arguments.map String.toList)
  match run with
  | .watching root =>
      let (summary, tracker) := scannedTracker disk root .default
      IO.println (followingLine summary)
      (← IO.getStdout).flush
      follow arguments disk tracker
      return 0
  | run =>
      let stop ← IO.monoNanosNow
      let result := run.result (renderDuration (stop - start))
      IO.print result.stdout
      IO.eprint result.stderr
      return result.code.toUInt32

end CodePointers

def main (arguments : List String) : IO UInt32 := CodePointers.runProgram arguments
