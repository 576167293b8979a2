import CodePointers.Tracker.Removal
import CodePointers.Tracker.Retry

/-!
Reading files and indexing them: one file, the files of a new folder, and the whole workspace. A
scan looks at its cancellation token before each file, and a completed scan forgets the sources
that are no workspace files any more.
-/

namespace CodePointers

/-- What may happen around the files being read. -/
structure Circumstances where
  served : List (Path × Text) := []
  /-- A text submitted for a file during the first read of that file. -/
  edit? : Option (Path × Text) := none
  cancelled : Bool := false
  /-- The read during which the token gets cancelled, the next one being number one. -/
  cancelAtRead? : Option Nat := none

structure Session where
  tracker : Tracker
  circumstances : Circumstances := {}

inductive FileResult where
  | indexed (outcome : Outcome)
  | skipped
  | failed
  | cancelled

structure ScanSummary where
  filesSeen : Nat := 0
  filesIndexed : Nat := 0
  filesFailed : Nat := 0
  filesSkipped : Nat := 0
  filesRemoved : Nat := 0
  references : Nat := 0
  parseFailures : Nat := 0
  unresolved : Nat := 0
  cancelled : Bool := false
deriving DecidableEq

namespace ScanSummary

def add (summary : ScanSummary) : FileResult → ScanSummary
  | .indexed outcome =>
      { summary with
        filesIndexed := summary.filesIndexed + 1
        references := summary.references + outcome.indexed
        parseFailures := summary.parseFailures + outcome.parseFailures
        unresolved := summary.unresolved + outcome.unresolved }
  | .skipped => { summary with filesSkipped := summary.filesSkipped + 1 }
  | .failed => { summary with filesFailed := summary.filesFailed + 1 }
  | .cancelled => { summary with cancelled := true }

def ofResults (results : List FileResult) : ScanSummary :=
  results.foldl add { filesSeen := results.length }

end ScanSummary

namespace Circumstances

def countRead (circumstances : Circumstances) : Circumstances :=
  match circumstances.cancelAtRead? with
  | none => circumstances
  | some 1 => { circumstances with cancelled := true, cancelAtRead? := none }
  | some number => { circumstances with cancelAtRead? := some (number - 1) }

def servedText? (circumstances : Circumstances) (file : Path) : Option Text :=
  (circumstances.served.find? fun served => served.1 == file).map (·.2)

end Circumstances

namespace Session

def forgetText (session : Session) (file : Path) : Session :=
  { session with tracker := session.tracker.forgetText file }

def readText (session : Session) (disk : Disk) (file : Path) : Except ReadError Text × Session :=
  match session.circumstances.servedText? file with
  | some text => (.ok text, session)
  | none =>
      let (text, cache) := session.tracker.cache.read disk file
      (text, { session with tracker := { session.tracker with cache } })

def meetEdit (session : Session) (disk : Disk) (file : Path) : Session :=
  match session.circumstances.edit? with
  | none => session
  | some (edited, text) =>
      if edited == file then
        { tracker := (session.tracker.reindex disk edited text).1
          circumstances := { session.circumstances with edit? := none } }
      else session

/-- One read of a file: what happens during it changes neither the text nor the error that it
returns. -/
def fetch (disk : Disk) (session : Session) (file : Path) : Except ReadError Text × Session :=
  let counted := { session with circumstances := session.circumstances.countRead }
  let (text, session) := counted.readText disk file
  (text, session.meetEdit disk file)

def reindexAt (disk : Disk) (session : Session) (file : Path) (text : Text) (number : Nat) :
    Outcome × Session :=
  let (tracker, outcome) := session.tracker.reindexAt disk file text number
  (outcome, { session with tracker })

/-- A file that is too large counts as one without pointers. -/
def dropOversized (disk : Disk) (session : Session) (file : Path) (number : Nat) :
    Outcome × Session :=
  let (outcome, session) := reindexAt disk session file [] number
  ({ outcome with oversized := true }, session)

def isOversized (session : Session) (size : Nat) : Bool :=
  decide (session.tracker.settings.maxFileSize < size)

def reindexFromDisk (disk : Disk) (session : Session) (file : Path) (number : Nat) :
    Except ReadError Outcome × Session :=
  if ((disk.size? file).map session.isOversized).getD false then
    let (outcome, session) := dropOversized disk session file number
    (.ok outcome, session)
  else
    match fetch disk session file with
    | (.error error, session) => (.error error, session)
    | (.ok text, session) =>
        let (outcome, session) :=
          if session.isOversized (byteLength text) then dropOversized disk session file number
          else reindexAt disk session file text number
        (.ok outcome, session)

def scanFile (disk : Disk) (session : Session) (file : Path) : FileResult × Session :=
  if session.circumstances.cancelled then (.cancelled, session)
  else
    let number := session.tracker.nextSequence
    match reindexFromDisk disk { session with tracker := session.tracker.reserve } file number with
    | (.error _, session) => (.failed, session)
    | (.ok outcome, session) =>
        (if outcome.oversized then .skipped else .indexed outcome, session)

def scanFiles (disk : Disk) : List Path → Session → List FileResult × Session
  | [], session => ([], session)
  | file :: rest, session =>
      let (result, session) := scanFile disk session file
      let (results, session) := scanFiles disk rest session
      (result :: results, session)

def vanished (session : Session) (files : List Path) : List Path :=
  session.tracker.tracked.keys.filter fun source => !files.any (· == source)

def scan (disk : Disk) (session : Session) : ScanSummary × Session :=
  let files := session.tracker.layout.indexableFiles disk
  let (results, session) := scanFiles disk files session
  let summary := ScanSummary.ofResults results
  if summary.cancelled then (summary, session)
  else
    let vanished := session.vanished files
    ({ summary with filesRemoved := vanished.length },
      { session with tracker := vanished.foldl Tracker.forget session.tracker })

def scanNewFiles (disk : Disk) : List Path → Session → Nat × Session
  | [], session => (0, session)
  | file :: rest, session =>
      match scanFile disk (session.forgetText file) file with
      | (.cancelled, session) => (0, session)
      | (.indexed _, session) =>
          let (count, session) := scanNewFiles disk rest session
          (count + 1, session)
      | (_, session) => scanNewFiles disk rest session

def newFiles (disk : Disk) (session : Session) (folder : Path) : List Path :=
  (disk.walk folder).filter (isIndexable session.tracker.layout.root)

def addFolder (disk : Disk) (session : Session) (folder : Path) : Nat × Session :=
  let (count, session) := scanNewFiles disk (session.newFiles disk folder) session
  (count, { session with tracker := (session.tracker.retryPending disk).1 })

end Session

end CodePointers
