import CodePointers.Tracker.Scan

/-!
Events that the tracker reacts to, one at a time. Events that wait together are a batch, from which
those are dropped that an earlier one of the batch makes redundant.
-/

namespace CodePointers

inductive FileEvent where
  | changed (path : Path)
  | created (path : Path)
  | removed (path : Path)
  /-- Events may have been lost: everything is scanned again. -/
  | rescan

namespace FileEvent

def path? : FileEvent → Option Path
  | changed path | created path | removed path => some path
  | rescan => none

def isChanged : FileEvent → Bool
  | changed _ => true
  | _ => false

def isRescan : FileEvent → Bool
  | rescan => true
  | _ => false

def concerns (path : Path) (event : FileEvent) : Bool :=
  match event.path? with
  | none => false
  | some named => named == path

def isRedundant (kept : List FileEvent) : FileEvent → Bool
  | changed path => ((kept.find? (concerns path)).map isChanged).getD false
  | rescan => (kept.head?.map isRescan).getD false
  | _ => false

def keep (kept : List FileEvent) (event : FileEvent) : List FileEvent :=
  if event.isRedundant kept then kept else event :: kept

/-- A `changed` is dropped when the last kept event for its path is one too, and a `rescan` right
after another one is dropped. -/
def coalesce (batch : List FileEvent) : List FileEvent := (batch.foldl keep []).reverse

end FileEvent

inductive QueueEnding where
  | drained
  | dropped

namespace Tracker

def refresh (disk : Disk) (tracker : Tracker) (file : Path) : Except ReadError Outcome × Tracker :=
  let (outcome, session) :=
    Session.reindexFromDisk disk { tracker := tracker.reserve.forgetText file } file
      tracker.nextSequence
  (outcome, session.tracker)

def apply (disk : Disk) (tracker : Tracker) : FileEvent → Tracker
  | .changed path =>
      if isIndexable tracker.layout.root path then
        match tracker.refresh disk path with
        | (.ok _, tracker) => tracker
        | (.error _, tracker) => if disk.pathExists path then tracker else tracker.forget path
      else tracker
  | .created path =>
      if disk.isFolder path then (Session.addFolder disk { tracker } path).2.tracker
      else
        let tracker :=
          if isIndexable tracker.layout.root path then (tracker.refresh disk path).2 else tracker
        (tracker.retryPending disk).1
  | .removed path => tracker.forgetWithin path
  | .rescan => (Session.scan disk { tracker }).2.tracker

def applyBatch (disk : Disk) (tracker : Tracker) (batch : List FileEvent) : Tracker :=
  (FileEvent.coalesce batch).foldl (apply disk) tracker

/-- Brings a queue of events to its end: the events that still wait are applied or dropped. -/
def closeQueue (disk : Disk) (tracker : Tracker) (ending : QueueEnding)
    (waiting : List FileEvent) : Tracker :=
  match ending with
  | .drained => tracker.applyBatch disk waiting
  | .dropped => tracker

end Tracker

end CodePointers
