import CodePointers.Pointer.Scan
import CodePointers.ReferenceIndex
import CodePointers.Resolution
import CodePointers.TextCache

/-!
The state that keeps the reverse index in step with the files: for each source the pointers of its
last applied text, resolved or pending, beside the index of what they point at. Requests carry
sequence numbers, and one that is older than the last one applied to its file is superseded.
-/

namespace CodePointers

structure TrackedPointer where
  pointer : Pointer
  start : Nat
  stop : Nat
  /-- Counted from one, and never more than the number of lines of the text. -/
  definitionLine : Nat
  target? : Option Path

namespace TrackedPointer

def isPending (tracked : TrackedPointer) : Bool := tracked.target?.isNone

def reference (source : Path) (tracked : TrackedPointer) : Reference :=
  { source, start := tracked.start, stop := tracked.stop, lines := tracked.pointer.lines
    definitionLine := tracked.definitionLine }

end TrackedPointer

structure Tracker where
  layout : Layout
  settings : Settings
  index : ReferenceIndex
  tracked : OrderedMap Path (List TrackedPointer)
  applied : OrderedMap Path Nat
  sequence : Nat
  cache : TextCache

structure Outcome where
  matched : Nat := 0
  indexed : Nat := 0
  parseFailures : Nat := 0
  unresolved : Nat := 0
  superseded : Bool := false
  oversized : Bool := false
deriving DecidableEq

namespace Tracker

def ofLayout (layout : Layout) (settings : Settings) : Tracker :=
  { layout, settings, index := .empty, tracked := .empty, applied := .empty, sequence := 0
    cache := .empty }

def ofDisk (disk : Disk) (root : Path) (settings : Settings) : Tracker :=
  ofLayout (.ofDisk disk root) settings

def nextSequence (tracker : Tracker) : Nat := tracker.sequence + 1

def reserve (tracker : Tracker) : Tracker := { tracker with sequence := tracker.nextSequence }

def appliedTo (tracker : Tracker) (file : Path) : Nat := (tracker.applied.get? file).getD 0

def pointersOf (tracker : Tracker) (file : Path) : List TrackedPointer :=
  (tracker.tracked.get? file).getD []

def pendingCount (tracker : Tracker) : Nat :=
  tracker.tracked.total (List.countP TrackedPointer.isPending)

def forgetText (tracker : Tracker) (file : Path) : Tracker :=
  { tracker with cache := tracker.cache.erase file }

def clear (tracker : Tracker) : Tracker :=
  { tracker with tracked := .empty, index := tracker.index.clear }

def isMalformed (found : Occurrence) : Bool :=
  match Pointer.parse found.text with
  | .error _ => true
  | .ok _ => false

def track? (disk : Disk) (layout : Layout) (found : Occurrence) : Option TrackedPointer :=
  match Pointer.parse found.text with
  | .error _ => none
  | .ok pointer =>
      some { pointer, start := found.start, stop := found.stop, definitionLine := found.line
             target? := layout.target? disk pointer }

def extract (disk : Disk) (layout : Layout) (text : Text) : List TrackedPointer :=
  (Occurrence.findAll text).filterMap (track? disk layout)

def addReference (source : Path) (index : ReferenceIndex) (tracked : TrackedPointer) :
    ReferenceIndex :=
  match tracked.target? with
  | none => index
  | some target => (index.insert target (tracked.reference source)).1

/-- Replaces what is known of a file by the pointers of its text, as request `number`. -/
def reindexAt (disk : Disk) (tracker : Tracker) (file : Path) (text : Text) (number : Nat) :
    Tracker × Outcome :=
  if number < tracker.appliedTo file then (tracker, { superseded := true })
  else
    let pointers := extract disk tracker.layout text
    let found := Occurrence.findAll text
    let cleared := (tracker.index.removeOutbound file).1
    ({ tracker with
        index := pointers.foldl (addReference file) cleared
        tracked :=
          if pointers.isEmpty then tracker.tracked.erase file
          else tracker.tracked.insert file pointers
        applied := tracker.applied.insert file number },
      { matched := found.length
        indexed := pointers.countP fun pointer => !pointer.isPending
        parseFailures := found.countP isMalformed
        unresolved := pointers.countP TrackedPointer.isPending })

def reindex (disk : Disk) (tracker : Tracker) (file : Path) (text : Text) : Tracker × Outcome :=
  reindexAt disk tracker.reserve file text tracker.nextSequence

end Tracker

end CodePointers
