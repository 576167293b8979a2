import CodePointers.Sorted
import CodePointers.Tracker

/-!
Questions to a tracker: what points at a line, and a dump of the whole index in one fixed order.
-/

namespace CodePointers

structure RangeEntry where
  range : LineRange
  references : List Reference
deriving BEq, ReflBEq

structure TargetEntry where
  file : Path
  ranges : List RangeEntry
deriving BEq, ReflBEq

namespace Tracker

def resolveInput (disk : Disk) (tracker : Tracker) (path : Path) : Path :=
  let absolute := tracker.layout.root.join path
  (disk.canonical? absolute).getD absolute

def referencesAt (disk : Disk) (tracker : Tracker) (file : Path) (line : Nat) : List Reference :=
  tracker.index.referencesAt (tracker.resolveInput disk file) line

def lineRanges (disk : Disk) (tracker : Tracker) (file : Path) : List LineRange :=
  tracker.index.lineRanges (tracker.resolveInput disk file)

def referencedFiles (tracker : Tracker) : List Path := sorted compare tracker.index.files

def rangeEntry (range : LineRange) (references : List Reference) : RangeEntry :=
  { range, references := sorted Reference.bySource references }

def snapshot (tracker : Tracker) : List TargetEntry :=
  tracker.referencedFiles.map fun file =>
    { file
      ranges := sorted (compareOn RangeEntry.range)
        ((tracker.index.entries file).map fun (range, references) => rangeEntry range references) }

end Tracker

end CodePointers
