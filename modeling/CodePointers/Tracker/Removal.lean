import CodePointers.Tracker

/-!
Forgetting files that are gone. A forgotten file is no source and no target any more; the pointers
at it become pending, and requests that are still under way for it are superseded.
-/

namespace CodePointers.Tracker

def release (file : Path) (tracked : TrackedPointer) : TrackedPointer :=
  match tracked.target? with
  | none => tracked
  | some target => if target == file then { tracked with target? := none } else tracked

def forget (tracker : Tracker) (file : Path) : Tracker :=
  { tracker.reserve.forgetText file with
    applied := tracker.applied.insert file tracker.nextSequence
    tracked := (tracker.tracked.erase file).mapValues fun pointers => pointers.map (release file)
    index := tracker.index.removeFile file }

def knownWithin (tracker : Tracker) (path : Path) : List Path :=
  ((tracker.tracked.keys ++ tracker.index.files).filter (·.isWithin path) ++ [path]).eraseDups

def forgetWithin (tracker : Tracker) (path : Path) : Tracker :=
  (tracker.knownWithin path).foldl forget tracker

end CodePointers.Tracker
