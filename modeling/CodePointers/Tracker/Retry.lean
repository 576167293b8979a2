import CodePointers.Tracker

/-!
Trying pending pointers again. Those that resolve now get their target and a reference, all others
stay as they are.
-/

namespace CodePointers.Tracker

/-- The pointer with the target that it has on the disk now, if it had none. -/
def renew (disk : Disk) (layout : Layout) (tracked : TrackedPointer) : TrackedPointer :=
  match tracked.target? with
  | none => { tracked with target? := layout.target? disk tracked.pointer }
  | some _ => tracked

def resolvable (disk : Disk) (layout : Layout) (pointers : List TrackedPointer) :
    List TrackedPointer :=
  ((pointers.filter TrackedPointer.isPending).map (renew disk layout)).filter
    fun tracked => !tracked.isPending

def retryPending (disk : Disk) (tracker : Tracker) : Tracker × Nat :=
  let found := tracker.tracked.entries.map fun (source, pointers) =>
    (source, resolvable disk tracker.layout pointers)
  ({ tracker with
      index := found.foldl (fun index (source, pointers) =>
        pointers.foldl (addReference source) index) tracker.index
      tracked := tracker.tracked.mapValues fun pointers =>
        pointers.map (renew disk tracker.layout) },
    found.foldr (fun (_, pointers) count => pointers.length + count) 0)

def addFile (disk : Disk) (tracker : Tracker) (file : Path) (text : Text) : Tracker × Outcome :=
  let (tracker, outcome) := tracker.reindex disk file text
  ((tracker.retryPending disk).1, outcome)

end CodePointers.Tracker
