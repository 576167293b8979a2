import CodePointers.FileEvent

/-!
Notifications of the file system, and the events they mean for the tracker. Any file outside the
excluded directories can be a target, so files that come and go always count; a change of content
counts only for files that are scanned.
-/

namespace CodePointers

inductive NotificationKind where
  | created
  | removed
  | renamedFrom
  | renamedTo
  | renamedBoth
  /-- One end of a rename, it is not known which. -/
  | renamedSomehow
  | modified
  | other

structure Notification where
  kind : NotificationKind
  paths : List Path
  needsRescan : Bool

def Notification.events (disk : Disk) (root : Path) (notification : Notification) :
    List FileEvent :=
  if notification.needsRescan then [.rescan]
  else
    let isRelevant (path : Path) := !hasExcludedAncestor root path
    let relevant := notification.paths.filter isRelevant
    match notification.kind with
    | .created | .renamedTo => relevant.map .created
    | .removed | .renamedFrom => relevant.map .removed
    | .renamedBoth =>
        ((notification.paths.head?.filter isRelevant).map .removed).toList ++
          ((notification.paths[1]?.filter isRelevant).map .created).toList
    | .renamedSomehow =>
        relevant.map fun path => if disk.pathExists path then .created path else .removed path
    | .modified => (relevant.filter (isIndexable root)).map .changed
    | .other => []

end CodePointers
