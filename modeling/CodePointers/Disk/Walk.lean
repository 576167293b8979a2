import CodePointers.Disk
import CodePointers.Settings

/-!
Walking a folder: its files in the order of their names, the files of an inner folder standing
where the folder does. Excluded folders are never entered, but the starting point always is.
-/

namespace CodePointers

namespace Folder

def walk (base : Path) : Folder → List Path
  | empty => []
  | fileEntry name _ rest => base.child name :: rest.walk base
  | folderEntry name inner rest =>
      (if isExcludedName name then [] else inner.walk (base.child name)) ++ rest.walk base

end Folder

namespace Disk

def walk (disk : Disk) (start : Path) : List Path :=
  match disk.node? start with
  | none => []
  | some (.file _) => [start]
  | some (.folder tree) => tree.walk start

end Disk

end CodePointers
